/-
The slots of a directory as one list: which entries `fat32_iter_dir` sees in
it, what its callbacks compute from them, and where `fat32_dir_find_free` stops.
-/
import OsAgentLab.Fat32.Directory
import Mathlib.Data.List.Induction

namespace OsAgentLab

/-- A slot that `fat32_iter_dir` hands to its callback. -/
def RawDirent.isEntry (raw : RawDirent) : Bool :=
  !raw.isEnd && !raw.isDeleted && !raw.isLfn && !raw.isVolume

/-- A long-name slot that is in use. -/
def RawDirent.isLiveLfn (raw : RawDirent) : Bool :=
  !raw.isEnd && !raw.isDeleted && raw.isLfn

/-- The decoder state behind one slot. -/
def LfnState.after (st : LfnState) (raw : RawDirent) : LfnState :=
  if raw.isDeleted then st.drop
  else if raw.isLfn then st.feed raw
  else st.drop

/-- The decoder state behind a list of slots. -/
def LfnState.afterAll (st : LfnState) (raws : List RawDirent) : LfnState :=
  raws.foldl LfnState.after st

/-- No long name is being collected. -/
def LfnState.Inert (st : LfnState) : Prop := st.valid = false ∧ st.count = 0

/-- The callback arguments for the short entry `raw` in slot `i`. -/
def hitAt (place : Nat → Nat × Nat) (st : LfnState) (i : Nat) (raw : RawDirent) : DirHit where
  raw := raw
  name := st.entryName raw
  direntLba := (place i).1
  direntOff := (place i).2
  entryIndex := i
  lfnCount := st.count

/-- The slots with the indices from `i` on, `place` giving their addresses. -/
def slotsFrom (place : Nat → Nat × Nat) : Nat → List RawDirent → List DirSlot
  | _, [] => []
  | i, raw :: rest => ⟨raw, (place i).1, (place i).2, i⟩ :: slotsFrom place (i + 1) rest

/-- The entries that `fat32_iter_dir` finds in the slots from `i` on. -/
def hitsFrom (place : Nat → Nat × Nat) : LfnState → Nat → List RawDirent → List DirHit
  | _, _, [] => []
  | st, i, raw :: rest =>
      if raw.isEnd then []
      else if raw.isEntry then hitAt place st i raw :: hitsFrom place st.drop (i + 1) rest
      else hitsFrom place (st.after raw) (i + 1) rest

/-- A callback run over a list of entries, as long as it returns zero. -/
def runHits {β : Type} (cb : DirHit → β → CbRet × β) : List DirHit → β → CbRet × β
  | [], ctx => (.goOn, ctx)
  | hit :: rest, ctx =>
      match cb hit ctx with
      | (.goOn, ctx') => runHits cb rest ctx'
      | result => result

/-- A callback whose calls are noted. -/
def noted {ι β : Type} (cb : ι → β → CbRet × β) (i : ι) (s : β × List ι) : CbRet × (β × List ι) :=
  ((cb i s.1).1, ((cb i s.1).2, s.2 ++ [i]))

/-- What `fat32_iter_dir` returns once its loop is left. -/
def iterEnd {β : Type} : Flow (LfnState × β) (CbRet × β) → CbRet × β
  | .done result => result
  | .next state => (.goOn, state.2)

/-- All slots behind an end mark are end marks. -/
def CleanTail (raws : List RawDirent) : Prop :=
  raws.Pairwise fun a b => a.isEnd = true → b.isEnd = true

/-- No slot is an end mark. -/
def NoEnd (raws : List RawDirent) : Prop := ∀ raw ∈ raws, raw.isEnd = false

/-- The last slot of the list is in use. -/
def EndsUsed (raws : List RawDirent) : Prop := ∀ raw ∈ raws.getLast?, raw.isFree = false

section Slots

variable {place : Nat → Nat × Nat}

theorem slotsFrom_append (i : Nat) (left right : List RawDirent) :
    slotsFrom place i (left ++ right) =
      slotsFrom place i left ++ slotsFrom place (i + left.length) right := by
  induction left generalizing i with
  | nil => rfl
  | cons raw rest ih =>
      simp only [List.cons_append, slotsFrom, ih, List.length_cons]
      rw [show i + 1 + rest.length = i + (rest.length + 1) by omega]

theorem slotsFrom_congr {place' : Nat → Nat × Nat} {i : Nat} {raws : List RawDirent}
    (h : ∀ j, i ≤ j → j < i + raws.length → place' j = place j) :
    slotsFrom place' i raws = slotsFrom place i raws := by
  induction raws generalizing i with
  | nil => rfl
  | cons raw rest ih =>
      rw [slotsFrom, slotsFrom, h i (Nat.le_refl i) (by simp)]
      rw [ih fun j hj hlt => h j (by omega) (by simp only [List.length_cons]; omega)]

theorem slotStep_end {raw : RawDirent} (lba off i : Nat) (st : LfnState)
    (h : raw.isEnd = true) : slotStep ⟨raw, lba, off, i⟩ st = .endMark := by
  simp [slotStep, h]

theorem slotStep_entry {raw : RawDirent} (i : Nat) (st : LfnState) (h : raw.isEntry = true) :
    slotStep ⟨raw, (place i).1, (place i).2, i⟩ st =
      .entry (hitAt place st i raw) st.drop := by
  simp only [RawDirent.isEntry, Bool.and_eq_true, Bool.not_eq_eq_eq_not, Bool.not_true] at h
  obtain ⟨⟨⟨hend, hdel⟩, hlfn⟩, hvol⟩ := h
  simp [slotStep, hend, hdel, hlfn, hvol, hitAt]

theorem slotStep_skip {raw : RawDirent} (lba off i : Nat) (st : LfnState)
    (hend : raw.isEnd = false) (h : raw.isEntry = false) :
    slotStep ⟨raw, lba, off, i⟩ st = .skip (st.after raw) := by
  simp only [RawDirent.isEntry, hend, Bool.not_false, Bool.true_and] at h
  simp only [slotStep, hend, LfnState.after, Bool.false_eq_true, ↓reduceIte]
  by_cases hdel : raw.isDeleted = true
  · simp only [hdel, ↓reduceIte]
  · by_cases hlfn : raw.isLfn = true
    · simp only [hdel, hlfn, Bool.false_eq_true, ↓reduceIte]
    · have hvol : raw.isVolume = true := by simpa [hdel, hlfn] using h
      simp only [hdel, hlfn, hvol, Bool.false_eq_true, ↓reduceIte]

theorem slotStep_hit {slot : DirSlot} {hit : DirHit} {st st' : LfnState}
    (h : slotStep slot st = .entry hit st') :
    hit = ⟨slot.raw, st.entryName slot.raw, slot.lba, slot.off, slot.index, st.count⟩ := by
  rw [slotStep] at h
  split at h
  · cases h
  · split at h
    · cases h
    · split at h
      · cases h
      · split at h
        · cases h
        · injection h with hhit
          exact hhit.symm

/-- The loop over the slots runs the callback over the entries. -/
theorem loop_iterSlot {β : Type} (cb : DirHit → β → CbRet × β) (i : Nat)
    (raws : List RawDirent) (st : LfnState) (ctx : β) :
    iterEnd (Flow.loop (iterSlot cb) (slotsFrom place i raws) (st, ctx)) =
      runHits cb (hitsFrom place st i raws) ctx := by
  induction raws generalizing i st ctx with
  | nil => rfl
  | cons raw rest ih =>
      rw [slotsFrom, Flow.loop_cons, hitsFrom, iterSlot]
      by_cases hend : raw.isEnd = true
      · rw [slotStep_end _ _ _ _ hend, if_pos hend]
        rfl
      · rw [if_neg hend]
        simp only [Bool.not_eq_true] at hend
        by_cases hentry : raw.isEntry = true
        · rw [slotStep_entry i st hentry, if_pos hentry]
          simp only [runHits]
          rcases hcb : cb (hitAt place st i raw) ctx with ⟨ret, ctx'⟩
          cases ret with
          | goOn => exact ih (i + 1) st.drop ctx'
          | stop => rfl
          | fail e => rfl
        · simp only [Bool.not_eq_true] at hentry
          rw [slotStep_skip _ _ _ _ hend hentry, hentry]
          simp only [Bool.false_eq_true, ↓reduceIte]
          exact ih (i + 1) (st.after raw) ctx

end Slots

section States

theorem LfnState.drop_inert (st : LfnState) : st.drop.Inert := ⟨rfl, rfl⟩

theorem LfnState.init_inert : LfnState.init.Inert := ⟨rfl, rfl⟩

theorem LfnState.afterAll_nil (st : LfnState) : st.afterAll [] = st := rfl

theorem LfnState.afterAll_cons (st : LfnState) (raw : RawDirent) (rest : List RawDirent) :
    st.afterAll (raw :: rest) = (st.after raw).afterAll rest := rfl

theorem LfnState.afterAll_append (st : LfnState) (left right : List RawDirent) :
    st.afterAll (left ++ right) = (st.afterAll left).afterAll right :=
  List.foldl_append

theorem LfnState.afterAll_concat (st : LfnState) (left : List RawDirent) (raw : RawDirent) :
    st.afterAll (left ++ [raw]) = (st.afterAll left).after raw := by
  rw [LfnState.afterAll_append]
  rfl

/-- Only a long-name slot leaves a name behind. -/
theorem LfnState.after_inert (st : LfnState) {raw : RawDirent} (h : raw.isLfn = false) :
    (st.after raw).Inert := by
  simp only [LfnState.after, h, Bool.false_eq_true, ↓reduceIte]
  split <;> exact st.drop_inert

theorem LfnState.after_deleted (st : LfnState) {raw : RawDirent} (h : raw.isDeleted = true) :
    (st.after raw).Inert := by
  simp only [LfnState.after, h, ↓reduceIte]
  exact st.drop_inert

theorem LfnState.after_entry (st : LfnState) {raw : RawDirent} (h : raw.isEntry = true) :
    st.after raw = st.drop := by
  simp only [RawDirent.isEntry, Bool.and_eq_true, Bool.not_eq_eq_eq_not, Bool.not_true] at h
  simp [LfnState.after, h.1.2]

/-- Inert states stay together. -/
theorem LfnState.after_inert_congr {st st' : LfnState} (h : st.Inert) (h' : st'.Inert)
    (raw : RawDirent) :
    (st.after raw = st'.after raw) ∨ ((st.after raw).Inert ∧ (st'.after raw).Inert) := by
  simp only [LfnState.after]
  by_cases hdel : raw.isDeleted = true
  · simp only [hdel, ↓reduceIte]
    exact Or.inr ⟨st.drop_inert, st'.drop_inert⟩
  by_cases hlfn : raw.isLfn = true
  · simp only [hdel, hlfn, Bool.false_eq_true, ↓reduceIte, LfnState.feed]
    by_cases hord : raw.ord &&& 0x40 ≠ 0
    · simp only [hord, ne_eq, not_false_eq_true, ↓reduceIte]
      exact Or.inl trivial
    · simp only [hord, ↓reduceIte, h.1, h'.1, Bool.false_and, Bool.false_eq_true]
      exact Or.inr ⟨st.drop_inert, st'.drop_inert⟩
  · simp only [hdel, hlfn, Bool.false_eq_true, ↓reduceIte]
    exact Or.inr ⟨st.drop_inert, st'.drop_inert⟩

theorem LfnState.entryName_inert {st : LfnState} (h : st.Inert) (raw : RawDirent) :
    st.entryName raw = shortToName raw.name := by
  simp [LfnState.entryName, h.1]

end States

section Hits

variable {place : Nat → Nat × Nat}

theorem hitAt_congr {st st' : LfnState} (h : st.Inert) (h' : st'.Inert) (i : Nat)
    (raw : RawDirent) : hitAt place st i raw = hitAt place st' i raw := by
  simp only [hitAt, LfnState.entryName_inert h, LfnState.entryName_inert h', h.2, h'.2]

/-- What the decoder has collected before does not matter once it is inert. -/
theorem hitsFrom_inert {st st' : LfnState} (h : st.Inert) (h' : st'.Inert) (i : Nat)
    (raws : List RawDirent) : hitsFrom place st i raws = hitsFrom place st' i raws := by
  induction raws generalizing st st' i with
  | nil => rfl
  | cons raw rest ih =>
      rw [hitsFrom, hitsFrom, hitAt_congr h h',
        ih st.drop_inert st'.drop_inert (i + 1)]
      rcases LfnState.after_inert_congr h h' raw with heq | ⟨hi, hi'⟩
      · rw [heq]
      · rw [ih hi hi' (i + 1)]

theorem hitsFrom_append {st : LfnState} {i : Nat} {left : List RawDirent} (h : NoEnd left)
    (right : List RawDirent) :
    hitsFrom place st i (left ++ right) =
      hitsFrom place st i left ++
        hitsFrom place (st.afterAll left) (i + left.length) right := by
  induction left generalizing st i with
  | nil => rfl
  | cons raw rest ih =>
      have hend : raw.isEnd = false := h raw List.mem_cons_self
      have hrest : NoEnd rest := fun r hr => h r (List.mem_cons_of_mem raw hr)
      simp only [List.cons_append, hitsFrom, hend, Bool.false_eq_true, ↓reduceIte,
        LfnState.afterAll_cons, List.length_cons]
      rw [show i + (rest.length + 1) = i + 1 + rest.length by omega]
      by_cases hentry : raw.isEntry = true
      · simp only [hentry, ↓reduceIte, ih hrest, List.cons_append,
          LfnState.after_entry st hentry]
      · simp only [hentry, Bool.false_eq_true, ↓reduceIte, ih hrest]

theorem hitsFrom_ends {st : LfnState} {i : Nat} {raws : List RawDirent}
    (h : ∀ raw ∈ raws, raw.isEnd = true) : hitsFrom place st i raws = [] := by
  cases raws with
  | nil => rfl
  | cons raw rest =>
      rw [hitsFrom, if_pos (h raw List.mem_cons_self)]

/-- Slots without entries. -/
theorem hitsFrom_noEntry {st : LfnState} {i : Nat} (raws : List RawDirent)
    (h : ∀ raw ∈ raws, raw.isEntry = false) : hitsFrom place st i raws = [] := by
  induction raws generalizing st i with
  | nil => rfl
  | cons raw rest ih =>
      rw [hitsFrom, h raw List.mem_cons_self]
      simp only [Bool.false_eq_true, ↓reduceIte]
      rw [ih fun r hr => h r (List.mem_cons_of_mem raw hr)]
      split <;> rfl

theorem hitsFrom_singleton {st : LfnState} {i : Nat} {raw : RawDirent}
    (h : raw.isEntry = true) : hitsFrom place st i [raw] = [hitAt place st i raw] := by
  have hend : raw.isEnd = false := by
    simp only [RawDirent.isEntry, Bool.and_eq_true, Bool.not_eq_eq_eq_not, Bool.not_true] at h
    exact h.1.1.1
  simp [hitsFrom, h, hend]

theorem hitsFrom_congr {place' : Nat → Nat × Nat} {st : LfnState} {i : Nat}
    {raws : List RawDirent}
    (h : ∀ j, i ≤ j → j < i + raws.length → place' j = place j) :
    hitsFrom place' st i raws = hitsFrom place st i raws := by
  induction raws generalizing st i with
  | nil => rfl
  | cons raw rest ih =>
      have hrest : ∀ st, hitsFrom place' st (i + 1) rest = hitsFrom place st (i + 1) rest :=
        fun st => ih fun j hj hlt => h j (by omega) (by simp only [List.length_cons]; omega)
      rw [hitsFrom, hitsFrom, hrest, hrest, hitAt, hitAt, h i (Nat.le_refl i) (by simp)]

/-- Every entry found comes from a slot that no end mark precedes. -/
theorem mem_hitsFrom {st : LfnState} {i : Nat} {raws : List RawDirent} {hit : DirHit} :
    hit ∈ hitsFrom place st i raws ↔
      ∃ left raw right, raws = left ++ raw :: right ∧ NoEnd left ∧ raw.isEntry = true ∧
        hit = hitAt place (st.afterAll left) (i + left.length) raw := by
  constructor
  · intro hmem
    induction raws generalizing st i with
    | nil => cases hmem
    | cons raw rest ih =>
        rw [hitsFrom] at hmem
        by_cases hend : raw.isEnd = true
        · rw [if_pos hend] at hmem
          cases hmem
        rw [if_neg hend] at hmem
        simp only [Bool.not_eq_true] at hend
        have hgo : hit ∈ hitsFrom place (st.after raw) (i + 1) rest →
            ∃ left raw' right, raw :: rest = left ++ raw' :: right ∧ NoEnd left ∧
              raw'.isEntry = true ∧
              hit = hitAt place (st.afterAll left) (i + left.length) raw' := by
          intro hrest
          obtain ⟨left, raw', right, rfl, hno, hentry, rfl⟩ := ih hrest
          refine ⟨raw :: left, raw', right, rfl, ?_, hentry, ?_⟩
          · intro r hr
            rcases List.mem_cons.mp hr with rfl | hr
            · exact hend
            · exact hno r hr
          · rw [LfnState.afterAll_cons, List.length_cons,
              show i + 1 + left.length = i + (left.length + 1) by omega]
        by_cases hentry : raw.isEntry = true
        · rw [if_pos hentry] at hmem
          rcases List.mem_cons.mp hmem with rfl | hmem
          · exact ⟨[], raw, rest, rfl, by simp [NoEnd], hentry, rfl⟩
          · rw [← LfnState.after_entry st hentry] at hmem
            exact hgo hmem
        · rw [if_neg hentry] at hmem
          exact hgo hmem
  · rintro ⟨left, raw, right, rfl, hno, hentry, rfl⟩
    have hend : raw.isEnd = false := by
      simp only [RawDirent.isEntry, Bool.and_eq_true, Bool.not_eq_eq_eq_not,
        Bool.not_true] at hentry
      exact hentry.1.1.1
    rw [hitsFrom_append hno, List.mem_append]
    right
    rw [hitsFrom, hend]
    simp [hentry]

theorem hitsFrom_middle {st : LfnState} {i : Nat} {left mid : List RawDirent}
    (hleft : NoEnd left) (hmid : NoEnd mid) (hinert : (st.afterAll (left ++ mid)).Inert)
    (right : List RawDirent) :
    hitsFrom place st i (left ++ mid ++ right) =
      hitsFrom place st i left ++
        hitsFrom place (st.afterAll left) (i + left.length) mid ++
        hitsFrom place LfnState.init (i + left.length + mid.length) right := by
  rw [hitsFrom_append (by
      intro raw hraw
      rcases List.mem_append.mp hraw with hraw | hraw
      · exact hleft raw hraw
      · exact hmid raw hraw),
    hitsFrom_append hleft, hitsFrom_inert hinert LfnState.init_inert, List.length_append,
    Nat.add_assoc]

theorem RawDirent.isFree_of_isEnd {raw : RawDirent} (h : raw.isEnd = true) :
    raw.isFree = true := by
  simp [RawDirent.isFree, h]

theorem RawDirent.isDeleted_of_isFree {raw : RawDirent} (h : raw.isFree = true)
    (hend : raw.isEnd = false) : raw.isDeleted = true := by
  simpa [RawDirent.isFree, hend] using h

theorem RawDirent.isEntry_of_isFree {raw : RawDirent} (h : raw.isFree = true) :
    raw.isEntry = false := by
  simp only [RawDirent.isFree, Bool.or_eq_true] at h
  rcases h with h | h <;> simp [RawDirent.isEntry, h]

theorem RawDirent.isEnd_of_not_free {raw : RawDirent} (h : raw.isFree = false) :
    raw.isEnd = false := by
  simp only [RawDirent.isFree, Bool.or_eq_false_iff] at h
  exact h.1

/-- Free slots are passed over; behind them nothing is being collected. -/
theorem hitsFrom_free {st : LfnState} {i : Nat} {free right : List RawDirent}
    (hfree : ∀ raw ∈ free, raw.isFree = true) (hclean : CleanTail (free ++ right))
    (hst : free = [] → st.Inert) :
    hitsFrom place st i (free ++ right) =
      hitsFrom place LfnState.init (i + free.length) right := by
  induction free generalizing st i with
  | nil => exact hitsFrom_inert (hst rfl) LfnState.init_inert i right
  | cons raw rest ih =>
      obtain ⟨hhead, hclean⟩ := List.pairwise_cons.mp hclean
      have hraw := hfree raw List.mem_cons_self
      rw [List.cons_append, hitsFrom, RawDirent.isEntry_of_isFree hraw]
      by_cases hend : raw.isEnd = true
      · rw [if_pos hend, hitsFrom_ends fun r hr =>
          hhead r (List.mem_append_right rest hr) hend]
      · simp only [Bool.not_eq_true] at hend
        have hdel := RawDirent.isDeleted_of_isFree hraw hend
        simp only [hend, Bool.false_eq_true, ↓reduceIte, List.length_cons]
        rw [ih (fun r hr => hfree r (List.mem_cons_of_mem raw hr)) hclean
          fun _ => st.after_deleted hdel]
        rw [show i + 1 + rest.length = i + (rest.length + 1) by omega]

/-- The slots before a used slot hold no end mark. -/
theorem CleanTail.noEnd {left right : List RawDirent} (h : CleanTail (left ++ right))
    (hused : EndsUsed left) : NoEnd left := by
  intro raw hraw
  by_contra hend
  simp only [Bool.not_eq_false] at hend
  have hne : left ≠ [] := List.ne_nil_of_mem hraw
  have hlast := hused _ (List.getLast_mem_getLast? hne)
  obtain ⟨pre, suf, rfl⟩ := List.append_of_mem hraw
  have hpair := (List.pairwise_append.mp h).1
  have htail := (List.pairwise_cons.mp (List.pairwise_append.mp hpair).2.1).1
  have hlastEnd : ((pre ++ raw :: suf).getLast hne).isEnd = true := by
    by_cases hsuf : suf = []
    · subst hsuf
      simpa using hend
    · rw [List.getLast_append_of_ne_nil _ (List.cons_ne_nil raw suf),
        List.getLast_cons hsuf]
      exact htail _ (List.getLast_mem hsuf) hend
  rw [RawDirent.isFree_of_isEnd hlastEnd] at hlast
  cases hlast

end Hits

section LongNames

/-- The long-name slots that the decoder has counted directly precede. -/
theorem LfnState.count_spec (raws : List RawDirent) :
    ∃ left run, raws = left ++ run ∧ run.length = (LfnState.init.afterAll raws).count ∧
      ∀ raw ∈ run, raw.isLfn = true := by
  induction raws using List.reverseRecOn with
  | nil => exact ⟨[], [], rfl, rfl, by simp⟩
  | append_singleton raws raw ih =>
      rw [LfnState.afterAll_concat]
      generalize LfnState.init.afterAll raws = st at ih
      have hzero : ∀ st' : LfnState, st'.count = 0 →
          ∃ left run, raws ++ [raw] = left ++ run ∧ run.length = st'.count ∧
            ∀ r ∈ run, r.isLfn = true := by
        intro st' hcount
        exact ⟨raws ++ [raw], [], by simp, by simp [hcount], by simp⟩
      by_cases hdel : raw.isDeleted = true
      · exact hzero _ (st.after_deleted hdel).2
      by_cases hlfn : raw.isLfn = true
      · simp only [LfnState.after, hdel, hlfn, Bool.false_eq_true, ↓reduceIte, LfnState.feed]
        by_cases hord : raw.ord &&& 0x40 ≠ 0
        · refine ⟨raws, [raw], rfl, ?_, ?_⟩
          · simp [hord]
          · intro r hr
            rw [List.mem_singleton.mp hr]
            exact hlfn
        · simp only [hord, ↓reduceIte]
          split
          · obtain ⟨left, run, rfl, hlen, hall⟩ := ih
            refine ⟨left, run ++ [raw], by simp, by simp [hlen], ?_⟩
            intro r hr
            rcases List.mem_append.mp hr with hr | hr
            · exact hall r hr
            · rw [List.mem_singleton.mp hr]
              exact hlfn
          · exact hzero _ rfl
      · exact hzero _ (st.after_inert (by simpa using hlfn)).2

theorem RawDirent.isEntry_of_isLfn {raw : RawDirent} (h : raw.isLfn = true) :
    raw.isEntry = false := by
  simp [RawDirent.isEntry, h]

end LongNames

section Callbacks

theorem runHits_find (name : CName) (hits : List DirHit) :
    runHits (fat32FindCb name) hits none =
      match hits.find? fun hit => nameEqNocase hit.name name with
      | some hit => (.stop, some hit)
      | none => (.goOn, none) := by
  induction hits with
  | nil => rfl
  | cons hit rest ih =>
      rw [runHits, fat32FindCb, List.find?_cons]
      by_cases h : nameEqNocase hit.name name = true
      · simp [h]
      · simp only [h, Bool.false_eq_true, ↓reduceIte]
        exact ih

theorem runHits_shortExists (short : List UInt8) (hits : List DirHit) :
    runHits (fat32ShortExistsCb short) hits false =
      if hits.any (fun hit => hit.raw.name = short) then (.stop, true) else (.goOn, false) := by
  induction hits with
  | nil => rfl
  | cons hit rest ih =>
      rw [runHits, fat32ShortExistsCb, List.any_cons]
      by_cases h : hit.raw.name = short
      · simp [h]
      · simp only [h, ↓reduceIte, decide_false, Bool.false_or]
        exact ih

theorem runHits_readdir (want idx : Nat) (hits : List DirHit) (hle : idx ≤ want) :
    runHits (fat32ReaddirCb want) hits (idx, none) =
      match (hits.filter fun hit => !isDotName hit.name)[want - idx]? with
      | some hit => (.stop, (want, some hit))
      | none => (.goOn, (idx + (hits.filter fun hit => !isDotName hit.name).length, none)) := by
  induction hits generalizing idx with
  | nil => rfl
  | cons hit rest ih =>
      rw [runHits, fat32ReaddirCb]
      by_cases hdot : isDotName hit.name = true
      · simp only [hdot, ↓reduceIte, List.filter_cons, Bool.not_true, Bool.false_eq_true]
        exact ih idx hle
      · simp only [hdot, Bool.false_eq_true, ↓reduceIte, List.filter_cons, Bool.not_false,
          List.length_cons]
        by_cases heq : idx = want
        · subst heq
          simp
        · have hlt : idx + 1 ≤ want := by omega
          simp only [heq, ↓reduceIte]
          rw [ih (idx + 1) hlt, show want - idx = want - (idx + 1) + 1 by omega,
            List.getElem?_cons_succ]
          split
          · rfl
          · simp only [Prod.mk.injEq, and_true, true_and]
            omega

/-- A directory is empty when it lists dot entries only. -/
theorem runHits_readdir_first (hits : List DirHit) :
    runHits (fat32ReaddirCb 0) hits (0, none) =
      match hits.find? fun hit => !isDotName hit.name with
      | some hit => (.stop, (0, some hit))
      | none => (.goOn, (0, none)) := by
  rw [runHits_readdir 0 0 hits (Nat.le_refl 0), ← List.head?_filter, List.head?_eq_getElem?]
  cases h : (hits.filter fun hit => !isDotName hit.name) with
  | nil => rfl
  | cons hit rest => rfl

end Callbacks

section FreeRuns

variable {place : Nat → Nat × Nat}

/-- The free slots `run` behind the used slot that ends `left` are what the
search has found so far. -/
structure FreeRun.At (needed : Nat) (left free : List RawDirent) (run : FreeRun) : Prop where
  used : EndsUsed left
  allFree : ∀ raw ∈ free, raw.isFree = true
  len : run.len = free.length
  short : free.length < needed
  start : free ≠ [] → run.start = left.length

/-- Where the search of `fat32_dir_find_free` stops: at the first free run
that is long enough, or at the end with the free run there. -/
theorem loop_freeRunStep (place : Nat → Nat × Nat) {needed : Nat} (raws : List RawDirent) {left free : List RawDirent}
    {run : FreeRun} (h : run.At needed left free) :
    (∃ left' free' right, left ++ free ++ raws = left' ++ free' ++ right ∧ EndsUsed left' ∧
        (∀ raw ∈ free', raw.isFree = true) ∧ free'.length = needed ∧
        Flow.loop (freeRunStep needed) (slotsFrom place (left.length + free.length) raws) run =
          .done (.ok left'.length)) ∨
      ∃ left' free' run', left ++ free ++ raws = left' ++ free' ∧ run'.At needed left' free' ∧
        Flow.loop (freeRunStep needed) (slotsFrom place (left.length + free.length) raws) run =
          .next run' := by
  induction raws generalizing left free run with
  | nil => exact Or.inr ⟨left, free, run, by simp, h, rfl⟩
  | cons raw rest ih =>
      rw [slotsFrom, Flow.loop_cons, freeRunStep]
      by_cases hraw : raw.isFree = true
      · have hstart : (if run.len = 0 then left.length + free.length else run.start) =
            left.length := by
          by_cases hnil : free = []
          · rw [if_pos (by rw [h.len, hnil]; rfl), hnil]
            rfl
          · have hpos := List.length_pos_iff.mpr hnil
            rw [if_neg (by rw [h.len]; omega), h.start hnil]
        rw [h.len] at hstart
        simp only [hraw, ↓reduceIte, h.len, hstart]
        have hfree : ∀ r ∈ free ++ [raw], r.isFree = true := by
          intro r hr
          rcases List.mem_append.mp hr with hr | hr
          · exact h.allFree r hr
          · rw [List.mem_singleton.mp hr]
            exact hraw
        by_cases henough : needed ≤ free.length + 1
        · refine Or.inl ⟨left, free ++ [raw], rest, by simp, h.used, hfree, ?_, ?_⟩
          · have := h.short
            simp only [List.length_append, List.length_singleton]
            omega
          · rw [if_pos henough]
            rfl
        · rw [if_neg henough, Flow.next_bind]
          have hnext : FreeRun.At needed left (free ++ [raw]) ⟨left.length, free.length + 1⟩ :=
            ⟨h.used, hfree, by simp, by simpa using henough, fun _ => rfl⟩
          have hrec := ih hnext
          simp only [List.length_append, List.length_singleton, List.append_assoc,
            List.singleton_append] at hrec
          simp only [List.append_assoc]
          rw [show left.length + free.length + 1 = left.length + (free.length + 1) by omega]
          exact hrec
      · have hnotFree : raw.isFree = false := by simpa using hraw
        simp only [hraw, Bool.false_eq_true, ↓reduceIte, Flow.next_bind]
        have hneeded : 0 < needed := Nat.lt_of_le_of_lt (Nat.zero_le _) h.short
        have hnext : FreeRun.At needed (left ++ free ++ [raw]) [] ⟨run.start, 0⟩ := by
          refine ⟨?_, by simp, rfl, hneeded, fun hne => absurd rfl hne⟩
          intro r hr
          simp only [List.getLast?_append, List.getLast?_singleton, Option.some_or,
            Option.mem_def, Option.some.injEq] at hr
          rw [← hr]
          exact hnotFree
        have hrec := ih hnext
        simp only [List.length_append, List.length_singleton, List.append_assoc, List.append_nil,
          List.singleton_append, List.length_nil, Nat.add_zero] at hrec
        simp only [List.append_assoc]
        rw [show left.length + free.length + 1 = left.length + (free.length + 1) by omega]
        exact hrec

end FreeRuns

end OsAgentLab
