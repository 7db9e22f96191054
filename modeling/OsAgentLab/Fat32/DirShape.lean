/-
Directories in order: every run of long-name slots stands directly before its
short entry and carries its checksum, and end marks are followed by end marks.
-/
import OsAgentLab.Fat32.ListingSpec

namespace OsAgentLab

/-- A slot in use that is not a long-name slot. -/
def RawDirent.isShort (raw : RawDirent) : Bool :=
  !raw.isEnd && !raw.isDeleted && !raw.isLfn

/-- Long-name slots in use with the checksum of the short entry `raw`. -/
def RunFor (run : List RawDirent) (raw : RawDirent) : Prop :=
  ∀ slot ∈ run, slot.isLiveLfn = true ∧ slot.checksum = fat32LfnChecksum raw.name

/-- The ordinals of a run count down to one, the first one marked. -/
def DescendingOrds (run : List RawDirent) : Prop :=
  run.length < 64 ∧ run.map RawDirent.ord = (List.range run.length).map (lfnOrd run.length)

/-- Slots before the first end mark: deleted slots, and short entries with
the runs before them, for which `ords` holds. -/
inductive Items (ords : List RawDirent → Prop) : List RawDirent → Prop
  | nil : Items ords []
  | deleted {raw : RawDirent} {rest : List RawDirent} :
      raw.isDeleted = true → Items ords rest → Items ords (raw :: rest)
  | entry {run : List RawDirent} {raw : RawDirent} {rest : List RawDirent} :
      RunFor run raw → ords run → raw.isShort = true → Items ords rest →
      Items ords (run ++ raw :: rest)

/-- The slots of a directory in order. -/
def DirShape (ords : List RawDirent → Prop) (raws : List RawDirent) : Prop :=
  ∃ items ends, raws = items ++ ends ∧ Items ords items ∧ ∀ raw ∈ ends, raw.isEnd = true

variable {ords : List RawDirent → Prop}

theorem RawDirent.isShort_iff {raw : RawDirent} : raw.isShort = true ↔
    raw.isEnd = false ∧ raw.isDeleted = false ∧ raw.isLfn = false := by
  simp [RawDirent.isShort, and_assoc]

theorem RawDirent.isShort_of_isEntry {raw : RawDirent} (h : raw.isEntry = true) :
    raw.isShort = true := by
  simp only [RawDirent.isEntry, Bool.and_eq_true] at h
  simp only [RawDirent.isShort, Bool.and_eq_true]
  exact h.1

theorem RawDirent.isFree_of_isShort {raw : RawDirent} (h : raw.isShort = true) :
    raw.isFree = false := by
  obtain ⟨hend, hdel, _⟩ := RawDirent.isShort_iff.mp h
  simp [RawDirent.isFree, hend, hdel]

theorem RawDirent.isFree_of_isLiveLfn {raw : RawDirent} (h : raw.isLiveLfn = true) :
    raw.isFree = false := by
  obtain ⟨hend, hdel, _⟩ := RawDirent.isLiveLfn_iff.mp h
  simp [RawDirent.isFree, hend, hdel]

theorem RawDirent.isEnd_of_isDeleted {raw : RawDirent} (h : raw.isDeleted = true) :
    raw.isEnd = false := by
  simp only [RawDirent.isDeleted, beq_iff_eq] at h
  simp [RawDirent.isEnd, h]

namespace Items

theorem append {left right : List RawDirent} (hl : Items ords left) (hr : Items ords right) :
    Items ords (left ++ right) := by
  induction hl with
  | nil => exact hr
  | deleted hdel _ ih => exact .deleted hdel ih
  | entry hrun hords hshort _ ih =>
      rw [List.append_assoc, List.cons_append]
      exact .entry hrun hords hshort ih

theorem single {run : List RawDirent} {raw : RawDirent} (hrun : RunFor run raw)
    (hords : ords run) (hshort : raw.isShort = true) : Items ords (run ++ [raw]) :=
  .entry hrun hords hshort .nil

theorem replicate_deleted (n : Nat) : Items ords (List.replicate n deletedRaw) := by
  induction n with
  | zero => exact .nil
  | succ n ih => exact .deleted rfl ih

theorem noEnd {items : List RawDirent} (h : Items ords items) : NoEnd items := by
  induction h with
  | nil => simp [NoEnd]
  | deleted hdel _ ih =>
      intro raw hraw
      rcases List.mem_cons.mp hraw with rfl | hraw
      · exact RawDirent.isEnd_of_isDeleted hdel
      · exact ih raw hraw
  | entry hrun _ hshort _ ih =>
      intro raw hraw
      rcases List.mem_append.mp hraw with hraw | hraw
      · exact (RawDirent.isLiveLfn_iff.mp (hrun raw hraw).1).1
      · rcases List.mem_cons.mp hraw with rfl | hraw
        · exact (RawDirent.isShort_iff.mp hshort).1
        · exact ih raw hraw

/-- Between the items no long name is being collected. -/
theorem inert {items : List RawDirent} (h : Items ords items) {st : LfnState} (hst : st.Inert) :
    (st.afterAll items).Inert := by
  induction h generalizing st with
  | nil => exact hst
  | deleted hdel _ ih => exact ih (st.after_deleted hdel)
  | @entry run raw rest _ _ hshort _ ih =>
      rw [LfnState.afterAll_append, LfnState.afterAll_cons]
      exact ih (LfnState.after_inert _ (RawDirent.isShort_iff.mp hshort).2.2)

/-- A free slot lies between two items. -/
theorem split {left right : List RawDirent} {raw : RawDirent}
    (h : Items ords (left ++ raw :: right)) (hfree : raw.isFree = true) :
    Items ords left ∧ Items ords (raw :: right) := by
  generalize hall : left ++ raw :: right = all at h
  induction h generalizing left with
  | nil => simp at hall
  | @deleted head rest hdel hrest ih =>
      cases left with
      | nil =>
          obtain ⟨rfl, rfl⟩ := List.cons.inj hall
          exact ⟨.nil, .deleted hdel hrest⟩
      | cons first left =>
          obtain ⟨rfl, htail⟩ := List.cons.inj hall
          obtain ⟨hl, hr⟩ := ih htail
          exact ⟨.deleted hdel hl, hr⟩
  | @entry run short rest hrun hords hshort hrest ih =>
      rw [← List.singleton_append (x := short), ← List.append_assoc] at hall
      have hused : ∀ slot ∈ run ++ [short], slot.isFree = false := by
        intro slot hslot
        rcases List.mem_append.mp hslot with hslot | hslot
        · exact RawDirent.isFree_of_isLiveLfn (hrun slot hslot).1
        · rw [List.mem_singleton.mp hslot]
          exact RawDirent.isFree_of_isShort hshort
      rcases List.append_eq_append_iff.mp hall with ⟨mid, hmid, htail⟩ | ⟨mid, hmid, htail⟩
      · cases mid with
        | nil =>
            rw [List.append_nil] at hmid
            rw [List.nil_append] at htail
            subst htail
            exact ⟨hmid ▸ single hrun hords hshort, hrest⟩
        | cons slot mid =>
            obtain ⟨rfl, _⟩ := List.cons.inj htail
            have := hused raw (by rw [hmid]; simp)
            rw [hfree] at this
            cases this
      · obtain ⟨hl, hr⟩ := ih htail.symm
        refine ⟨?_, hr⟩
        rw [hmid, List.append_assoc, List.singleton_append]
        exact .entry hrun hords hshort hl

theorem tail_of_free {raw : RawDirent} {rest : List RawDirent} (h : Items ords (raw :: rest))
    (hfree : raw.isFree = true) : Items ords rest := by
  generalize hall : raw :: rest = all at h
  cases h with
  | nil => cases hall
  | deleted _ hrest =>
      obtain ⟨_, rfl⟩ := List.cons.inj hall
      exact hrest
  | @entry run short rest' hrun _ hshort _ =>
      cases run with
      | nil =>
          obtain ⟨rfl, _⟩ := List.cons.inj hall
          rw [RawDirent.isFree_of_isShort hshort] at hfree
          cases hfree
      | cons first run =>
          obtain ⟨rfl, _⟩ := List.cons.inj hall
          rw [RawDirent.isFree_of_isLiveLfn (hrun raw List.mem_cons_self).1] at hfree
          cases hfree

/-- A short entry closes the item it belongs to. -/
theorem split_entry {left right : List RawDirent} {raw : RawDirent}
    (h : Items ords (left ++ raw :: right)) (hshort : raw.isShort = true) :
    ∃ before run, left = before ++ run ∧ Items ords before ∧ RunFor run raw ∧ ords run ∧
      Items ords right := by
  generalize hall : left ++ raw :: right = all at h
  induction h generalizing left with
  | nil => simp at hall
  | @deleted head rest hdel hrest ih =>
      cases left with
      | nil =>
          obtain ⟨rfl, rfl⟩ := List.cons.inj hall
          rw [(RawDirent.isShort_iff.mp hshort).2.1] at hdel
          cases hdel
      | cons first left =>
          obtain ⟨rfl, htail⟩ := List.cons.inj hall
          obtain ⟨before, run, rfl, hbefore, hrest⟩ := ih htail
          exact ⟨first :: before, run, rfl, .deleted hdel hbefore, hrest⟩
  | @entry run short rest hrun hords hshort' hrest ih =>
      have hnot : raw ∉ run := by
        intro hmem
        have hlfn := (RawDirent.isLiveLfn_iff.mp (hrun raw hmem).1).2.2
        rw [(RawDirent.isShort_iff.mp hshort).2.2] at hlfn
        cases hlfn
      rcases List.append_eq_append_iff.mp hall with ⟨mid, hmid, htail⟩ | ⟨mid, hmid, htail⟩
      · cases mid with
        | nil =>
            rw [List.append_nil] at hmid
            obtain ⟨rfl, rfl⟩ := List.cons.inj htail
            subst hmid
            exact ⟨[], run, rfl, .nil, hrun, hords, hrest⟩
        | cons slot mid =>
            obtain ⟨rfl, _⟩ := List.cons.inj htail
            exact absurd (by rw [hmid]; simp) hnot
      · cases mid with
        | nil =>
            rw [List.append_nil] at hmid
            obtain ⟨rfl, rfl⟩ := List.cons.inj htail
            subst hmid
            exact ⟨[], left, rfl, .nil, hrun, hords, hrest⟩
        | cons slot mid =>
            obtain ⟨rfl, hrest'⟩ := List.cons.inj htail
            obtain ⟨before, run', rfl, hbefore, hothers⟩ := ih hrest'.symm
            refine ⟨run ++ short :: before, run', ?_, .entry hrun hords hshort' hbefore, hothers⟩
            rw [hmid]
            simp

end Items

namespace DirShape

theorem ends {raws : List RawDirent} (h : ∀ raw ∈ raws, raw.isEnd = true) :
    DirShape ords raws := ⟨[], raws, rfl, .nil, h⟩

theorem prepend {items raws : List RawDirent} (hi : Items ords items) (h : DirShape ords raws) :
    DirShape ords (items ++ raws) := by
  obtain ⟨more, ends, rfl, hmore, hends⟩ := h
  exact ⟨items ++ more, ends, by rw [List.append_assoc], hi.append hmore, hends⟩

theorem append_ends {raws more : List RawDirent} (h : DirShape ords raws)
    (hmore : ∀ raw ∈ more, raw.isEnd = true) : DirShape ords (raws ++ more) := by
  obtain ⟨items, ends, rfl, hitems, hends⟩ := h
  refine ⟨items, ends ++ more, by rw [List.append_assoc], hitems, fun raw hraw => ?_⟩
  rcases List.mem_append.mp hraw with hraw | hraw
  · exact hends raw hraw
  · exact hmore raw hraw

theorem cleanTail {raws : List RawDirent} (h : DirShape ords raws) : CleanTail raws := by
  obtain ⟨items, ends, rfl, hitems, hends⟩ := h
  refine CleanTail.prepend hitems.noEnd ?_
  exact List.pairwise_of_forall_mem_list fun _ _ b hb _ => hends b hb

theorem tail_of_free {raw : RawDirent} {rest : List RawDirent}
    (h : DirShape ords (raw :: rest)) (hfree : raw.isFree = true) : DirShape ords rest := by
  obtain ⟨items, ends, hall, hitems, hends⟩ := h
  cases items with
  | nil =>
      rw [List.nil_append] at hall
      exact .ends fun r hr => hends r (hall ▸ List.mem_cons_of_mem raw hr)
  | cons first items =>
      obtain ⟨rfl, rfl⟩ := List.cons.inj hall
      exact ⟨items, ends, rfl, hitems.tail_of_free hfree, hends⟩

theorem drop_free {free rest : List RawDirent} (h : DirShape ords (free ++ rest))
    (hfree : ∀ raw ∈ free, raw.isFree = true) : DirShape ords rest := by
  induction free with
  | nil => exact h
  | cons raw free ih =>
      exact ih (h.tail_of_free (hfree raw List.mem_cons_self)) fun r hr =>
        hfree r (List.mem_cons_of_mem raw hr)

/-- Used slots before a free one are items. -/
theorem split {left free right : List RawDirent} (h : DirShape ords (left ++ free ++ right))
    (hused : EndsUsed left) (hfree : ∀ raw ∈ free, raw.isFree = true) (hne : free ≠ []) :
    Items ords left ∧ DirShape ords right := by
  obtain ⟨first, free, rfl⟩ := List.exists_cons_of_ne_nil hne
  have hfirst := hfree first List.mem_cons_self
  obtain ⟨items, ends, hall, hitems, hends⟩ := h
  have hleft : NoEnd left := by
    have hclean : CleanTail (left ++ (first :: free ++ right)) := by
      rw [← List.append_assoc, hall]
      exact DirShape.cleanTail ⟨items, ends, rfl, hitems, hends⟩
    exact hclean.noEnd hused
  rw [List.append_assoc] at hall
  rcases List.append_eq_append_iff.mp hall with ⟨mid, rfl, htail⟩ | ⟨mid, rfl, htail⟩
  · cases mid with
    | nil =>
        rw [List.append_nil] at hitems
        rw [List.nil_append] at htail
        refine ⟨hitems, .ends fun raw hraw => hends raw ?_⟩
        rw [← htail]
        exact List.mem_append_right _ hraw
    | cons slot mid =>
        obtain ⟨rfl, htail⟩ := List.cons.inj htail
        obtain ⟨hl, hr⟩ := hitems.split hfirst
        have htail' : DirShape ords (first :: free ++ right) :=
          ⟨first :: mid, ends, by simpa using htail, hr, hends⟩
        exact ⟨hl, htail'.drop_free hfree⟩
  · cases mid with
    | nil =>
        rw [List.append_nil]
        rw [List.nil_append] at htail
        refine ⟨hitems, .ends fun raw hraw => hends raw ?_⟩
        rw [htail]
        exact List.mem_append_right _ hraw
    | cons slot mid =>
        have hend := hleft slot (List.mem_append_right _ List.mem_cons_self)
        have hslot : slot ∈ ends := by
          rw [htail]
          exact List.mem_append_left _ List.mem_cons_self
        rw [hends slot hslot] at hend
        cases hend

/-- The slots of an entry close an item. -/
theorem split_entry {left right : List RawDirent} {raw : RawDirent}
    (h : DirShape ords (left ++ raw :: right)) (hleft : NoEnd left)
    (hshort : raw.isShort = true) :
    ∃ before run, left = before ++ run ∧ Items ords before ∧ RunFor run raw ∧ ords run ∧
      DirShape ords right := by
  obtain ⟨items, ends, hall, hitems, hends⟩ := h
  have hraw : raw.isEnd = false := (RawDirent.isShort_iff.mp hshort).1
  rcases List.append_eq_append_iff.mp hall with ⟨mid, rfl, htail⟩ | ⟨mid, rfl, htail⟩
  · cases mid with
    | nil =>
        rw [List.nil_append] at htail
        have := hends raw (htail ▸ List.mem_cons_self)
        rw [hraw] at this
        cases this
    | cons slot mid =>
        obtain ⟨rfl, rfl⟩ := List.cons.inj htail
        obtain ⟨before, run, hsplit, hbefore, hrun, hords, hright⟩ := hitems.split_entry hshort
        exact ⟨before, run, hsplit, hbefore, hrun, hords, mid, ends, rfl, hright, hends⟩
  · cases mid with
    | nil =>
        rw [List.nil_append] at htail
        have := hends raw (htail ▸ List.mem_cons_self)
        rw [hraw] at this
        cases this
    | cons slot mid =>
        have hend := hleft slot (List.mem_append_right _ List.mem_cons_self)
        have hslot : slot ∈ ends := by
          rw [htail]
          exact List.mem_append_left _ List.mem_cons_self
        rw [hends slot hslot] at hend
        cases hend

end DirShape

section Create

variable {v v' v₁ v₂ : Vol} {c : Nat} {l ext : List Nat} {name : CName} {attr : UInt8}
  {short : List UInt8} {needsLfn : Bool} {left free right : List RawDirent} {own : List Nat}
  {added : AddedEntry}

/-- The slots before the place of a new entry are items. -/
theorem EntryAdded.items (h : EntryAdded v c l ext name attr short needsLfn left free right
    own added v₁ v₂ v') (hl : v.Chain c l) (hshape : DirShape ords (v.raws l)) :
    Items ords left ∧ DirShape ords right := by
  obtain ⟨hraws, hends⟩ := h.grown.raws (.of_chain hl)
  refine DirShape.split ?_ h.place.used h.place.allFree ?_
  · rw [← h.place.split, hraws]
    exact hshape.append_ends hends
  · intro hnil
    have := h.place.len
    rw [hnil] at this
    simp at this

theorem lfnRun_checksum (name : CName) (count : Nat) (checksum : UInt8) :
    ∀ raw ∈ lfnRun name count checksum, raw.checksum = checksum := by
  intro raw hraw
  simp only [lfnRun, List.mem_map] at hraw
  obtain ⟨i, _, rfl⟩ := hraw
  simp [RawDirent.checksum, fat32FillLfnEntry]

theorem lfnRun_descending (name : CName) {count : Nat} (hcount : count < 21)
    (checksum : UInt8) : DescendingOrds (lfnRun name count checksum) := by
  rw [DescendingOrds, lfnRun_length]
  refine ⟨by omega, ?_⟩
  rw [lfnRun, List.map_map]
  exact List.map_congr_left fun i _ => fill_ord _ _ _

/-- A create keeps the directory in order. -/
theorem EntryAdded.dirShape (h : EntryAdded v c l ext name attr short needsLfn left free right
    own added v₁ v₂ v') (hl : v.Chain c l) (hshape : DirShape ords (v.raws l))
    (hname : name.length ≤ 255) (hattr : CreateAttr attr) (hshort : ShortFieldOk short)
    (hords : ords (lfnRun name (lfnCountOf name needsLfn) (fat32LfnChecksum short))) :
    DirShape ords (v'.raws (l ++ ext)) := by
  obtain ⟨hitems, hright⟩ := h.items hl hshape
  rw [h.written.raws]
  refine DirShape.prepend (hitems.append (.single (fun slot hslot => ⟨?_, ?_⟩) hords ?_)) hright
  · exact lfnRun_live (lfnCountOf_lt hname needsLfn) _ slot hslot
  · rw [mkDirent_name hshort.length]
    exact lfnRun_checksum _ _ _ slot hslot
  · exact RawDirent.isShort_of_isEntry (mkDirent_isEntry hshort hattr _ _)

end Create

end OsAgentLab
