/-
What creating and removing an entry does to the listing of a directory.
-/
import OsAgentLab.Fat32.EntrySpec

namespace OsAgentLab

section Pure

variable {place : Nat → Nat × Nat}

theorem RawDirent.isEnd_of_isEntry {raw : RawDirent} (h : raw.isEntry = true) :
    raw.isEnd = false := by
  simp only [RawDirent.isEntry, Bool.and_eq_true, Bool.not_eq_eq_eq_not, Bool.not_true] at h
  exact h.1.1.1

theorem NoEnd.append {left right : List RawDirent} (hl : NoEnd left) (hr : NoEnd right) :
    NoEnd (left ++ right) := by
  intro raw hraw
  rcases List.mem_append.mp hraw with hraw | hraw
  · exact hl raw hraw
  · exact hr raw hraw

theorem NoEnd.singleton {raw : RawDirent} (h : raw.isEnd = false) : NoEnd [raw] := by
  intro r hr
  rw [List.mem_singleton.mp hr]
  exact h

/-- Slot indices grow along a listing. -/
theorem hitsFrom_index {st : LfnState} {i : Nat} {raws : List RawDirent} :
    (∀ hit ∈ hitsFrom place st i raws, i ≤ hit.entryIndex ∧ hit.entryIndex < i + raws.length) ∧
      (hitsFrom place st i raws).Pairwise fun a b => a.entryIndex < b.entryIndex := by
  induction raws generalizing st i with
  | nil => exact ⟨by simp [hitsFrom], List.Pairwise.nil⟩
  | cons raw rest ih =>
      rw [hitsFrom]
      by_cases hend : raw.isEnd = true
      · rw [if_pos hend]
        exact ⟨by simp, List.Pairwise.nil⟩
      rw [if_neg hend]
      by_cases hentry : raw.isEntry = true
      · rw [if_pos hentry]
        obtain ⟨hrange, hpair⟩ := @ih st.drop (i + 1)
        constructor
        · intro hit hhit
          rcases List.mem_cons.mp hhit with rfl | hhit
          · exact ⟨Nat.le_refl i, by simp [hitAt]⟩
          · have := hrange hit hhit
            simp only [List.length_cons]
            omega
        · refine List.pairwise_cons.mpr ⟨fun hit hhit => ?_, hpair⟩
          have := (hrange hit hhit).1
          simp only [hitAt]
          omega
      · rw [if_neg hentry]
        obtain ⟨hrange, hpair⟩ := @ih (st.after raw) (i + 1)
        refine ⟨fun hit hhit => ?_, hpair⟩
        have := hrange hit hhit
        simp only [List.length_cons]
        omega

theorem hitsFrom_append_ends {st : LfnState} {i : Nat} {raws ends : List RawDirent}
    (h : ∀ raw ∈ ends, raw.isEnd = true) :
    hitsFrom place st i (raws ++ ends) = hitsFrom place st i raws := by
  induction raws generalizing st i with
  | nil => exact hitsFrom_ends h
  | cons raw rest ih => rw [List.cons_append, hitsFrom, hitsFrom, ih, ih]

theorem CleanTail.append_ends {raws ends : List RawDirent} (h : CleanTail raws)
    (hends : ∀ raw ∈ ends, raw.isEnd = true) : CleanTail (raws ++ ends) := by
  refine List.pairwise_append.mpr ⟨h, ?_, fun _ _ b hb _ => hends b hb⟩
  exact List.pairwise_of_forall_mem_list fun _ _ b hb _ => hends b hb

/-- Used slots may stand before anything. -/
theorem CleanTail.prepend {left right : List RawDirent} (hl : NoEnd left)
    (hr : CleanTail right) : CleanTail (left ++ right) := by
  refine List.pairwise_append.mpr ⟨?_, hr, fun a ha b _ hend => ?_⟩
  · refine List.pairwise_of_forall_mem_list fun a ha b _ hend => ?_
    rw [hl a ha] at hend
    cases hend
  · rw [hl a ha] at hend
    cases hend

theorem CleanTail.right {left right : List RawDirent} (h : CleanTail (left ++ right)) :
    CleanTail right := (List.pairwise_append.mp h).2.1

/-- A run of slots written over free ones adds one entry to the listing. -/
theorem hitsFrom_insert (place : Nat → Nat × Nat) {left free right run : List RawDirent} {raw : RawDirent}
    (hclean : CleanTail (left ++ free ++ right)) (hused : EndsUsed left)
    (hfree : ∀ raw ∈ free, raw.isFree = true) (hlen : free.length = run.length + 1)
    (hrun : ∀ raw ∈ run, raw.isLiveLfn = true) (hraw : raw.isEntry = true) :
    ∃ pre post, pre = hitsFrom place LfnState.init 0 left ∧
      post = hitsFrom place LfnState.init (left.length + free.length) right ∧
      hitsFrom place LfnState.init 0 (left ++ free ++ right) = pre ++ post ∧
      hitsFrom place LfnState.init 0 (left ++ (run ++ [raw]) ++ right) =
        pre ++ hitAt place (LfnState.init.afterAll (left ++ run)) (left ++ run).length raw ::
          post ∧
      CleanTail (left ++ (run ++ [raw]) ++ right) := by
  have hleft : NoEnd left := by
    rw [List.append_assoc] at hclean
    exact hclean.noEnd hused
  have hrunEnd : NoEnd run := fun r hr => (RawDirent.isLiveLfn_iff.mp (hrun r hr)).1
  have hnew : NoEnd (run ++ [raw]) := hrunEnd.append (.singleton (RawDirent.isEnd_of_isEntry hraw))
  have hclean' : CleanTail (free ++ right) := by
    rw [List.append_assoc] at hclean
    exact hclean.right
  refine ⟨_, _, rfl, rfl, ?_, ?_, ?_⟩
  · rw [List.append_assoc, hitsFrom_append hleft, hitsFrom_free hfree hclean' (by
      rintro rfl
      simp at hlen), Nat.zero_add]
  · have hinert : (LfnState.init.afterAll (left ++ (run ++ [raw]))).Inert := by
      rw [← List.append_assoc, LfnState.afterAll_concat, LfnState.after_entry _ hraw]
      exact LfnState.drop_inert _
    rw [hitsFrom_middle hleft hnew hinert, hitsFrom_append hrunEnd,
      hitsFrom_noEntry run (fun r hr => RawDirent.isEntry_of_isLfn
        (RawDirent.isLiveLfn_iff.mp (hrun r hr)).2.2),
      hitsFrom_singleton hraw, ← LfnState.afterAll_append]
    simp [hlen]
  · exact CleanTail.prepend (hleft.append hnew) hclean'.right

/-- Deleting the slots of an entry removes it from the listing. -/
theorem hitsFrom_remove (place : Nat → Nat × Nat) {left run right : List RawDirent} {raw : RawDirent}
    (hno : NoEnd (left ++ run)) (hrun : ∀ raw ∈ run, raw.isLfn = true)
    (hraw : raw.isEntry = true) (hclean : CleanTail (left ++ run ++ raw :: right)) :
    ∃ pre post, pre = hitsFrom place LfnState.init 0 left ∧
      post = hitsFrom place LfnState.init (left.length + run.length + 1) right ∧
      hitsFrom place LfnState.init 0 (left ++ run ++ raw :: right) =
        pre ++ hitAt place (LfnState.init.afterAll (left ++ run)) (left ++ run).length raw ::
          post ∧
      hitsFrom place LfnState.init 0
        (left ++ List.replicate (run.length + 1) deletedRaw ++ right) = pre ++ post ∧
      CleanTail (left ++ List.replicate (run.length + 1) deletedRaw ++ right) := by
  have hleft : NoEnd left := fun r hr => hno r (List.mem_append_left run hr)
  have hrunEnd : NoEnd run := fun r hr => hno r (List.mem_append_right left hr)
  have hmid : NoEnd (run ++ [raw]) :=
    hrunEnd.append (.singleton (RawDirent.isEnd_of_isEntry hraw))
  have hdeleted : ∀ r ∈ List.replicate (run.length + 1) deletedRaw, r = deletedRaw :=
    fun r hr => List.eq_of_mem_replicate hr
  have hdelEnd : NoEnd (List.replicate (run.length + 1) deletedRaw) := by
    intro r hr
    rw [hdeleted r hr]
    rfl
  refine ⟨_, _, rfl, rfl, ?_, ?_, ?_⟩
  · have hinert : (LfnState.init.afterAll (left ++ (run ++ [raw]))).Inert := by
      rw [← List.append_assoc, LfnState.afterAll_concat, LfnState.after_entry _ hraw]
      exact LfnState.drop_inert _
    rw [show left ++ run ++ raw :: right = left ++ (run ++ [raw]) ++ right by simp,
      hitsFrom_middle hleft hmid hinert, hitsFrom_append hrunEnd,
      hitsFrom_noEntry run (fun r hr => RawDirent.isEntry_of_isLfn (hrun r hr)),
      hitsFrom_singleton hraw, ← LfnState.afterAll_append]
    simp [Nat.add_assoc]
  · have hinert : (LfnState.init.afterAll
        (left ++ List.replicate (run.length + 1) deletedRaw)).Inert := by
      rw [List.replicate_succ', ← List.append_assoc, LfnState.afterAll_concat]
      exact LfnState.after_deleted _ rfl
    rw [hitsFrom_middle hleft hdelEnd hinert, hitsFrom_noEntry
      (List.replicate (run.length + 1) deletedRaw) (fun r hr => by
        rw [hdeleted r hr]
        rfl)]
    simp [Nat.add_assoc]
  · refine CleanTail.prepend (hleft.append hdelEnd) ?_
    have := hclean.right
    exact (List.pairwise_cons.mp this).2

end Pure

section Volume

variable {v v' v₁ v₂ : Vol} {c : Nat} {l ext : List Nat}

theorem Vol.listing_index_inj (v : Vol) (l : List Nat) {a b : DirHit} (ha : a ∈ v.listing l)
    (hb : b ∈ v.listing l) (h : a.entryIndex = b.entryIndex) : a = b := by
  have hpair : (v.listing l).Pairwise fun a b => a.entryIndex < b.entryIndex := hitsFrom_index.2
  by_contra hne
  have hlt := List.pairwise_iff_getElem.mp hpair
  obtain ⟨i, hi, rfl⟩ := List.getElem_of_mem ha
  obtain ⟨j, hj, rfl⟩ := List.getElem_of_mem hb
  rcases Nat.lt_trichotomy i j with hij | rfl | hij
  · have := hlt i j hi hj hij
    omega
  · exact hne rfl
  · have := hlt j i hj hi hij
    omega

/-- The slots of a directory that has grown. -/
theorem Grown.raws (h : Grown v l ext c v₁) (hl : v.Holds c l) :
    v₁.raws (l ++ ext) = v.raws l ++ v₁.raws ext ∧
      ∀ raw ∈ v₁.raws ext, raw.isEnd = true := by
  constructor
  · rw [Vol.raws_append, h.shape.raws fun x hx => h.store_data_of_not_mem fun hx' =>
      hl.not_free hx (h.free x hx')]
  · intro raw hraw
    obtain ⟨x, hx, hraw⟩ := List.mem_flatMap.mp hraw
    refine Vol.clusterRaws_zero ?_ raw hraw
    rw [h.data, if_pos hx]

/-- Growing a directory does not change what it lists. -/
theorem Grown.listing (h : Grown v l ext c v₁) (hl : v.Holds c l) :
    v₁.listing (l ++ ext) = v.listing l := by
  obtain ⟨hraws, hends⟩ := h.raws hl
  rw [Vol.listing, Vol.listing, hraws, hitsFrom_append_ends hends, h.shape.place]
  refine hitsFrom_congr fun j _ hj => ?_
  rw [Nat.zero_add] at hj
  exact v.place_append l ext hj

theorem Grown.cleanTail (h : Grown v l ext c v₁) (hl : v.Holds c l)
    (hclean : CleanTail (v.raws l)) : CleanTail (v₁.raws (l ++ ext)) := by
  obtain ⟨hraws, hends⟩ := h.raws hl
  rw [hraws]
  exact hclean.append_ends hends

variable {name : CName} {attr : UInt8} {short : List UInt8} {needsLfn : Bool}
  {left free right : List RawDirent} {own : List Nat} {added : AddedEntry}

/-- The entry that a successful create adds to the listing. -/
def EntryAdded.newHit (v : Vol) (l : List Nat) (name : CName) (attr : UInt8)
    (short : List UInt8) (needsLfn : Bool) (left : List RawDirent) (added : AddedEntry) :
    DirHit :=
  hitAt (v.place l)
    (LfnState.init.afterAll
      (left ++ lfnRun name (lfnCountOf name needsLfn) (fat32LfnChecksum short)))
    added.index (mkDirent short (entryAttr attr) added.cluster 0)

/-- A create inserts one entry into the listing. -/
theorem EntryAdded.listing (h : EntryAdded v c l ext name attr short needsLfn left free right
    own added v₁ v₂ v') (hl : v.Chain c l) (hclean : CleanTail (v.raws l))
    (hname : name.length ≤ 255) (hattr : CreateAttr attr) (hshort : ShortFieldOk short) :
    ∃ pre post, v.listing l = pre ++ post ∧
      v'.listing (l ++ ext) =
        pre ++ EntryAdded.newHit v' (l ++ ext) name attr short needsLfn left added :: post ∧
      CleanTail (v'.raws (l ++ ext)) := by
  have hgrown := h.grown
  have hclean₁ := hgrown.cleanTail (.of_chain hl) hclean
  rw [h.place.split] at hclean₁
  have hlen : free.length =
      (lfnRun name (lfnCountOf name needsLfn) (fat32LfnChecksum short)).length + 1 := by
    rw [h.place.len, lfnRun_length]
  have hshape : SameShape v₁ v' := h.prepared.shape.trans h.written.shape
  obtain ⟨pre, post, _, _, hold, hnew, hclean'⟩ := hitsFrom_insert (v'.place (l ++ ext))
    hclean₁ h.place.used h.place.allFree hlen
    (lfnRun_live (lfnCountOf_lt hname needsLfn) _)
    (mkDirent_isEntry hshort hattr added.cluster 0)
  refine ⟨pre, post, ?_, ?_, ?_⟩
  · rw [← hgrown.listing (.of_chain hl), Vol.listing, h.place.split, ← hold, hshape.place]
  · rw [Vol.listing, h.written.raws, entryRun, hnew, EntryAdded.newHit, List.length_append,
      lfnRun_length, h.index]
  · rw [h.written.raws]
    exact hclean'

/-- An unlink removes its entry from the listing. -/
theorem EntryRemoved.listing {m : List Nat} {hit : DirHit} {run : List RawDirent}
    (h : EntryRemoved v l m hit left run right v') (hclean : CleanTail (v.raws l)) :
    ∃ pre post, v.listing l = pre ++ hit :: post ∧ v'.listing l = pre ++ post ∧
      CleanTail (v'.raws l) := by
  have hclean' := hclean
  rw [h.split] at hclean'
  obtain ⟨pre, post, _, _, hold, hnew, htail⟩ := hitsFrom_remove (v.place l)
    h.noEnd h.runLfn h.isEntry hclean'
  refine ⟨pre, post, ?_, ?_, ?_⟩
  · rw [Vol.listing, h.split, hold, ← h.hit]
  · rw [Vol.listing, h.raws, h.shape.place, hnew]
  · rw [h.raws]
    exact htail

end Volume

end OsAgentLab
