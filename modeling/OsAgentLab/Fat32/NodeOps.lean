/-
The directory operations of the kernel over a volume whose directory is known:
lookup, create and unlink in terms of its listing.
-/
import OsAgentLab.Fat32.ListingSpec

namespace OsAgentLab

section Names

theorem nameEqNocase_iff {a b : CName} :
    nameEqNocase a b = true ↔ a.map lowerChar = b.map lowerChar := by
  induction a generalizing b with
  | nil => cases b <;> simp [nameEqNocase]
  | cons x a ih =>
      cases b with
      | nil => simp [nameEqNocase]
      | cons y b =>
          by_cases hxy : lowerChar x = lowerChar y
          · simp [nameEqNocase, hxy, ih]
          · simp [nameEqNocase, hxy]

theorem nameEqNocase_refl (a : CName) : nameEqNocase a a = true := nameEqNocase_iff.mpr rfl

theorem nameEqNocase_symm {a b : CName} (h : nameEqNocase a b = true) :
    nameEqNocase b a = true := nameEqNocase_iff.mpr (nameEqNocase_iff.mp h).symm

theorem nameEqNocase_trans {a b d : CName} (h : nameEqNocase a b = true)
    (h' : nameEqNocase b d = true) : nameEqNocase a d = true :=
  nameEqNocase_iff.mpr ((nameEqNocase_iff.mp h).trans (nameEqNocase_iff.mp h'))

theorem nameEqNocase_congr_right {a b d : CName} (h : nameEqNocase b d = true) :
    nameEqNocase a b = nameEqNocase a d := by
  rw [Bool.eq_iff_iff]
  exact ⟨fun hab => nameEqNocase_trans hab h,
    fun had => nameEqNocase_trans had (nameEqNocase_symm h)⟩

end Names

namespace Kernel

/-- The kernel with another volume. -/
def withVol (k : Kernel) (v : Vol) : Kernel := { k with vol := v }

@[simp] theorem withVol_vol (k : Kernel) (v : Vol) : (k.withVol v).vol = v := rfl

@[simp] theorem withVol_self (k : Kernel) : k.withVol k.vol = k := rfl

/-- The entry that a name finds in the directory with the clusters `l`. -/
def find (k : Kernel) (l : List Nat) (name : CName) : Option DirHit :=
  (k.vol.listing l).find? fun hit => nameEqNocase hit.name name

end Kernel

variable {k : Kernel} {dir c : Nat} {l : List Nat}

theorem onVol_apply {α : Type} {m : Fs α} {r : Outcome Errno α} {v' : Vol}
    (h : m k.vol = (r, v')) : onVol m k = (r, k.withVol v') :=
  Prog.zoom_apply h

section Open

/-- `fat32_alloc_node` and `fat32_wrap_node` for an entry, in three outcomes. -/
theorem fat32OpenHit_cases (dir dirCluster : Nat) (hit : DirHit) (name : CName) (k : Kernel) :
    (k.fatNodes.firstFree fat32NodePoolSize = none ∧
        fat32OpenHit dir dirCluster hit name k = (.err .nomem, k)) ∨
      ∃ n, k.fatNodes.firstFree fat32NodePoolSize = some n ∧
        ((k.vnodes.firstFree vnodePoolSize = none ∧
            fat32OpenHit dir dirCluster hit name k =
              (.err .nomem, { k with fatNodes := k.fatNodes.take n (hit.toNode dirCluster) })) ∨
          ∃ i, k.vnodes.firstFree vnodePoolSize = some i ∧
            fat32OpenHit dir dirCluster hit name k =
              (.ok i, { k with
                fatNodes := k.fatNodes.take n (hit.toNode dirCluster)
                vnodes := k.vnodes.take i
                  { type := if hit.raw.isDir then .dir else .file
                    ops := some .fat32, data := n, parent := some dir, name := name } })) := by
  rw [fat32OpenHit, fat32AllocNode]
  cases hn : k.fatNodes.firstFree fat32NodePoolSize with
  | none => exact Or.inl ⟨rfl, rfl⟩
  | some n =>
      refine Or.inr ⟨n, rfl, ?_⟩
      simp only [fat32WrapNode, vfsAllocVnode]
      cases hi : k.vnodes.firstFree vnodePoolSize with
      | none => exact Or.inl ⟨rfl, rfl⟩
      | some i =>
          refine Or.inr ⟨i, rfl, ?_⟩
          simp [DirHit.toNode, RawDirent.isDir]

end Open

section Lookup

theorem runHits_lookup (name : CName) (dir dirCluster : Nat) (hits : List DirHit) (k : Kernel) :
    runHits (fat32LookupCb name dir dirCluster) hits (k, none) =
      match hits.find? fun hit => nameEqNocase hit.name name with
      | none => (.goOn, (k, none))
      | some hit =>
          match fat32OpenHit dir dirCluster hit hit.name k with
          | (.ok vn, k') => (.stop, (k', some vn))
          | (_, k') => (.fail .nomem, (k', none)) := by
  induction hits with
  | nil => rfl
  | cons hit rest ih =>
      rw [runHits, fat32LookupCb, List.find?_cons]
      by_cases h : nameEqNocase hit.name name = true
      · simp only [h, Bool.not_true, Bool.false_eq_true, ↓reduceIte]
        rcases fat32OpenHit dir dirCluster hit hit.name k with ⟨r, k'⟩
        cases r <;> rfl
      · simp only [h, Bool.not_false, ↓reduceIte]
        exact ih

/-- `fat32_lookup_op` opens the first entry whose name matches. -/
theorem fat32LookupOp_eq (g : Geometry k.vol) (hdir : (k.fatNode dir).cluster = c)
    (h : k.vol.Chain c l) (name : CName) :
    fat32LookupOp dir name k =
      match k.find l name with
      | none => (.err .noent, k)
      | some hit => fat32OpenHit dir c hit hit.name k := by
  rw [fat32LookupOp]
  simp only [hdir]
  rw [fat32IterDir_eq g h, runHits_lookup, Kernel.find]
  cases hfind : (k.vol.listing l).find? fun hit => nameEqNocase hit.name name with
  | none => rfl
  | some hit =>
      simp only
      rcases fat32OpenHit_cases dir c hit hit.name k with ⟨_, hrun⟩ |
        ⟨n, _, ⟨_, hrun⟩ | ⟨i, _, hrun⟩⟩ <;> rw [hrun]

end Lookup

section Create

/-- The node of a new entry. -/
def AddedEntry.toNode (added : AddedEntry) (dirCluster : Nat) (place : Nat × Nat) :
    Fat32Node where
  cluster := added.cluster
  size := 0
  attr := added.attr
  dirCluster := dirCluster
  direntLba := place.1
  direntOff := place.2
  direntIndex := added.index
  direntCount := added.count

/-- The vnode and node allocations at the end of `fat32_create_entry`. -/
def openAdded (dir dirCluster : Nat) (name : CName) (added : AddedEntry) (place : Nat × Nat)
    (out : Bool) (k : Kernel) : Outcome Errno (Option Nat) × Kernel :=
  match k.fatNodes.firstFree fat32NodePoolSize with
  | none => (.err .nomem, k)
  | some n =>
      let k := { k with fatNodes := k.fatNodes.take n (added.toNode dirCluster place) }
      if out then
        match k.vnodes.firstFree vnodePoolSize with
        | none => (.err .nomem, k)
        | some i =>
            let vnode : Vnode :=
              { type := if added.attr &&& 0x10 ≠ 0 then .dir else .file
                ops := some .fat32, data := n, parent := some dir, name := name }
            (.ok (some i), { k with vnodes := k.vnodes.take i vnode })
      else (.ok none, k)

theorem openAdded_vol (dir dirCluster : Nat) (name : CName) (added : AddedEntry)
    (place : Nat × Nat) (out : Bool) (k : Kernel) :
    (openAdded dir dirCluster name added place out k).2.vol = k.vol := by
  rw [openAdded]
  split
  · rfl
  · split
    · simp only
      split <;> rfl
    · rfl

theorem Pool.take_setSlot {α : Type} (p : Pool α) (i : Nat) (a b : α) :
    (p.take i a).setSlot i b = p.take i b := by
  simp only [Pool.take, Pool.setSlot, Pool.mk.injEq, true_and]
  funext j
  by_cases h : j = i <;> simp [h]

/-- Where a full volume stops `fat32_create_entry`: no numeric tail is left, the
directory cannot grow, or the new directory finds no cluster.  `ext` are the
clusters by which the directory has grown until then. -/
inductive AddStops (v : Vol) (c : Nat) (l : List Nat) (name : CName) (attr : UInt8)
    (ext : List Nat) (v' : Vol) : Prop
  | noName : fat32MakeShortName c name v = (.err .nospc, v) → ext = [] →
      AddStops v c l name attr ext v'
  | noRoom {short : List UInt8} {needsLfn : Bool} :
      fat32MakeShortName c name v = (.ok (short, needsLfn), v) →
      GrowthShort v l (lfnCountOf name needsLfn + 1) ext → (∀ x, ¬ v'.Free x) →
      AddStops v c l name attr ext v'
  | noCluster {short : List UInt8} {needsLfn : Bool} :
      fat32MakeShortName c name v = (.ok (short, needsLfn), v) →
      GrowthFor v l (lfnCountOf name needsLfn + 1) ext → attr &&& 0x10 ≠ 0 →
      (∀ x, ¬ v'.Free x) → AddStops v c l name attr ext v'

/-- The rest of `fat32_create_entry` behind the new entry. -/
def finishEntry (dir dirCluster : Nat) (name : CName) (out : Bool) (added : AddedEntry) :
    Kern (Option Nat) := do
  let k ← Prog.get
  match fat32AllocNode
      { cluster := added.cluster, size := 0, attr := added.attr
        dirCluster := dirCluster, direntLba := 0, direntOff := 0
        direntIndex := added.index, direntCount := added.count } k with
  | none => Prog.fail .nomem
  | some (n, k) => do
      Prog.modify fun _ => k
      let (lba, off) ← Prog.orElse (onVol (fat32DirEntryLocation dirCluster added.index)) .io
      Prog.modify fun k =>
        k.setFatNode n { k.fatNodes.slot n with direntLba := lba, direntOff := off }
      if out then do
        let k ← Prog.get
        match fat32WrapNode n dir name k with
        | none => Prog.fail .nomem
        | some (vn, k) => do
            Prog.modify fun _ => k
            pure (some vn)
      else pure none

/-- `fat32_create_entry` on a name that the directory does not have. -/
theorem fat32CreateEntry_absent (g : Geometry k.vol) (hdir : (k.fatNode dir).cluster = c)
    (h : k.vol.Chain c l) {name : CName} (hname : NameOk name)
    (hfind : k.find l name = none) (attr : UInt8) (out : Bool) :
    (∃ ext v', Grown k.vol l ext c v' ∧ AddStops k.vol c l name attr ext v' ∧
        fat32CreateEntry dir name attr out k = (.err .nospc, k.withVol v')) ∨
      ∃ short needsLfn ext left free right own added v₁ v₂ v',
        fat32MakeShortName c name k.vol = (.ok (short, needsLfn), k.vol) ∧
        ShortChoice k.vol l name short needsLfn ∧
        GrowthFor k.vol l (lfnCountOf name needsLfn + 1) ext ∧
        fat32AddEntry c name attr k.vol = (.ok added, v') ∧
        EntryAdded k.vol c l ext name attr short needsLfn left free right own added v₁ v₂ v' ∧
        fat32CreateEntry dir name attr out k =
          openAdded dir c name added (v'.place (l ++ ext) added.index) out (k.withVol v') := by
  obtain ⟨_, _, hlen, _⟩ := hname.unfold
  have hnoent : Prog.attempt (onVol (fat32FindEntry c name)) k =
      (.ok (.error .noent), k) := by
    refine Prog.attempt_err (onVol_apply ?_)
    rw [fat32FindEntry_eq g h]
    rw [Kernel.find] at hfind
    rw [hfind]
  -- the call up to the existence check
  have hcall : ∀ {added : AddedEntry} {v' : Vol},
      fat32AddEntry c name attr k.vol = (.ok added, v') →
      fat32CreateEntry dir name attr out k = finishEntry dir c name out added (k.withVol v') := by
    intro added v' hadd
    rw [fat32CreateEntry, Prog.get_bind]
    simp only [hdir, show fat32ValidateName name = .ok () from hname]
    rw [Prog.bind_ok hnoent]
    simp only [bind, onVol_apply hadd]
    rfl
  have hcallErr : ∀ {e : Errno} {v' : Vol}, fat32AddEntry c name attr k.vol = (.err e, v') →
      fat32CreateEntry dir name attr out k = (.err e, k.withVol v') := by
    intro e v' hadd
    rw [fat32CreateEntry, Prog.get_bind]
    simp only [hdir, show fat32ValidateName name = .ok () from hname]
    rw [Prog.bind_ok hnoent]
    simp only [bind, onVol_apply hadd]
  rcases fat32MakeShortName_spec g h name with ⟨hshort, _⟩ | ⟨short, needsLfn, hshort, hchoice⟩
  · have hadd : fat32AddEntry c name attr k.vol = (.err .nospc, k.vol) := by
      rw [fat32AddEntry]
      exact Prog.bind_err hshort _
    exact Or.inl ⟨[], _, Grown.refl (.of_chain h), .noName hshort rfl, hcallErr hadd⟩
  have hstep : fat32AddEntry c name attr k.vol =
      fat32PlaceEntry c name attr short (lfnCountOf name needsLfn) k.vol := by
    rw [fat32AddEntry, Prog.bind_ok hshort]
  obtain ⟨ext, v₁, hgrown, hcases⟩ := fat32PlaceEntry_spec g h name attr short needsLfn
  rw [← hstep] at hcases
  rcases hcases with ⟨hgrowth, hfull, hadd⟩ | ⟨hgrowth, ⟨hdirAttr, hfull, hadd⟩ | hok⟩
  · exact Or.inl ⟨ext, v₁, hgrown, .noRoom hshort hgrowth hfull, hcallErr hadd⟩
  · exact Or.inl ⟨ext, v₁, hgrown, .noCluster hshort hgrowth hdirAttr hfull, hcallErr hadd⟩
  obtain ⟨left, free, right, own, added, v₂, v', hadd, hspec⟩ := hok
  refine Or.inr ⟨short, needsLfn, ext, left, free, right, own, added, v₁, v₂, v', hshort,
    hchoice, hgrowth, hadd, hspec, ?_⟩
  rw [hcall hadd]
  have hshape : SameShape k.vol v' :=
    hgrown.shape.trans (hspec.prepared.shape.trans hspec.written.shape)
  have hchain' : v'.Chain c (l ++ ext) := hspec.written.chain
    (hspec.prepared.chain_frame (hgrown.holds.chain_of_ne_zero (IsChain.head_node h).ne_zero))
  have hloc := fat32DirEntryLocation_eq (hshape.geometry g) hchain' (i := added.index) (by
    rw [hspec.written.raws, hspec.index]
    simp only [List.length_append, entryRun_length]
    omega)
  simp only [finishEntry, Prog.get_bind, openAdded, fat32AllocNode, Kernel.withVol]
  cases hn : k.fatNodes.firstFree fat32NodePoolSize with
  | none => rfl
  | some n =>
      simp only
      rw [Prog.modify_bind]
      rw [Prog.bind_ok (Prog.orElse_ok (@onVol_apply _ _ _ _ v' hloc) _)]
      rw [Prog.modify_bind]
      simp only [Kernel.setFatNode, Kernel.withVol, Pool.take_setSlot, Pool.take_slot,
        ↓reduceIte]
      cases out with
      | false => rfl
      | true =>
          simp only [↓reduceIte, Prog.get_bind, fat32WrapNode, vfsAllocVnode]
          cases hi : k.vnodes.firstFree vnodePoolSize with
          | none => rfl
          | some i =>
              simp only [Pool.take_slot, ↓reduceIte]
              rfl

/-- `fat32_create_entry` on a name that the directory has. -/
theorem fat32CreateEntry_present (g : Geometry k.vol) (hdir : (k.fatNode dir).cluster = c)
    (h : k.vol.Chain c l) {name : CName} (hname : NameOk name) {found : DirHit}
    (hfind : k.find l name = some found) (attr : UInt8) (out : Bool) :
    fat32CreateEntry dir name attr out k =
      if found.raw.isDir then
        if attr &&& 0x10 = 0 then (.err .isdir, k)
        else if out then
          match fat32OpenHit dir c found name k with
          | (r, k') => (r.map some, k')
        else (.ok none, k)
      else (.err .exist, k) := by
  have hrun : Prog.attempt (onVol (fat32FindEntry c name)) k = (.ok (.ok found), k) := by
    refine Prog.attempt_ok (onVol_apply ?_)
    rw [fat32FindEntry_eq g h]
    rw [Kernel.find] at hfind
    rw [hfind]
  rw [fat32CreateEntry, Prog.get_bind]
  simp only [hdir, show fat32ValidateName name = .ok () from hname]
  rw [Prog.bind_ok hrun]
  simp only
  by_cases hd : found.raw.isDir = true
  · simp only [hd, ↓reduceIte]
    by_cases ha : attr &&& 0x10 = 0
    · simp [ha, Prog.fail_apply]
    · simp only [ha, ↓reduceIte]
      cases out with
      | false => rfl
      | true =>
          simp only [↓reduceIte, bind]
          rcases fat32OpenHit dir c found name k with ⟨r, k'⟩
          cases r <;> rfl
  · simp only [hd, Bool.false_eq_true, ↓reduceIte]
    rfl

theorem fat32CreateEntry_invalid {name : CName} {e : Errno}
    (hname : fat32ValidateName name = .error e) (attr : UInt8) (out : Bool) :
    fat32CreateEntry dir name attr out k = (.err e, k) := by
  rw [fat32CreateEntry, Prog.get_bind]
  simp only [hname]
  rfl

end Create

end OsAgentLab
