/-
What `fat32_create_entry` and `fat32_unlink_op` do to the slots and clusters
of a directory.
-/
import OsAgentLab.Fat32.DirWrite
import OsAgentLab.Fat32.ShortName
import Mathlib.Tactic.IntervalCases

namespace OsAgentLab

variable {v v' : Vol} {c : Nat} {l : List Nat}

section Dirent

theorem mkDirent_name {short : List UInt8} (h : short.length = 11) (attr : UInt8)
    (cluster size : Nat) : (mkDirent short attr cluster size).name = short := by
  refine List.ext_getElem (by rw [h]; rfl) fun i hi hi' => ?_
  have hlt : i < 11 := h ▸ hi'
  rw [← List.getD_eq_getElem short 0 hi']
  interval_cases i <;> rfl

theorem mkDirent_attr (short : List UInt8) (attr : UInt8) (cluster size : Nat) :
    (mkDirent short attr cluster size).attr = attr := rfl

theorem mkDirent_cluster (short : List UInt8) (attr : UInt8) {cluster : Nat}
    (h : cluster < 4294967296) (size : Nat) :
    (mkDirent short attr cluster size).cluster = cluster := by
  have h26 : mkDirent short attr cluster size 26 = byteOf cluster 0 := rfl
  have h27 : mkDirent short attr cluster size 27 = byteOf cluster 1 := rfl
  have h20 : mkDirent short attr cluster size 20 = byteOf cluster 2 := rfl
  have h21 : mkDirent short attr cluster size 21 = byteOf cluster 3 := rfl
  simp only [RawDirent.cluster, h26, h27, h20, h21, byteOf_toNat]
  omega

theorem mkDirent_fileSize (short : List UInt8) (attr : UInt8) (cluster : Nat) {size : Nat}
    (h : size < 4294967296) : (mkDirent short attr cluster size).fileSize = size := by
  have h28 : mkDirent short attr cluster size 28 = byteOf size 0 := rfl
  have h29 : mkDirent short attr cluster size 29 = byteOf size 1 := rfl
  have h30 : mkDirent short attr cluster size 30 = byteOf size 2 := rfl
  have h31 : mkDirent short attr cluster size 31 = byteOf size 3 := rfl
  simp only [RawDirent.fileSize, h28, h29, h30, h31, byteOf_toNat]
  omega

/-- The two attributes with which `fat32_create_entry` is called. -/
def CreateAttr (attr : UInt8) : Prop := attr = 0 ∨ attr = 0x10

theorem mkDirent_isEntry {short : List UInt8} (h : ShortFieldOk short) {attr : UInt8}
    (hattr : CreateAttr attr) (cluster size : Nat) :
    (mkDirent short (entryAttr attr) cluster size).isEntry = true := by
  obtain ⟨ch, rest, rfl, hch⟩ := h.head
  obtain ⟨h0, _, _, h1⟩ := shortChar_range hch
  have hfirst : mkDirent (ch :: rest) (entryAttr attr) cluster size 0 = ch := rfl
  simp only [RawDirent.isEntry, RawDirent.isEnd, RawDirent.isDeleted, RawDirent.isLfn,
    RawDirent.isVolume, mkDirent_attr, hfirst]
  rcases hattr with rfl | rfl <;> simp [h0, h1, entryAttr] <;> decide

theorem mkDirent_isDir (short : List UInt8) {attr : UInt8} (hattr : CreateAttr attr)
    (cluster size : Nat) :
    (mkDirent short (entryAttr attr) cluster size).isDir = decide (attr &&& 0x10 ≠ 0) := by
  rw [RawDirent.isDir, mkDirent_attr]
  rcases hattr with rfl | rfl <;> rfl

end Dirent

section Prepared

/-- The new object of an entry: a file has no clusters, a directory has one
with its dot entries. -/
structure Prepared (v : Vol) (attr : UInt8) (parent cluster : Nat) (own : List Nat)
    (v' : Vol) : Prop where
  file : attr &&& 0x10 = 0 → cluster = 0 ∧ own = []
  dir : attr &&& 0x10 ≠ 0 → own = [cluster] ∧ ∃ rest,
    v'.raws own = dotRaw cluster :: dotDotRaw parent :: rest ∧ ∀ raw ∈ rest, raw.isEnd = true
  free : ∀ x ∈ own, v.Free x
  shape : SameShape v v'
  next : ∀ x, x ∉ own → v'.store.next x = v.store.next x
  data : ∀ x, x ∉ own → v'.store.data x = v.store.data x
  holds : v'.Holds cluster own

theorem Prepared.holds_frame {attr : UInt8} {parent cluster : Nat} {own : List Nat}
    (h : Prepared v attr parent cluster own v') {a : Nat} {m : List Nat} (hm : v.Holds a m) :
    v'.Holds a m :=
  hm.congr h.shape fun x hx => h.next x fun hown => hm.not_free hx (h.free x hown)

theorem Prepared.chain_frame {attr : UInt8} {parent cluster : Nat} {own : List Nat}
    (h : Prepared v attr parent cluster own v') {a : Nat} {m : List Nat} (hm : v.Chain a m) :
    v'.Chain a m :=
  (h.holds_frame (.of_chain hm)).chain_of_ne_zero (IsChain.head_node hm).ne_zero

theorem Prepared.raws_frame {attr : UInt8} {parent cluster : Nat} {own : List Nat}
    (h : Prepared v attr parent cluster own v') {a : Nat} {m : List Nat} (hm : v.Holds a m) :
    v'.raws m = v.raws m :=
  h.shape.raws fun x hx => h.data x fun hown => hm.not_free hx (h.free x hown)

/-- The clusters of a new object were the only ones taken. -/
theorem Prepared.free_iff {attr : UInt8} {parent cluster : Nat} {own : List Nat}
    (h : Prepared v attr parent cluster own v') {x : Nat} :
    v'.Free x ↔ v.Free x ∧ x ∉ own := by
  constructor
  · intro hfree
    have hnot : x ∉ own := fun hmem => h.holds.not_free hmem hfree
    refine ⟨⟨h.shape.inData.mp hfree.1, ?_⟩, hnot⟩
    rw [← h.next x hnot]
    exact hfree.2
  · rintro ⟨hfree, hnot⟩
    refine ⟨h.shape.inData.mpr hfree.1, ?_⟩
    rw [h.next x hnot]
    exact hfree.2

/-- `fat32_write_dot_entries` into a cluster that has just been allocated. -/
theorem fat32WriteDotEntries_eq (g : Geometry v) {d : Nat} (hd : v.Chain d [d])
    (hzero : v.store.data d = fun _ => 0) (parent : Nat) :
    ∃ v' rest, fat32WriteDotEntries d parent v = (.ok (), v') ∧
      SlotsWritten v [d] (dotRaw d :: dotDotRaw parent :: rest) v' ∧
      ∀ raw ∈ rest, raw.isEnd = true := by
  have hraws : v.raws [d] = v.clusterRaws d := by simp [Vol.raws_cons]
  have hlen : (v.raws [d]).length = v.slotsPerCluster := by rw [hraws, Vol.clusterRaws_length]
  have hsize : 16 ≤ v.slotsPerCluster := by
    have := g.spc_pos
    simp only [Vol.slotsPerCluster]
    omega
  obtain ⟨first, tail, hcons⟩ := List.exists_cons_of_ne_nil
    (show v.raws [d] ≠ [] from List.ne_nil_of_length_pos (by omega))
  obtain ⟨second, rest, rfl⟩ := List.exists_cons_of_ne_nil (show tail ≠ [] from by
    rintro rfl
    have := congrArg List.length hcons
    simp only [List.length_singleton] at this
    omega)
  have hends : ∀ raw ∈ rest, raw.isEnd = true := by
    intro raw hraw
    refine Vol.clusterRaws_zero hzero raw ?_
    rw [← hraws, hcons]
    exact List.mem_cons_of_mem _ (List.mem_cons_of_mem _ hraw)
  obtain ⟨v₁, hrun₁, _, hw₁⟩ := fat32WriteDirEntry_eq g hd (i := 0) (by omega) (dotRaw d)
  rw [hcons, List.set_cons_zero] at hw₁
  obtain ⟨v₂, hrun₂, _, hw₂⟩ := fat32WriteDirEntry_eq (hw₁.shape.geometry g) (hw₁.chain hd)
    (i := 1) (by rw [hw₁.raws]; simp) (dotDotRaw parent)
  rw [hw₁.raws, List.set_cons_succ, List.set_cons_zero] at hw₂
  refine ⟨v₂, rest, ?_, hw₁.trans hw₂, hends⟩
  rw [fat32WriteDotEntries, Prog.bind_ok (Prog.orElse_ok hrun₁ _)]
  exact Prog.orElse_ok hrun₂ _

theorem fat32NewDirCluster_spec (g : Geometry v) (parent : Nat) (attr : UInt8) :
    (attr &&& 0x10 ≠ 0 ∧ (∀ x, ¬ v.Free x) ∧
        fat32NewDirCluster parent attr v = (.err .nospc, v)) ∨
      ∃ cluster own v', fat32NewDirCluster parent attr v = (.ok cluster, v') ∧
        Prepared v attr parent cluster own v' := by
  rw [fat32NewDirCluster]
  by_cases hdir : attr &&& 0x10 ≠ 0
  · rw [if_pos hdir]
    rcases fat32AllocCluster_spec g with ⟨fresh, v₁, hrun, halloc⟩ | ⟨hrun, hnone⟩
    · right
      have hgrown := Grown.of_allocated halloc
      have hchain : v₁.Chain fresh [fresh] :=
        hgrown.holds.chain_of_ne_zero halloc.free.1.ne_zero
      have hzero : v₁.store.data fresh = fun _ => 0 := by
        rw [hgrown.data, if_pos (List.mem_singleton.mpr rfl)]
      obtain ⟨v₂, rest, hdots, hw, hends⟩ :=
        fat32WriteDotEntries_eq (halloc.shape.geometry g) hchain hzero parent
      refine ⟨fresh, [fresh], v₂, ?_, ?_⟩
      · rw [Prog.bind_ok (Prog.orElse_ok hrun _), Prog.bind_ok (Prog.orElse_ok hdots _)]
        rfl
      · exact
          { file := fun h => absurd h hdir
            dir := fun _ => ⟨rfl, rest, hw.raws, hends⟩
            free := hgrown.free
            shape := hgrown.shape.trans hw.shape
            next := fun x hx => by rw [hw.next, hgrown.next x (by simp) hx]
            data := fun x hx => by rw [hw.data x hx, hgrown.data, if_neg hx]
            holds := hw.holds (.of_chain hchain) }
    · exact Or.inl ⟨hdir, hnone, Prog.bind_err (Prog.orElse_err hrun _) _⟩
  · rw [if_neg hdir]
    refine Or.inr ⟨0, [], v, rfl, ?_⟩
    exact
      { file := fun _ => ⟨rfl, rfl⟩
        dir := fun h => absurd h hdir
        free := by simp
        shape := SameShape.refl v
        next := fun _ _ => rfl
        data := fun _ _ => rfl
        holds := Vol.Holds.empty v }

end Prepared

section AddEntry

/-- The directory has room for `needed` slots, or `ext` are the clusters that
it takes to make room. -/
def GrowthFor (v : Vol) (l : List Nat) (needed : Nat) (ext : List Nat) : Prop :=
  (ext = [] ∧ ∃ start left free right, FreePlace (v.raws l) needed start left free right) ∨
    ∃ trailing, NoPlace (v.raws l) needed trailing ∧ ext ≠ [] ∧
      needed ≤ trailing + v.slotsPerCluster * ext.length ∧
      trailing + v.slotsPerCluster * (ext.length - 1) < needed

/-- The directory has no room for `needed` slots, and not with the clusters
`ext` either. -/
def GrowthShort (v : Vol) (l : List Nat) (needed : Nat) (ext : List Nat) : Prop :=
  ∃ trailing, NoPlace (v.raws l) needed trailing ∧
    trailing + v.slotsPerCluster * ext.length < needed

theorem lfnCountOf_lt {name : CName} (h : name.length ≤ 255) (needsLfn : Bool) :
    lfnCountOf name needsLfn < 21 := by
  have := lfnSlots_lt h
  cases needsLfn
  · exact Nat.zero_lt_succ _
  · exact this

/-- The run of slots of a new entry. -/
def entryRun (name : CName) (short : List UInt8) (needsLfn : Bool) (attr : UInt8)
    (cluster : Nat) : List RawDirent :=
  lfnRun name (lfnCountOf name needsLfn) (fat32LfnChecksum short) ++
    [mkDirent short (entryAttr attr) cluster 0]

theorem entryRun_length (name : CName) (short : List UInt8) (needsLfn : Bool) (attr : UInt8)
    (cluster : Nat) :
    (entryRun name short needsLfn attr cluster).length = lfnCountOf name needsLfn + 1 := by
  simp [entryRun, lfnRun_length]

/-- A new entry on the disk: `v₁` is the volume after the directory has grown,
`v₂` the volume with the new object, `v'` the one with the new slots. -/
structure EntryAdded (v : Vol) (c : Nat) (l ext : List Nat) (name : CName) (attr : UInt8)
    (short : List UInt8) (needsLfn : Bool) (left free right : List RawDirent)
    (own : List Nat) (added : AddedEntry) (v₁ v₂ v' : Vol) : Prop where
  grown : Grown v l ext c v₁
  place : FreePlace (v₁.raws (l ++ ext)) (lfnCountOf name needsLfn + 1) left.length left free right
  prepared : Prepared v₁ attr c added.cluster own v₂
  written : SlotsWritten v₂ (l ++ ext)
    (left ++ entryRun name short needsLfn attr added.cluster ++ right) v'
  attr : added.attr = entryAttr attr
  index : added.index = left.length + lfnCountOf name needsLfn
  count : added.count = lfnCountOf name needsLfn + 1

/-- Both loops of directory writes of `fat32_create_entry`. -/
theorem fat32WriteEntryRun_eq (g : Geometry v) (h : v.Chain c l) (name : CName)
    (short : List UInt8) (needsLfn : Bool) (attr : UInt8) (cluster : Nat)
    {left free right : List RawDirent} (hraws : v.raws l = left ++ free ++ right)
    (hlen : free.length = lfnCountOf name needsLfn + 1) :
    ∃ v₁ v', Prog.forCount (fun i => fat32WriteDirEntry c (left.length + i)
          (fat32FillLfnEntry name (lfnOrd (lfnCountOf name needsLfn) i)
            (fat32LfnChecksum short))) (lfnCountOf name needsLfn) 0 v = (.ok (), v₁) ∧
      fat32WriteDirEntry c (left.length + lfnCountOf name needsLfn)
        (mkDirent short (entryAttr attr) cluster 0) v₁ = (.ok (), v') ∧
      SlotsWritten v l (left ++ entryRun name short needsLfn attr cluster ++ right) v' := by
  generalize hcount : lfnCountOf name needsLfn = count at hlen ⊢
  have hsplit : free.take count ++ free.drop count = free := List.take_append_drop count free
  have htake : (free.take count).length = count := by
    rw [List.length_take]
    omega
  obtain ⟨last, hlast⟩ : ∃ last, free.drop count = [last] :=
    List.length_eq_one_iff.mp (by rw [List.length_drop]; omega)
  rw [hlast] at hsplit
  obtain ⟨v₁, hrun₁, _, hw₁⟩ := fat32WriteRun_eq g h (fun i => left.length + i)
    (fun i => fat32FillLfnEntry name (lfnOrd count i) (fat32LfnChecksum short))
    left (free.take count) (last :: right)
    (by
      rw [hraws, List.append_assoc, List.append_assoc]
      conv_lhs => rw [← hsplit]
      rw [List.append_assoc, List.singleton_append]) (fun i _ => rfl)
  rw [htake] at hrun₁ hw₁
  have hfront : (left ++ (List.range count).map fun i =>
      fat32FillLfnEntry name (lfnOrd count i) (fat32LfnChecksum short)).length =
      left.length + count := by simp
  obtain ⟨v', hrun₂, _, hw₂⟩ := fat32WriteDirEntry_eq (hw₁.shape.geometry g) (hw₁.chain h)
    (i := left.length + count) (by
      rw [hw₁.raws, List.length_append, hfront, List.length_cons]
      omega) (mkDirent short (entryAttr attr) cluster 0)
  refine ⟨v₁, v', hrun₁, hrun₂, ?_⟩
  have htrans := hw₁.trans hw₂
  rw [hw₁.raws, ← hfront, set_middle] at htrans
  rw [entryRun, hcount, lfnRun]
  simpa using htrans

/-- `fat32_create_entry` from the search for free slots on: a full volume stops
it in one of two places, otherwise the entry is on the disk. -/
theorem fat32PlaceEntry_spec (g : Geometry v) (h : v.Chain c l) (name : CName) (attr : UInt8)
    (short : List UInt8) (needsLfn : Bool) :
    ∃ ext v₁, Grown v l ext c v₁ ∧
      ((GrowthShort v l (lfnCountOf name needsLfn + 1) ext ∧ (∀ x, ¬ v₁.Free x) ∧
          fat32PlaceEntry c name attr short (lfnCountOf name needsLfn) v = (.err .nospc, v₁)) ∨
        (GrowthFor v l (lfnCountOf name needsLfn + 1) ext ∧
          ((attr &&& 0x10 ≠ 0 ∧ (∀ x, ¬ v₁.Free x) ∧
              fat32PlaceEntry c name attr short (lfnCountOf name needsLfn) v =
                (.err .nospc, v₁)) ∨
            ∃ left free right own added v₂ v',
              fat32PlaceEntry c name attr short (lfnCountOf name needsLfn) v = (.ok added, v') ∧
              EntryAdded v c l ext name attr short needsLfn left free right own added
                v₁ v₂ v'))) := by
  -- the rest of the function, once a place has been found
  have hrest : ∀ {ext : List Nat} {v₁ : Vol} {start : Nat} {left free right : List RawDirent},
      Grown v l ext c v₁ → v₁.Chain c (l ++ ext) →
      fat32DirFindFree c (lfnCountOf name needsLfn + 1) v = (.ok start, v₁) →
      FreePlace (v₁.raws (l ++ ext)) (lfnCountOf name needsLfn + 1) start left free right →
      (attr &&& 0x10 ≠ 0 ∧ (∀ x, ¬ v₁.Free x) ∧
          fat32PlaceEntry c name attr short (lfnCountOf name needsLfn) v = (.err .nospc, v₁)) ∨
        ∃ left free right own added v₂ v',
          fat32PlaceEntry c name attr short (lfnCountOf name needsLfn) v = (.ok added, v') ∧
          EntryAdded v c l ext name attr short needsLfn left free right own added v₁ v₂ v' := by
    intro ext v₁ start left free right hgrown hchain hfind hplace
    have hstart := hplace.start
    subst hstart
    rw [fat32PlaceEntry, Prog.bind_ok hfind]
    rcases fat32NewDirCluster_spec (hgrown.geometry g) c attr with ⟨hdir, hfull, hprep⟩ |
      ⟨cluster, own, v₂, hprep, hspec⟩
    · exact Or.inl ⟨hdir, hfull, Prog.bind_err hprep _⟩
    · have hraws₂ := hspec.raws_frame (.of_chain hchain)
      obtain ⟨v₃, v', hrun₁, hrun₂, hw⟩ := fat32WriteEntryRun_eq
        (hspec.shape.geometry (hgrown.geometry g)) (hspec.chain_frame hchain) name short needsLfn
        attr cluster (hraws₂.trans hplace.split) hplace.len
      refine Or.inr ⟨left, free, right, own,
        ⟨cluster, entryAttr attr, left.length + lfnCountOf name needsLfn,
          lfnCountOf name needsLfn + 1⟩, v₂, v', ?_,
        ⟨hgrown, hplace, hspec, hw, rfl, rfl, rfl⟩⟩
      rw [Prog.bind_ok hprep, Prog.bind_ok hrun₁, Prog.bind_ok hrun₂, Prog.pure_apply]
  rcases fat32DirFindFree_spec g h (Nat.succ_pos _) with
    ⟨start, left, free, right, hfind, hplace⟩ | ⟨trailing, ext, v₁, hno, hgrown, hcases⟩
  · have hnil : l ++ [] = l := List.append_nil l
    exact ⟨[], v, Grown.refl (.of_chain h), Or.inr ⟨Or.inl ⟨rfl, start, left, free, right, hplace⟩,
      hrest (Grown.refl (.of_chain h)) (hnil.symm ▸ h) hfind (hnil.symm ▸ hplace)⟩⟩
  · refine ⟨ext, v₁, hgrown, ?_⟩
    rcases hcases with ⟨start, left, free, right, hfind, hplace, hext, hle, hlt⟩ |
      ⟨hfind, hfull, hlt⟩
    · have hchain := hgrown.holds.chain_of_ne_zero (IsChain.head_node h).ne_zero
      exact Or.inr ⟨Or.inr ⟨trailing, hno, hext, hle, hlt⟩, hrest hgrown hchain hfind hplace⟩
    · exact Or.inl ⟨⟨trailing, hno, hlt⟩, hfull, Prog.bind_err hfind _⟩

end AddEntry

section Unlink

/-- What `fat32_unlink_op` does for the entry `hit` whose object has the
clusters `m`: `run` are its long-name slots. -/
structure EntryRemoved (v : Vol) (l m : List Nat) (hit : DirHit) (left run right :
    List RawDirent) (v' : Vol) : Prop where
  split : v.raws l = left ++ run ++ hit.raw :: right
  noEnd : NoEnd (left ++ run)
  isEntry : hit.raw.isEntry = true
  runLfn : ∀ raw ∈ run, raw.isLfn = true
  count : hit.lfnCount = run.length
  hit : hit = hitAt (v.place l) (LfnState.init.afterAll (left ++ run)) (left ++ run).length hit.raw
  shape : SameShape v v'
  next : ∀ x, v'.store.next x = if x ∈ m then 0 else v.store.next x
  data : ∀ x, x ∉ l → v'.store.data x = v.store.data x
  raws : v'.raws l = left ++ List.replicate (run.length + 1) deletedRaw ++ right

/-- The slots that an entry of a directory occupies. -/
theorem Vol.mem_listing {hit : DirHit} (h : hit ∈ v.listing l) :
    ∃ left run right, v.raws l = left ++ run ++ hit.raw :: right ∧ NoEnd (left ++ run) ∧
      hit.raw.isEntry = true ∧ (∀ raw ∈ run, raw.isLfn = true) ∧
      hit.lfnCount = run.length ∧
      hit = hitAt (v.place l) (LfnState.init.afterAll (left ++ run)) (left ++ run).length
        hit.raw := by
  obtain ⟨before, raw, right, hsplit, hno, hentry, rfl⟩ := mem_hitsFrom.mp h
  obtain ⟨left, run, rfl, hlen, hlfn⟩ := LfnState.count_spec before
  exact ⟨left, run, right, hsplit, hno, hentry, hlfn, hlen.symm, by simp [hitAt]⟩

/-- Slot indices of a directory fit into 64 bits. -/
theorem Geometry.raws_length_lt (g : Geometry v) (h : v.Chain c l) :
    (v.raws l).length < 1099511627776 := by
  have hle := g.chain_length_le h
  have hcount := g.count_lt
  have hspc := g.spc_lt
  rw [Vol.raws_length, Vol.slotsPerCluster]
  calc l.length * (16 * v.fs.sectorsPerCluster)
      ≤ 268435455 * (16 * 255) := Nat.mul_le_mul (by omega) (by omega)
    _ < 1099511627776 := by decide

theorem fat32FreeTarget_eq (g : Geometry v) {target : Nat} {m : List Nat}
    (hm : v.Holds target m) :
    ∃ v', fat32FreeTarget target v = (.ok (), v') ∧ SameShape v v' ∧
      v'.store = v.store.clear m := by
  rw [fat32FreeTarget]
  by_cases hzero : target = 0
  · subst hzero
    have hnil := hm.nil_of_zero
    subst hnil
    refine ⟨v, rfl, SameShape.refl v, ClusterStore.ext ?_ rfl⟩
    funext x
    simp
  · obtain ⟨v₁, hrun, hshape, hstore⟩ := fat32FreeChain_eq g (hm.chain_of_ne_zero hzero)
    exact ⟨v₁, by rw [if_pos hzero]; exact Prog.orElse_ok hrun _, hshape, hstore⟩

/-- The check passes for files and for directories that list dot entries only. -/
theorem fat32CheckEmpty_eq (g : Geometry v) {raw : RawDirent} {m : List Nat}
    (hm : raw.isDir = true → v.Chain raw.cluster m) :
    fat32CheckEmpty raw v =
      if raw.isDir = true ∧ (v.listing m).all (fun hit => isDotName hit.name) = false then
        (.err .notempty, v)
      else (.ok (), v) := by
  rw [fat32CheckEmpty]
  by_cases hdir : raw.isDir = true
  · rw [if_pos hdir, Prog.bind_ok (fat32DirIsEmpty_eq g (hm hdir))]
    cases hall : (v.listing m).all fun hit => isDotName hit.name with
    | true => simp [Prog.pure_apply]
    | false => simp [hdir, Prog.fail_apply]
  · rw [if_neg hdir, if_neg fun h => hdir h.1, Prog.pure_apply]

/-- The check only reads. -/
theorem fat32CheckEmpty_vol (raw : RawDirent) (v : Vol) : (fat32CheckEmpty raw v).2 = v := by
  have hread : ∀ c, (fat32DirIsEmpty c v).2 = v := by
    intro c
    rw [fat32DirIsEmpty]
    split <;> rfl
  rw [fat32CheckEmpty]
  split
  · have hv := hread raw.cluster
    cases hrun : fat32DirIsEmpty raw.cluster v with
    | mk r v₁ =>
        rw [hrun] at hv
        cases hv
        cases r with
        | ok empty =>
            rw [Prog.bind_ok hrun]
            cases empty <;> rfl
        | err e => rw [Prog.bind_err hrun]
        | fault => simp only [bind, hrun]
        | diverges => simp only [bind, hrun]
  · rfl

/-- `fat32_unlink_op` from the check on: what passes the check is removed. -/
theorem fat32UnlinkIn_passed (g : Geometry v) (h : v.Chain c l) {name : CName}
    (hname : isDotName name = false) {hit : DirHit}
    (hfind : (v.listing l).find? (fun hit => nameEqNocase hit.name name) = some hit)
    {m : List Nat} (hm : v.Holds hit.raw.cluster m) (hapart : ∀ x ∈ m, x ∉ l)
    (hcheck : fat32CheckEmpty hit.raw v = (.ok (), v)) :
    ∃ left run right v', fat32UnlinkIn c name v = (.ok (), v') ∧
      EntryRemoved v l m hit left run right v' := by
  obtain ⟨left, run, right, hsplit, hno, hentry, hlfn, hcount, hhit⟩ :=
    Vol.mem_listing (List.mem_of_find?_eq_some hfind)
  have hentryRun : fat32FindEntry c name v = (.ok hit, v) := by
    rw [fat32FindEntry_eq g h, hfind]
  rw [fat32UnlinkIn, if_neg (by simp [hname]), Prog.bind_ok hentryRun]
  refine ⟨left, run, right, ?_⟩
  obtain ⟨v₁, hfree, hshape₁, hstore₁⟩ := fat32FreeTarget_eq g hm
  have hchain₁ : v₁.Chain c l := Vol.Chain.congr hshape₁ h fun x hx => by
    rw [hstore₁, ClusterStore.clear_next, if_neg fun hxm => hapart x hxm hx]
  have hraws₁ : v₁.raws l = v.raws l := hshape₁.raws fun x _ => by rw [hstore₁]; rfl
  -- clearing the slots
  have hlt := g.raws_length_lt h
  have hindex : hit.entryIndex = left.length + run.length := by
    rw [hhit]
    simp [hitAt]
  have hlen : left.length + run.length < (v.raws l).length := by
    rw [hsplit]
    simp
  have hstart : u64 (hit.entryIndex + 18446744073709551616 - hit.lfnCount) = left.length := by
    rw [hindex, hcount, u64]
    omega
  have hold : v₁.raws l = left ++ (run ++ [hit.raw]) ++ right := by
    rw [hraws₁, hsplit]
    simp
  obtain ⟨v', hwrite, _, hw⟩ := fat32WriteRun_eq (hshape₁.geometry g) hchain₁
    (fun i => u64 (left.length + i)) (fun _ => deletedRaw) _ _ _ hold (fun i hi => by
      rw [List.length_append, List.length_singleton] at hi
      exact u64_of_lt (by omega))
  rw [List.length_append, List.length_singleton] at hwrite hw
  rw [List.map_const', List.length_range] at hw
  refine ⟨v', ?_, ?_⟩
  · rw [Prog.bind_ok hcheck, Prog.bind_ok hfree, hstart, hcount]
    exact hwrite
  · exact
      { split := hsplit
        noEnd := hno
        isEntry := hentry
        runLfn := hlfn
        count := hcount
        hit := hhit
        shape := hshape₁.trans hw.shape
        next := fun x => by rw [hw.next, hstore₁, ClusterStore.clear_next]
        data := fun x hx => by rw [hw.data x hx, hstore₁]; rfl
        raws := hw.raws }

/-- `fat32_unlink_op` on an entry that it finds: a directory that is not empty
stays, everything else is removed. -/
theorem fat32UnlinkIn_found (g : Geometry v) (h : v.Chain c l) {name : CName}
    (hname : isDotName name = false) {hit : DirHit}
    (hfind : (v.listing l).find? (fun hit => nameEqNocase hit.name name) = some hit)
    {m : List Nat} (hm : v.Holds hit.raw.cluster m) (hapart : ∀ x ∈ m, x ∉ l)
    (hdirChain : hit.raw.isDir = true → v.Chain hit.raw.cluster m) :
    (hit.raw.isDir = true ∧ (v.listing m).all (fun hit => isDotName hit.name) = false ∧
        fat32UnlinkIn c name v = (.err .notempty, v)) ∨
      ¬ (hit.raw.isDir = true ∧ (v.listing m).all (fun hit => isDotName hit.name) = false) ∧
        ∃ left run right v', fat32UnlinkIn c name v = (.ok (), v') ∧
          EntryRemoved v l m hit left run right v' := by
  have hentryRun : fat32FindEntry c name v = (.ok hit, v) := by
    rw [fat32FindEntry_eq g h, hfind]
  have hcheck := fat32CheckEmpty_eq g hdirChain
  by_cases hfull : hit.raw.isDir = true ∧
      (v.listing m).all (fun hit => isDotName hit.name) = false
  · rw [if_pos hfull] at hcheck
    refine Or.inl ⟨hfull.1, hfull.2, ?_⟩
    rw [fat32UnlinkIn, if_neg (by simp [hname]), Prog.bind_ok hentryRun]
    exact Prog.bind_err hcheck _
  · rw [if_neg hfull] at hcheck
    exact Or.inr ⟨hfull, fat32UnlinkIn_passed g h hname hfind hm hapart hcheck⟩

theorem fat32UnlinkIn_missing (g : Geometry v) (h : v.Chain c l) {name : CName}
    (hfind : (v.listing l).find? (fun hit => nameEqNocase hit.name name) = none) :
    fat32UnlinkIn c name v =
      (.err (if isDotName name then .inval else .noent), v) := by
  rw [fat32UnlinkIn]
  by_cases hname : isDotName name = true
  · rw [if_pos hname, if_pos hname, Prog.fail_apply]
  · rw [if_neg hname, if_neg hname]
    refine Prog.bind_err ?_ _
    rw [fat32FindEntry_eq g h, hfind]

end Unlink

end OsAgentLab
