/-
The directory entry of an open file: reading it back and storing the start
cluster and the size in it.
-/
import OsAgentLab.Fat32.FileData
import OsAgentLab.Fat32.TreeOps

namespace OsAgentLab

variable {v v' : Vol} {c d : Nat} {l : List Nat}

section Raw

theorem RawDirent.withChain_name (raw : RawDirent) (cluster size : Nat) :
    (raw.withChain cluster size).name = raw.name := rfl

theorem RawDirent.withChain_attr (raw : RawDirent) (cluster size : Nat) :
    (raw.withChain cluster size).attr = raw.attr := rfl

theorem RawDirent.withChain_cluster (raw : RawDirent) {cluster : Nat} (h : cluster < 4294967296)
    (size : Nat) : (raw.withChain cluster size).cluster = cluster := by
  have h26 : raw.withChain cluster size 26 = byteOf cluster 0 := rfl
  have h27 : raw.withChain cluster size 27 = byteOf cluster 1 := rfl
  have h20 : raw.withChain cluster size 20 = byteOf cluster 2 := rfl
  have h21 : raw.withChain cluster size 21 = byteOf cluster 3 := rfl
  simp only [RawDirent.cluster, h26, h27, h20, h21, byteOf_toNat]
  omega

theorem RawDirent.withChain_fileSize (raw : RawDirent) (cluster : Nat) {size : Nat}
    (h : size < 4294967296) : (raw.withChain cluster size).fileSize = size := by
  have h28 : raw.withChain cluster size 28 = byteOf size 0 := rfl
  have h29 : raw.withChain cluster size 29 = byteOf size 1 := rfl
  have h30 : raw.withChain cluster size 30 = byteOf size 2 := rfl
  have h31 : raw.withChain cluster size 31 = byteOf size 3 := rfl
  simp only [RawDirent.fileSize, h28, h29, h30, h31, byteOf_toNat]
  omega

theorem RawDirent.fileSize_lt (raw : RawDirent) : raw.fileSize < 4294967296 := by
  have h0 := (raw 28).toNat_lt
  have h1 := (raw 29).toNat_lt
  have h2 := (raw 30).toNat_lt
  have h3 := (raw 31).toNat_lt
  simp only [RawDirent.fileSize]
  omega

/-- Two slots that name the same entry. -/
structure SameName (raw raw' : RawDirent) : Prop where
  name : raw'.name = raw.name
  attr : raw'.attr = raw.attr

namespace SameName

variable {raw raw' : RawDirent}

theorem refl (raw : RawDirent) : SameName raw raw := ⟨rfl, rfl⟩

theorem first (h : SameName raw raw') : raw' 0 = raw 0 := (List.cons.inj h.name).1

theorem isDir (h : SameName raw raw') : raw'.isDir = raw.isDir := by
  rw [RawDirent.isDir, RawDirent.isDir, h.attr]

theorem isEntry (h : SameName raw raw') : raw'.isEntry = raw.isEntry := by
  simp only [RawDirent.isEntry, RawDirent.isEnd, RawDirent.isDeleted, RawDirent.isLfn,
    RawDirent.isVolume, h.attr, h.first]

theorem isEnd (h : SameName raw raw') : raw'.isEnd = raw.isEnd := by
  rw [RawDirent.isEnd, RawDirent.isEnd, h.first]

end SameName

theorem RawDirent.sameName_withChain (raw : RawDirent) (cluster size : Nat) :
    SameName raw (raw.withChain cluster size) := ⟨rfl, rfl⟩

/-- Replacing an entry by one of the same name. -/
theorem hitsFrom_replace (place : Nat → Nat × Nat) {left : List RawDirent} (hno : NoEnd left)
    (right : List RawDirent) {raw raw' : RawDirent} (hraw : raw.isEntry = true)
    (hsame : SameName raw raw') :
    let st := LfnState.init.afterAll left
    ∃ pre post, hitsFrom place LfnState.init 0 (left ++ raw :: right) =
        pre ++ hitAt place st left.length raw :: post ∧
      hitsFrom place LfnState.init 0 (left ++ raw' :: right) =
        pre ++ { hitAt place st left.length raw with raw := raw' } :: post := by
  intro st
  have hraw' : raw'.isEntry = true := hsame.isEntry.trans hraw
  have hname : hitAt place st left.length raw' =
      { hitAt place st left.length raw with raw := raw' } := by
    simp only [hitAt, LfnState.entryName, hsame.name]
  refine ⟨hitsFrom place LfnState.init 0 left, hitsFrom place st.drop (left.length + 1) right,
    ?_, ?_⟩
  · rw [hitsFrom_append hno, Nat.zero_add, hitsFrom, if_neg (by
      rw [RawDirent.isEnd_of_isEntry hraw]
      exact Bool.false_ne_true), if_pos hraw]
  · rw [hitsFrom_append hno, Nat.zero_add, hitsFrom, if_neg (by
      rw [RawDirent.isEnd_of_isEntry hraw']
      exact Bool.false_ne_true), if_pos hraw', hname]

/-- The end marks of a directory do not depend on what an entry holds. -/
theorem CleanTail.replace {left right : List RawDirent} {raw raw' : RawDirent}
    (h : CleanTail (left ++ raw :: right)) (hsame : SameName raw raw') :
    CleanTail (left ++ raw' :: right) := by
  obtain ⟨hleft, hright, hcross⟩ := List.pairwise_append.mp h
  obtain ⟨hhead, htail⟩ := List.pairwise_cons.mp hright
  refine List.pairwise_append.mpr ⟨hleft, List.pairwise_cons.mpr ⟨?_, htail⟩, ?_⟩
  · intro b hb
    rw [hsame.isEnd]
    exact hhead b hb
  · intro a ha b hb
    rcases List.mem_cons.mp hb with rfl | hb
    · rw [hsame.isEnd]
      exact hcross a ha raw List.mem_cons_self
    · exact hcross a ha b (List.mem_cons_of_mem _ hb)

end Raw

section Slot

/-- A listed entry stands in the slot with its index. -/
theorem Vol.listing_slot {hit : DirHit} (h : hit ∈ v.listing l) :
    hit.entryIndex < (v.raws l).length ∧ (v.raws l)[hit.entryIndex]? = some hit.raw ∧
      (hit.direntLba, hit.direntOff) = v.place l hit.entryIndex := by
  obtain ⟨left, run, right, hsplit, _, _, _, _, hhit⟩ := Vol.mem_listing h
  have hidx : hit.entryIndex = (left ++ run).length := by
    rw [hhit]
    rfl
  rw [hidx, hsplit]
  refine ⟨by simp, by simp, ?_⟩
  rw [hhit]
  rfl

/-- The sector address of a slot is not zero, as the one of a vnode without an
entry is. -/
theorem Geometry.place_ne_zero (g : Geometry v) (l : List Nat) (i : Nat) :
    (v.place l i).1 ≠ 0 := by
  have hpos := g.fat_pos
  have hbelow := g.fat_below
  rw [Vol.place]
  simp only [Vol.sectorLba]
  omega

/-- Reading the sector of a slot. -/
theorem blkRead_slot (g : Geometry v) (h : v.Chain c l) {i : Nat} {raw : RawDirent}
    (hi : (v.raws l)[i]? = some raw) :
    ∃ sector, blkRead (v.place l i).1 v = (.ok sector, v) ∧
      rawAt sector (v.place l i).2 = raw := by
  obtain ⟨hlt, hget⟩ := List.getElem?_eq_some_iff.mp hi
  have hlen := hlt
  rw [Vol.raws_length] at hlen
  have hdiv : i / v.slotsPerCluster < l.length :=
    Nat.div_lt_of_lt_mul (by rwa [Nat.mul_comm] at hlen)
  have hmod : i % v.slotsPerCluster < v.slotsPerCluster := Nat.mod_lt _ g.slotsPerCluster_pos
  have hs : i % v.slotsPerCluster / 16 < v.fs.sectorsPerCluster := by
    simp only [Vol.slotsPerCluster] at hmod ⊢
    omega
  have hin := IsChain.node_of_mem h _ (List.getElem_mem hdiv)
  obtain ⟨sector, hread, _, hbytes⟩ := blkRead_sector g hin hs
  rw [Vol.raws_getElem? v l hlt, Option.some.injEq] at hi
  rw [Vol.place, List.getD_eq_getElem _ _ hdiv]
  refine ⟨sector, hread, ?_⟩
  rw [← hi, List.getD_eq_getElem _ _ hdiv, Vol.rawIn]
  funext k
  have hk := k.isLt
  rw [rawAt, rawAt, hbytes _ (by omega)]
  congr 1
  omega

/-- The node describes the slot `i` of the directory with the clusters `l`. -/
def Fat32Node.At (node : Fat32Node) (v : Vol) (l : List Nat) (i : Nat) : Prop :=
  node.direntLba = (v.place l i).1 ∧ node.direntOff = (v.place l i).2

variable {i : Nat} {raw : RawDirent}

/-- `fat32_refresh_node` takes over the fields of the entry. -/
theorem fat32RefreshNode_eq (g : Geometry v) (h : v.Chain c l) (node : Fat32Node) (hat : node.At v l i)
    (hi : (v.raws l)[i]? = some raw) :
    fat32RefreshNode node v =
      (.ok { node with attr := raw.attr, size := raw.fileSize, cluster := raw.cluster }, v) := by
  obtain ⟨hlba, hoff⟩ := hat
  obtain ⟨sector, hread, hraw⟩ := blkRead_slot g h hi
  have hne : node.direntLba ≠ 0 := hlba ▸ g.place_ne_zero l i
  rw [fat32RefreshNode, if_neg hne, hlba, hoff, Prog.bind_ok (Prog.orElse_ok hread _), hraw,
    Prog.pure_apply]

/-- `fat32_update_dirent` stores the start cluster and the size in the slot. -/
theorem fat32UpdateDirent_eq (g : Geometry v) (h : v.Chain c l) (node : Fat32Node)
    (hat : node.At v l i) (hi : (v.raws l)[i]? = some raw) :
    ∃ v', fat32UpdateDirent node v = (.ok (), v') ∧ v'.fs = v.fs ∧
      SlotsWritten v l ((v.raws l).set i (raw.withChain node.cluster node.size)) v' := by
  obtain ⟨hlba, hoff⟩ := hat
  obtain ⟨hlt, _⟩ := List.getElem?_eq_some_iff.mp hi
  obtain ⟨sector, hread, hraw⟩ := blkRead_slot g h hi
  have hne : node.direntLba ≠ 0 := hlba ▸ g.place_ne_zero l i
  obtain ⟨v', hrun, hfs, hw⟩ :=
    fat32WriteDirEntry_eq g h hlt (raw.withChain node.cluster node.size)
  refine ⟨v', ?_, hfs, hw⟩
  rw [← hrun, fat32UpdateDirent, if_neg hne, hlba, hoff,
    Prog.bind_ok (Prog.orElse_ok hread _), hraw, fat32WriteDirEntry,
    Prog.bind_ok (Prog.orElse_ok (fat32DirEntryLocation_eq g h hlt) _)]
  simp only
  rw [Prog.bind_ok (Prog.orElse_ok hread _)]

end Slot

section Update

/-- From `v` to `v'` the file with the entry `hit` and the clusters `m` has got
the entry `raw'` and the clusters `m'`; nothing else has changed. -/
structure FileUpdate (v v' : Vol) (l : List Nat) (hit : DirHit) (raw' : RawDirent)
    (m m' : List Nat) : Prop where
  shape : SameShape v v'
  holds' : v'.Holds raw'.cluster m'
  sub : ∀ x ∈ m', x ∈ m ∨ v.Free x
  next : ∀ x, ¬ v.Free x → x ∉ m → v'.store.next x = v.store.next x
  data : ∀ x, ¬ v.Free x → x ∉ m → x ∉ l → v'.store.data x = v.store.data x
  raws : v'.raws l = (v.raws l).set hit.entryIndex raw'
  name : SameName hit.raw raw'

variable {hit : DirHit} {raw' : RawDirent} {m m' : List Nat}

/-- The listing after a change of one file. -/
theorem FileUpdate.listing (u : FileUpdate v v' l hit raw' m m') (hmem : hit ∈ v.listing l)
    (hclean : CleanTail (v.raws l)) :
    ∃ pre post, v.listing l = pre ++ hit :: post ∧
      v'.listing l = pre ++ { hit with raw := raw' } :: post ∧ CleanTail (v'.raws l) := by
  obtain ⟨left, run, right, hsplit, hno, hentry, _, _, hhit⟩ := Vol.mem_listing hmem
  have hidx : hit.entryIndex = (left ++ run).length := by
    rw [hhit]
    rfl
  have hraws : v'.raws l = left ++ run ++ raw' :: right := by
    rw [u.raws, hsplit, hidx, set_middle]
  obtain ⟨pre, post, hold, hnew⟩ := hitsFrom_replace (v.place l) hno right hentry
    u.name
  refine ⟨pre, post, ?_, ?_, ?_⟩
  · rw [Vol.listing, hsplit, hold, ← hhit]
  · rw [Vol.listing, hraws, u.shape.place, hnew, ← hhit]
  · rw [hraws]
    rw [hsplit] at hclean
    exact hclean.replace u.name

/-- A change of one file is an update of its entry. -/
theorem FileUpdate.treeUpdate (u : FileUpdate v v' l hit raw' m m') (w : WellFormed v)
    (hdir : v.IsDir d) (hl : v.Chain d l) (hmem : hit ∈ v.listing l)
    (hdot : hit.isDot = false) (hfile : hit.raw.isDir = false)
    (hm : v.Holds hit.raw.cluster m) : TreeUpdate v v' d hit.entryIndex l l := by
  obtain ⟨pre, post, hold, hnew, hclean⟩ := u.listing hmem (w.clean d l hdir hl)
  obtain ⟨n, hn, hown⟩ := w.entry_holds ⟨hdir, l, hl, hmem⟩ hdot
  obtain rfl := Vol.Holds.unique w.geometry hm hn
  obtain ⟨od, hod⟩ := hdir
  have hapart : ∀ x ∈ l, x ∉ m := by
    intro x hx hxm
    have hdirOwn : v.Owns od x := (w.owns_chain (w.head_of_dir hod) hl).mpr hx
    exact w.dir_ne_self hod _ (w.apart hdirOwn ((hown x).mp hxm))
  have hpair : (v.listing l).Pairwise fun a b => a.entryIndex < b.entryIndex := hitsFrom_index.2
  exact
    { dir := ⟨od, hod⟩
      chain := hl
      shape := u.shape
      chain' := Vol.Chain.congr u.shape hl fun x hx =>
        u.next x (Geometry.chain_not_free hl hx) (hapart x hx)
      clean := hclean
      grown := fun x hx => Or.inl hx
      next := fun x hfree _ hx => u.next x hfree fun hxm => hx ((hown x).mp hxm)
      data := fun x hfree hxl hx => u.data x hfree (fun hxm => hx ((hown x).mp hxm)) hxl
      kept := fun other hother hidx => by
        rw [hnew] at hother
        rw [hold]
        rcases List.mem_append.mp hother with hin | hin
        · exact List.mem_append_left _ hin
        · rcases List.mem_cons.mp hin with rfl | hin
          · exact absurd rfl hidx
          · exact List.mem_append_right _ (List.mem_cons_of_mem _ hin)
      own := fun other hother hidx => by
        have hmem' : { hit with raw := raw' } ∈ v'.listing l := by
          rw [hnew]
          simp
        obtain rfl := Vol.listing_index_inj v' l hother hmem' hidx
        have hfile' : raw'.isDir = false := u.name.isDir.trans hfile
        refine ⟨fun h => ?_, fun _ => ⟨m', u.holds', fun x hx => ?_, fun h => ?_⟩⟩
        · rw [hfile'] at h
          cases h
        · rcases u.sub x hx with hxm | hfree
          · exact Or.inl ((hown x).mp hxm)
          · exact Or.inr ⟨hfree, fun hxl => Geometry.chain_not_free hl hxl hfree⟩
        · rw [hfile'] at h
          cases h }

end Update

end OsAgentLab
