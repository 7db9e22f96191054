/-
A regular FAT32 file as a byte array in the middle of a well-formed volume: what
a write does to its bytes, what it leaves alone, and what a read delivers.
-/
import OsAgentLab.Fat32.OneFile

namespace OsAgentLab

variable {v v' : Vol} {c d : Nat} {l m m' : List Nat} {o : Owner} {hit : DirHit}
  {raw' : RawDirent} {w buf : List UInt8}

/-- The file with the entry `hit`, the clusters `m` and the contents `w`, in the
directory that starts at `d` and has the clusters `l`. -/
structure Vol.RegularFile (v : Vol) (d : Nat) (l m : List Nat) (hit : DirHit) (w : List UInt8) :
    Prop where
  wellFormed : WellFormed v
  dir : v.IsDir d
  chain : v.Chain d l
  listed : hit ∈ v.listing l
  notDot : hit.isDot = false
  file : hit.raw.isDir = false
  holds : v.Holds hit.raw.cluster m
  room : hit.raw.fileSize ≤ v.room m
  bytes : w = v.contents m hit.raw.fileSize

/-- From `v` to `v'` the entry `hit` of the directory at `d` has become `raw'`; every
other entry is as it was, and so are the clusters of every other file. -/
structure OthersKept (v v' : Vol) (d : Nat) (hit : DirHit) (raw' : RawDirent) : Prop where
  dirs : ∀ c lc, v.IsDir c → v.Chain c lc → v'.IsDir c ∧ v'.Chain c lc ∧
    v'.listing lc = (v.listing lc).map fun h =>
      if c = d ∧ h.entryIndex = hit.entryIndex then { h with raw := raw' } else h
  files : ∀ c h mc, v.Lists c h → h.isDot = false → h.raw.isDir = false →
    ¬ (c = d ∧ h.entryIndex = hit.entryIndex) → v.Holds h.raw.cluster mc →
    v'.Holds h.raw.cluster mc ∧ v'.contents mc h.raw.fileSize = v.contents mc h.raw.fileSize

section Frame

/-- The entry of a file owns no directory. -/
theorem Vol.Lists.not_dirAt (w : WellFormed v) (h : v.Lists d hit) (hfile : hit.raw.isDir = false) :
    ¬ v.DirAt (.entry d hit.entryIndex) c := by
  intro hdir
  generalize hidx : Owner.entry _ _ = o at hdir
  cases hdir with
  | root => cases hidx
  | sub hdir' hchain' hmem' hdot' hisDir' =>
      obtain ⟨rfl, hsame⟩ := Owner.entry.inj hidx
      rw [← w.lists_inj h ⟨⟨_, hdir'⟩, _, hchain', hmem'⟩ hsame, hfile] at hisDir'
      cases hisDir'

/-- No directory starts with the first cluster of a file. -/
theorem Vol.Lists.cluster_ne_dir (w : WellFormed v) (h : v.Lists c hit) (hdot : hit.isDot = false)
    (hfile : hit.raw.isDir = false) (hzero : hit.raw.cluster ≠ 0) (hdir : v.IsDir d) :
    hit.raw.cluster ≠ d := by
  rintro rfl
  obtain ⟨od, hod⟩ := hdir
  have hsame := w.apart (w.owns_head (.entry h hdot hzero)) (w.owns_head (w.head_of_dir hod))
  subst hsame
  exact h.not_dirAt w hfile hod

/-- The bytes of clusters that have not changed. -/
theorem SameShape.contents_eq (hshape : SameShape v v')
    (hdata : ∀ x ∈ m, v'.store.data x = v.store.data x) (size : Nat) :
    v'.contents m size = v.contents m size := by
  apply List.map_congr_left
  intro j _
  rw [Vol.bytes, Vol.bytes, hshape.clusterBytes]
  by_cases hj : j / v.clusterBytes < m.length
  · rw [List.getD_eq_getElem _ _ hj, hdata _ (List.getElem_mem hj)]
  · -- behind the last cluster both sides are zero
    have hnot : ∀ u : Vol, u.store.data 0 (j % v.clusterBytes) = 0 := by
      intro u
      simp only [Vol.store]
      apply if_neg
      rintro ⟨⟨hlow, _⟩, _⟩
      cases hlow
    rw [List.getD_eq_default _ _ (Nat.le_of_not_lt hj), hnot, hnot]

namespace Vol.RegularFile

theorem lists (h : v.RegularFile d l m hit w) : v.Lists d hit :=
  ⟨h.dir, l, h.chain, h.listed⟩

/-- The clusters of a file are not among those of its directory. -/
theorem apart (h : v.RegularFile d l m hit w) : ∀ x ∈ l, x ∉ m := by
  intro x hx hxm
  obtain ⟨n, hn, hown⟩ := h.wellFormed.entry_holds h.lists h.notDot
  obtain rfl := Vol.Holds.unique h.wellFormed.geometry h.holds hn
  obtain ⟨od, hod⟩ := h.dir
  have hdirOwn : v.Owns od x :=
    (h.wellFormed.owns_chain (h.wellFormed.head_of_dir hod) h.chain).mpr hx
  exact h.wellFormed.dir_ne_self hod _ (h.wellFormed.apart hdirOwn ((hown x).mp hxm))

theorem fileAt (h : v.RegularFile d l m hit w) : v.FileAt d hit.entryIndex l m hit.raw w where
  geometry := h.wellFormed.geometry
  dir := h.chain
  slot := (Vol.listing_slot h.listed).2.1
  chain := h.holds
  apart := h.apart
  room := by
    rw [h.bytes, Vol.contents_length]
    exact h.room
  bytes := h.bytes

theorem treeUpdate (h : v.RegularFile d l m hit w) (u : FileUpdate v v' l hit raw' m m') :
    TreeUpdate v v' d hit.entryIndex l l :=
  u.treeUpdate h.wellFormed h.dir h.chain h.listed h.notDot h.file h.holds

/-- The listing of any directory after a change of the file. -/
theorem listing_after (h : v.RegularFile d l m hit w) (u : FileUpdate v v' l hit raw' m m')
    (hdir : v.DirAt o c) {lc : List Nat} (hlc : v.Chain c lc) :
    v'.Chain c lc ∧ v'.listing lc = (v.listing lc).map fun h =>
      if c = d ∧ h.entryIndex = hit.entryIndex then { h with raw := raw' } else h := by
  have t := h.treeUpdate u
  by_cases hc : c = d
  · subst hc
    obtain rfl := h.wellFormed.geometry.chain_unique hlc h.chain
    obtain ⟨pre, post, hold, hnew, _⟩ := u.listing h.listed (h.wellFormed.clean c lc h.dir h.chain)
    refine ⟨t.chain', ?_⟩
    have hpair : (v.listing lc).Pairwise fun a b => a.entryIndex < b.entryIndex := hitsFrom_index.2
    rw [hold] at hpair
    obtain ⟨_, hright, hcross⟩ := List.pairwise_append.mp hpair
    have hsame : ∀ part : List DirHit, (∀ x ∈ part, x.entryIndex ≠ hit.entryIndex) →
        part.map (fun x => if c = c ∧ x.entryIndex = hit.entryIndex then { x with raw := raw' }
          else x) = part := by
      intro part hne
      refine (List.map_congr_left fun x hx => ?_).trans (List.map_id part)
      exact if_neg fun hidx => hne x hx hidx.2
    rw [hnew, hold, List.map_append, List.map_cons, hsame pre, hsame post, if_pos ⟨rfl, rfl⟩]
    · intro x hx
      exact Nat.ne_of_gt ((List.pairwise_cons.mp hright).1 x hx)
    · intro x hx
      exact Nat.ne_of_lt (hcross x hx hit List.mem_cons_self)
  · have ho : o ≠ .entry d hit.entryIndex := by
      rintro rfl
      exact h.lists.not_dirAt h.wellFormed h.file hdir
    obtain ⟨hchain, _, hlist⟩ :=
      t.chain_frame h.wellFormed ho (h.wellFormed.head_of_dir hdir) hc hlc
    refine ⟨hchain, hlist.trans ((List.map_congr_left fun x _ => ?_).trans (List.map_id _)).symm⟩
    exact if_neg fun hidx => hc hidx.1

/-- The directories stay directories. -/
theorem dirAt_after (h : v.RegularFile d l m hit w) (u : FileUpdate v v' l hit raw' m m')
    (hdir : v.DirAt o c) : v'.DirAt o c := by
  induction hdir with
  | root =>
      rw [← u.shape.rootCluster]
      exact .root
  | @sub o c lc sub hdir hlc hmem hdot hisDir ih =>
      obtain ⟨hchain, hlist⟩ := h.listing_after u hdir hlc
      have hkept : sub ∈ v'.listing lc := by
        rw [hlist]
        refine List.mem_map.mpr ⟨sub, hmem, if_neg ?_⟩
        rintro ⟨rfl, hidx⟩
        have hsame := h.wellFormed.lists_inj ⟨⟨_, hdir⟩, _, hlc, hmem⟩ h.lists hidx
        rw [hsame, h.file] at hisDir
        cases hisDir
      exact .sub ih hchain hkept hdot hisDir

theorem others (h : v.RegularFile d l m hit w) (u : FileUpdate v v' l hit raw' m m') :
    OthersKept v v' d hit raw' where
  dirs c lc hdir hlc := by
    obtain ⟨oc, hoc⟩ := hdir
    exact ⟨⟨oc, h.dirAt_after u hoc⟩, h.listing_after u hoc hlc⟩
  files c other mc hlists hdot hfile hne hmc := by
    have t := h.treeUpdate u
    have hframe : ∀ x ∈ mc, v'.store.next x = v.store.next x ∧ v'.store.data x = v.store.data x := by
      intro x hx
      by_cases hzero : other.raw.cluster = 0
      · rw [hzero] at hmc
        rw [hmc.nil_of_zero] at hx
        cases hx
      · have hhead := Vol.HeadAt.entry hlists hdot hzero
        have hown := (h.wellFormed.owns_chain hhead (hmc.chain_of_ne_zero hzero)).mpr hx
        refine t.frame h.wellFormed ?_ hhead
          (hlists.cluster_ne_dir h.wellFormed hdot hfile hzero h.dir) hown
        rintro heq
        exact hne (Owner.entry.inj heq)
    exact ⟨hmc.congr u.shape fun x hx => (hframe x hx).1,
      u.shape.contents_eq (fun x hx => (hframe x hx).2) _⟩

/-- The file after a change of its size or its bytes. -/
theorem changed (h : v.RegularFile d l m hit w) {size offset : Nat}
    (u : FileChange v l hit m size offset buf v' raw' m') :
    v'.RegularFile d l m' { hit with raw := raw' } (v'.contents m' size) where
  wellFormed := (h.treeUpdate u.toFileUpdate).wellFormed h.wellFormed
  dir := by
    obtain ⟨od, hod⟩ := h.dir
    exact ⟨od, h.dirAt_after u.toFileUpdate hod⟩
  chain := (h.treeUpdate u.toFileUpdate).chain'
  listed := by
    obtain ⟨pre, post, _, hnew, _⟩ :=
      u.toFileUpdate.listing h.listed (h.wellFormed.clean d l h.dir h.chain)
    rw [hnew]
    exact List.mem_append_right _ List.mem_cons_self
  notDot := by
    have hdot := h.notDot
    rw [DirHit.isDot] at hdot ⊢
    rw [u.name.name]
    exact hdot
  file := u.name.isDir.trans h.file
  holds := u.holds'
  room := by
    rw [u.fileSize]
    exact u.room
  bytes := by rw [u.fileSize]

/-- A file of which only clusters have changed. -/
theorem kept (h : v.RegularFile d l m hit w)
    (u : FileChange v l hit m hit.raw.fileSize 0 [] v' hit.raw m') :
    v'.RegularFile d l m' hit w := by
  have hchanged := h.changed u
  rw [u.contents_eq h.fileAt] at hchanged
  exact hchanged

end Vol.RegularFile

end Frame

section Read

variable {k : Kernel} {vn n i len offset : Nat} {raw : RawDirent}

/-- Reading from the vnode `vn` delivers the bytes of `w`. -/
def Kernel.Reads (k : Kernel) (vn : Nat) (w : List UInt8) : Prop :=
  ∀ len offset, offset + len < 18446744073709551616 → min len (w.length - offset) < 2147483648 →
    ∃ k', fat32ReadOp vn len offset k =
      (.ok (((min len (w.length - offset) : Nat) : Int), (w.drop offset).take len), k')

/-- `fat32_read_op` of a vnode that knows the place of its entry. -/
theorem fat32ReadOp_eq (h : k.vol.FileAt d i l m raw w) (hdata : (k.vnode vn).data = n)
    (htype : (k.vnode vn).type = .file) (hat : (k.fatNodes.slot n).At k.vol l i)
    (len offset : Nat) :
    let count := if w.length ≤ offset then 0
      else if w.length < u64 (offset + len) then w.length - offset else len
    let bytes := (List.range (min count (k.vol.room m - offset))).map fun j =>
      k.vol.bytes m (offset + j)
    ∃ k', fat32ReadOp vn len offset k = (.ok (cInt bytes.length, bytes), k') := by
  intro count bytes
  have hrefresh := fat32RefreshNode_eq h.geometry h.dir (k.fatNodes.slot n) hat h.slot
  obtain ⟨node, hnode⟩ : ∃ node : Fat32Node, node = { k.fatNodes.slot n with
    attr := raw.attr, size := raw.fileSize, cluster := raw.cluster } := ⟨_, rfl⟩
  have hread : fat32ReadNode node len offset k.vol = (.ok bytes, k.vol) := by
    have hcluster : node.cluster = raw.cluster := by rw [hnode]
    have hsize : node.size = w.length := by rw [hnode, ← h.size]
    rw [fat32ReadNode_eq h.geometry (hcluster.symm ▸ h.chain), Fat32Node.readCount, hsize]
  rw [← hnode] at hrefresh
  have hslot : k.fatNode vn = k.fatNodes.slot n := by rw [Kernel.fatNode, hdata]
  rw [fat32ReadOp, Prog.get_bind, hslot, Prog.bind_ok (Prog.orElse_ok (onVol_apply hrefresh) _),
    Prog.modify_bind]
  simp only [htype, ne_eq, not_true_eq_false, ↓reduceIte]
  have hvol := @onVol_apply ((k.withVol k.vol).setFatNode (k.vnode vn).data node) _ _ _ _ hread
  exact ⟨_, Prog.bind_ok hvol _⟩

/-- A part of the contents, read from the clusters. -/
theorem Vol.FileAt.slice (h : v.FileAt d i l m raw w) (len offset : Nat) :
    (List.range (min len (w.length - offset))).map (fun j => v.bytes m (offset + j)) =
      (w.drop offset).take len := by
  apply List.ext_getElem
  · rw [List.length_map, List.length_range, List.length_take, List.length_drop]
  · intro j hj hj'
    rw [List.length_map, List.length_range] at hj
    rw [List.getElem_map, List.getElem_range, List.getElem_take, List.getElem_drop]
    simp only [h.bytes, List.getElem_map, List.getElem_range]

theorem Vol.FileAt.reads (h : k.vol.FileAt d i l m raw w) (hdata : (k.vnode vn).data = n)
    (htype : (k.vnode vn).type = .file) (hat : (k.fatNodes.slot n).At k.vol l i) :
    k.Reads vn w := by
  intro len offset hsum hcount
  obtain ⟨k', hrun⟩ := fat32ReadOp_eq h hdata htype hat len offset
  have hroom := h.room
  have hlen : min (if w.length ≤ offset then 0
      else if w.length < u64 (offset + len) then w.length - offset else len)
      (k.vol.room m - offset) = min len (w.length - offset) := by
    rw [u64_of_lt hsum]
    split
    · omega
    · split <;> omega
  rw [hlen, h.slice, List.length_take, List.length_drop, cInt_of_lt hcount] at hrun
  exact ⟨k', hrun⟩

end Read

section Write

variable {k k' : Kernel} {vn n offset : Nat}

/-- What a write of `buf` at `offset` has made of the file `hit` with the contents `w`. -/
structure ArrayWritten (k : Kernel) (vn d : Nat) (l : List Nat) (hit : DirHit) (w : List UInt8)
    (offset : Nat) (buf : List UInt8) (k' : Kernel) (raw' : RawDirent) (m' : List Nat)
    (w' : List UInt8) : Prop where
  file : k'.vol.RegularFile d l m' { hit with raw := raw' } w'
  reads : k'.Reads vn w'
  length : w'.length = max w.length (offset + buf.length)
  inside : ∀ j, j < buf.length → w'[offset + j]? = buf[j]?
  outside : ∀ j, j < w.length → j < offset ∨ offset + buf.length ≤ j → w'[j]? = w[j]?
  others : OthersKept k.vol k'.vol d hit raw'

/-- A FAT32 file is a byte array. -/
theorem fat32File_byteArray (h : k.vol.RegularFile d l m hit w) (ho : k.OpenOn vn n l hit) :
    (∀ offset buf, buf ≠ [] → offset + buf.length < 4294967296 → buf.length < 2147483648 →
      ∃ r k', fat32WriteOp vn buf offset k = (r, k') ∧
        ((r = .ok (buf.length : Int) ∧
            ∃ raw' m' w', ArrayWritten k vn d l hit w offset buf k' raw' m' w') ∨
          ∃ e m', r = .err e ∧ k'.vol.RegularFile d l m' hit w ∧ k'.Reads vn w)) ∧
    (∀ offset, fat32WriteOp vn [] offset k = (.ok 0, k)) ∧ k.Reads vn w := by
  have hfile := h.fileAt
  refine ⟨?_, ?_, hfile.reads ho.data ho.type ho.node.place⟩
  · intro offset buf hbuf hend hlen
    obtain ⟨r, k', hrun, hdone⟩ := fat32WriteOp_done hfile ho hbuf hend
    refine ⟨r, k', hrun, ?_⟩
    cases hdone with
    | @full node v' m' hchange hat =>
        have hkept := h.kept hchange
        refine Or.inr ⟨_, m', rfl, hkept, ?_⟩
        have hslot : (k.withFile n node v').fatNodes.slot n = node := by simp [Kernel.withFile]
        exact @Vol.FileAt.reads _ _ _ _ (k.withFile n node v') vn n _ _ hkept.fileAt ho.data ho.type
          (hslot.symm ▸ hat)
    | @done node v' raw' m' hchange hreflects =>
        rw [cInt_of_lt hlen]
        have hafter := h.changed hchange
        refine Or.inl ⟨rfl, raw', m', _, hafter, ?_, ?_, ?_, ?_, h.others hchange.toFileUpdate⟩
        · have hslot : (k.withFile n node v').fatNodes.slot n = node := by simp [Kernel.withFile]
          exact @Vol.FileAt.reads _ _ _ _ (k.withFile n node v') vn n _ _ hafter.fileAt ho.data
            ho.type (hslot.symm ▸ hreflects.place)
        · rw [Vol.contents_length, hfile.size]
        · intro j hj
          exact hchange.contents_inside (Nat.le_max_right _ _) hj
        · intro j hj hout
          refine hchange.contents_outside hfile (Nat.lt_of_lt_of_le ?_ (Nat.le_max_left _ _)) hj hout
          rw [hfile.size]
          exact hj
  · intro offset
    rw [fat32WriteOp, Prog.get_bind]
    simp only [ho.type, ne_eq, not_true_eq_false, ↓reduceIte]
    exact Prog.pure_apply _ _

end Write

section Example

/-- The file of the small volume. -/
theorem oneVol_regular {last cluster size : Nat} {m : List Nat} (hlast : 2 ≤ last)
    (hm : (oneVol (endTable last) (oneRaw cluster size)).Holds (oneRaw cluster size).cluster m)
    (hapart : 2 ∉ m) (hsize : (oneRaw cluster size).fileSize = size)
    (hroom : size ≤ m.length * 512) :
    (oneVol (endTable last) (oneRaw cluster size)).RegularFile 2 [2] m
      (oneHit (oneRaw cluster size)) (List.replicate size 0) := by
  have hfile := @oneVol_fileAt _ (oneRaw cluster size) m (List.replicate size 0) hlast hm hapart
    (by rw [List.length_replicate]; exact hroom) (by rw [hsize])
  exact
    { wellFormed := oneVol_wellFormed hlast hm hapart
      dir := by
        refine ⟨.root, ?_⟩
        have hroot := (oneVol_written hlast (oneRaw cluster size)).shape.rootCluster
        have hdir := @Vol.DirAt.root (oneVol (endTable last) (oneRaw cluster size))
        rw [hroot] at hdir
        exact hdir
      chain := oneVol_root hlast
      listed := by
        rw [oneVol_listing hlast]
        exact List.mem_singleton_self _
      notDot := rfl
      file := oneRaw_isDir cluster size
      holds := hm
      room := by
        have hroom := hfile.room
        rwa [← hfile.size] at hroom
      bytes := hfile.bytes }

/-- A file of two bytes in the cluster 3. -/
theorem oneVol_two : (oneKernel (endTable 3) 3 2).vol.RegularFile 2 [2] [3] (oneHit (oneRaw 3 2))
    [0, 0] := by
  have hchain : (oneVol (endTable 3) (oneRaw 3 2)).Chain 3 [3] :=
    (oneVol_written (by decide) _).chain (endVol_chain (by decide) (by decide) (by decide))
  exact oneVol_regular (by decide) (Or.inr hchain) (by decide) (by decide) (by decide)

theorem oneVol_none : (oneKernel (endTable 2) 0 0).vol.RegularFile 2 [2] [] (oneHit (oneRaw 0 0))
    [] :=
  oneVol_regular (by decide) (Or.inl ⟨by decide, rfl⟩) (by decide) (by decide) (Nat.zero_le _)

/-- The second byte of the file of two bytes is read. -/
theorem fat32File_byteArray_two : ∃ k', fat32ReadOp 1 100 1 (oneKernel (endTable 3) 3 2) =
    (.ok (1, [0]), k') :=
  (fat32File_byteArray oneVol_two (oneVol_openOn (by decide) (by decide) (by decide))).2.2 100 1
    (by decide) (by decide)

/-- A write of no bytes behind the end does not move the end; and a length that
wraps the sum in the bounds check reads the whole cluster. -/
theorem fat32File_notArray :
    (¬ ∀ (k k' : Kernel) (vn n d : Nat) (l m : List Nat) (hit : DirHit) (w buf : List UInt8)
      (offset : Nat), k.vol.RegularFile d l m hit w → k.OpenOn vn n l hit →
      offset + buf.length < 4294967296 → buf.length < 2147483648 →
      fat32WriteOp vn buf offset k = (.ok (buf.length : Int), k') →
      ∃ raw' m' w', ArrayWritten k vn d l hit w offset buf k' raw' m' w') ∧
    (¬ ∀ (k : Kernel) (vn n d : Nat) (l m : List Nat) (hit : DirHit) (w : List UInt8)
      (len offset : Nat), k.vol.RegularFile d l m hit w → k.OpenOn vn n l hit →
      len < 18446744073709551616 → offset < 18446744073709551616 →
      ∃ k', fat32ReadOp vn len offset k =
        (.ok (((min len (w.length - offset) : Nat) : Int), (w.drop offset).take len), k')) := by
  have hnone := @oneVol_openOn 2 0 0 (by decide) (by decide) (by decide)
  have htwo := @oneVol_openOn 3 3 2 (by decide) (by decide) (by decide)
  constructor
  · intro hall
    have hrun : fat32WriteOp 1 [] 100 (oneKernel (endTable 2) 0 0) =
        (.ok (([] : List UInt8).length : Int), oneKernel (endTable 2) 0 0) := by
      rw [fat32WriteOp, Prog.get_bind]
      simp only [hnone.type, ne_eq, not_true_eq_false, ↓reduceIte]
      exact Prog.pure_apply _ _
    obtain ⟨raw', m', w', hwritten⟩ := hall _ _ _ _ _ _ _ _ _ [] 100 oneVol_none hnone (by decide)
      (by decide) hrun
    have hsame : [] = w' := oneVol_none.fileAt.unique hwritten.file.fileAt
    have hlength := hwritten.length
    rw [← hsame] at hlength
    exact absurd hlength (by decide)
  · intro hall
    obtain ⟨k', hrun⟩ := hall _ _ _ _ _ _ _ _ 18446744073709551615 1 oneVol_two htwo (by decide)
      (by decide)
    obtain ⟨k'', hread⟩ := fat32ReadOp_eq oneVol_two.fileAt htwo.data htwo.type htwo.node.place
      18446744073709551615 1
    have hroom : (oneKernel (endTable 3) 3 2).vol.room [3] = 512 := by
      rw [Vol.room]
      exact congrArg ([3].length * ·)
        (oneVol_written (by decide) (oneRaw 3 2)).shape.clusterBytes
    rw [hrun] at hread
    have hcount := congrArg Prod.fst (Outcome.ok.inj (Prod.mk.inj hread).1)
    rw [List.length_map, List.length_range, hroom] at hcount
    exact absurd hcount (by decide)

end Example

end OsAgentLab
