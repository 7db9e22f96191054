/-
A small volume with one file, on which the results about files can be tried:
the root directory is the cluster 2, and its first slot names the file.
-/
import OsAgentLab.Fat32.FileSpec
import OsAgentLab.Fat32.CreateLookup

namespace OsAgentLab

/-- The slot of a file "A". -/
def oneRaw (cluster size : Nat) : RawDirent :=
  mkDirent (65 :: List.replicate 10 32) 0x20 cluster size

/-- Eight clusters with the table `table`, and the slot of the file. -/
def oneVol (table : Nat → Nat) (raw : RawDirent) : Vol :=
  (fat32WriteDirEntry 2 0 raw (blankVol 1 1 8 table)).2

/-- The entry of the file. -/
def oneHit (raw : RawDirent) : DirHit := ⟨raw, [65], 2, 0, 0, 0⟩

/-- A kernel with that volume, the root directory in vnode 0 and the file in vnode 1. -/
def oneKernel (table : Nat → Nat) (cluster size : Nat) : Kernel where
  vol := oneVol table (oneRaw cluster size)
  fatNodes := ⟨fun n => n < 2, fun n =>
    if n = 0 then ⟨2, 0, 0x10, 0, 0, 0, 0, 0⟩ else ⟨cluster, size, 0x20, 2, 2, 0, 0, 1⟩⟩
  vnodes := ⟨fun n => n < 2, fun n =>
    if n = 0 then ⟨.dir, some .fat32, 0, some 0, []⟩ else ⟨.file, some .fat32, 1, some 0, [65]⟩⟩
  ramNodes := ⟨fun _ => false, fun _ => ⟨.file, [], none, none, none, 0, fun _ => 0⟩⟩
  mounts := []
  root := some 0
  cwd := some 0

/-- The table when the clusters up to `last` are the ends of chains. -/
def endTable (last c : Nat) : Nat := if c ≤ last then fat32Eoc else 0

section Volume

variable {last cluster size : Nat} {raw : RawDirent}

theorem endTable_lt (last c : Nat) : endTable last c < 268435456 := by
  rw [endTable, fat32Eoc]
  split <;> omega

theorem endVol_geometry : Geometry (blankVol 1 1 8 (endTable last)) :=
  blankVol_geometry (by decide) (by decide) (by decide) (by decide)

theorem endVol_chain {c : Nat} (hlow : 2 ≤ c) (hc : c ≤ 9) (hend : c ≤ last) :
    (blankVol 1 1 8 (endTable last)).Chain c [c] :=
  blankVol_chain (by decide) (by decide) hlow hc (endTable_lt last c)
    (by rw [endTable, if_pos hend])

theorem oneVol_written (hlast : 2 ≤ last) (raw : RawDirent) :
    SlotsWritten (blankVol 1 1 8 (endTable last)) [2]
      (((blankVol 1 1 8 (endTable last)).raws [2]).set 0 raw) (oneVol (endTable last) raw) := by
  have hlen : 0 < ((blankVol 1 1 8 (endTable last)).raws [2]).length := by
    rw [Vol.raws_length]
    exact Nat.mul_pos Nat.one_pos endVol_geometry.slotsPerCluster_pos
  obtain ⟨v', hrun, _, hw⟩ := fat32WriteDirEntry_eq endVol_geometry
    (endVol_chain (by decide) (by decide) hlast) hlen raw
  rw [oneVol, hrun]
  exact hw

theorem oneVol_geometry (hlast : 2 ≤ last) : Geometry (oneVol (endTable last) raw) :=
  (oneVol_written hlast raw).shape.geometry endVol_geometry

theorem oneVol_root (hlast : 2 ≤ last) : (oneVol (endTable last) raw).Chain 2 [2] :=
  (oneVol_written hlast raw).chain (endVol_chain (by decide) (by decide) hlast)

/-- Behind the slot of the file there are only end marks. -/
theorem oneVol_raws (hlast : 2 ≤ last) : ∃ rest, (oneVol (endTable last) raw).raws [2] =
    raw :: rest ∧ ∀ r ∈ rest, r.isEnd = true := by
  rw [(oneVol_written hlast raw).raws]
  have hends := @blankVol_raws 1 1 8 (endTable last) [2]
  cases hraws : (blankVol 1 1 8 (endTable last)).raws [2] with
  | nil =>
      have hlen := (blankVol 1 1 8 (endTable last)).raws_length [2]
      rw [hraws] at hlen
      exact absurd hlen.symm
        (Nat.ne_of_gt (Nat.mul_pos Nat.one_pos endVol_geometry.slotsPerCluster_pos))
  | cons head rest =>
      rw [hraws] at hends
      exact ⟨rest, rfl, fun r hr => hends r (List.mem_cons_of_mem _ hr)⟩

theorem oneVol_place (hlast : 2 ≤ last) : (oneVol (endTable last) raw).place [2] 0 = (2, 0) := by
  rw [(oneVol_written hlast raw).shape.place]
  simp [Vol.place, Vol.sectorLba, blankVol, blankFs]

theorem oneVol_data (hlast : 2 ≤ last) {x : Nat} (hx : x ≠ 2) (b : Nat) :
    (oneVol (endTable last) raw).store.data x b = 0 := by
  rw [(oneVol_written hlast raw).data x (by simpa using hx)]
  exact blankVol_data x b

theorem oneVol_next (hlast : 2 ≤ last) {c : Nat} (hc : c ≤ 9) :
    (oneVol (endTable last) raw).store.next c = endTable last c := by
  rw [(oneVol_written hlast raw).next]
  exact blankVol_next (by decide) (by decide) hc (endTable_lt last c)

/-- The file, with the cluster 3 if it has one. -/
theorem oneVol_fileAt {m : List Nat} {w : List UInt8} (hlast : 2 ≤ last)
    (hm : (oneVol (endTable last) raw).Holds raw.cluster m) (hapart : 2 ∉ m)
    (hroom : w.length ≤ m.length * 512) (hw : w = List.replicate raw.fileSize 0) :
    (oneVol (endTable last) raw).FileAt 2 (oneHit raw).entryIndex [2] m (oneHit raw).raw w where
  geometry := oneVol_geometry hlast
  dir := oneVol_root hlast
  slot := by
    obtain ⟨rest, hraws, _⟩ := @oneVol_raws last raw hlast
    rw [hraws]
    rfl
  chain := hm
  apart x hx := by
    rw [List.mem_singleton.mp hx]
    exact hapart
  room := by
    rw [Vol.room, (oneVol_written hlast raw).shape.clusterBytes]
    exact hroom
  bytes := by
    have hlen : raw.fileSize ≤ m.length * 512 := by
      rwa [hw, List.length_replicate] at hroom
    rw [hw]
    refine List.ext_getElem (by simp [oneHit]) fun j hj _ => ?_
    rw [List.getElem_replicate, List.getElem_map, List.getElem_range, Vol.bytes,
      (oneVol_written hlast raw).shape.clusterBytes]
    have hdiv : j / (blankVol 1 1 8 (endTable last)).clusterBytes < m.length := by
      apply Nat.div_lt_of_lt_mul
      rw [List.length_replicate] at hj
      rw [Nat.mul_comm]
      exact Nat.lt_of_lt_of_le hj hlen
    rw [List.getD_eq_getElem _ _ hdiv, oneVol_data hlast]
    rintro heq
    exact hapart (heq ▸ List.getElem_mem hdiv)

theorem oneRaw_isEntry (cluster size : Nat) : (oneRaw cluster size).isEntry = true := by
  have hfirst : oneRaw cluster size 0 = 65 := rfl
  have hattr : (oneRaw cluster size).attr = 0x20 := rfl
  rw [RawDirent.isEntry, RawDirent.isEnd, RawDirent.isDeleted, RawDirent.isLfn,
    RawDirent.isVolume, hfirst, hattr]
  decide

theorem oneRaw_isDir (cluster size : Nat) : (oneRaw cluster size).isDir = false := by
  have hattr : (oneRaw cluster size).attr = 0x20 := rfl
  rw [RawDirent.isDir, hattr]
  decide

theorem oneVol_listing (hlast : 2 ≤ last) :
    (oneVol (endTable last) (oneRaw cluster size)).listing [2] =
      [oneHit (oneRaw cluster size)] := by
  obtain ⟨rest, hraws, hends⟩ := @oneVol_raws last (oneRaw cluster size) hlast
  have hname : LfnState.init.entryName (oneRaw cluster size) = [65] := by
    have hshort : (oneRaw cluster size).name = 65 :: List.replicate 10 32 :=
      @mkDirent_name (65 :: List.replicate 10 32) (by decide) _ _ _
    rw [LfnState.entryName, hshort]
    decide
  have hsplit : oneRaw cluster size :: rest = [oneRaw cluster size] ++ rest := rfl
  rw [Vol.listing, hraws, hsplit, hitsFrom_append_ends hends, hitsFrom_singleton
    (oneRaw_isEntry cluster size), hitAt, oneVol_place hlast, hname]
  rfl

theorem oneVol_dirAt {o : Owner} {c : Nat} (hlast : 2 ≤ last)
    (h : (oneVol (endTable last) (oneRaw cluster size)).DirAt o c) : o = .root ∧ c = 2 := by
  have hroot : (oneVol (endTable last) (oneRaw cluster size)).fs.rootCluster = 2 :=
    (oneVol_written hlast (oneRaw cluster size)).shape.rootCluster
  induction h with
  | root => exact ⟨rfl, hroot⟩
  | sub _ hchain hmem _ hisDir ih =>
      obtain ⟨_, rfl⟩ := ih
      rw [(oneVol_geometry hlast).chain_unique hchain (oneVol_root hlast), oneVol_listing hlast,
        List.mem_singleton] at hmem
      rw [hmem, oneHit, oneRaw_isDir] at hisDir
      cases hisDir

theorem oneVol_lists {c : Nat} {hit : DirHit} (hlast : 2 ≤ last)
    (h : (oneVol (endTable last) (oneRaw cluster size)).Lists c hit) :
    c = 2 ∧ hit = oneHit (oneRaw cluster size) := by
  obtain ⟨⟨o, hdir⟩, l, hchain, hmem⟩ := h
  obtain ⟨_, rfl⟩ := oneVol_dirAt hlast hdir
  rw [(oneVol_geometry hlast).chain_unique hchain (oneVol_root hlast), oneVol_listing hlast] at hmem
  exact ⟨rfl, List.mem_singleton.mp hmem⟩

theorem oneVol_headAt {o : Owner} {c : Nat} (hlast : 2 ≤ last)
    (h : (oneVol (endTable last) (oneRaw cluster size)).HeadAt o c) :
    (o = .root ∧ c = 2) ∨
      (o = .entry 2 0 ∧ c = (oneRaw cluster size).cluster ∧ c ≠ 0) := by
  cases h with
  | root => exact Or.inl ⟨rfl, (oneVol_written hlast (oneRaw cluster size)).shape.rootCluster⟩
  | entry hlists _ hzero =>
      obtain ⟨rfl, rfl⟩ := oneVol_lists hlast hlists
      exact Or.inr ⟨rfl, rfl, hzero⟩

theorem oneVol_wellFormed {m : List Nat} (hlast : 2 ≤ last)
    (hm : (oneVol (endTable last) (oneRaw cluster size)).Holds (oneRaw cluster size).cluster m)
    (hapart : 2 ∉ m) : WellFormed (oneVol (endTable last) (oneRaw cluster size)) where
  geometry := oneVol_geometry hlast
  chains o c h := by
    rcases oneVol_headAt hlast h with ⟨_, rfl⟩ | ⟨_, rfl, hzero⟩
    · exact ⟨[2], oneVol_root hlast⟩
    · exact ⟨m, hm.chain_of_ne_zero hzero⟩
  apart := by
    have hwhich : ∀ {o x}, (oneVol (endTable last) (oneRaw cluster size)).Owns o x →
        (o = .root ∧ x = 2) ∨ (o = .entry 2 0 ∧ x ∈ m) := by
      rintro o x ⟨c, l, hhead, hchain, hx⟩
      rcases oneVol_headAt hlast hhead with ⟨ho, rfl⟩ | ⟨ho, rfl, hzero⟩
      · rw [(oneVol_geometry hlast).chain_unique hchain (oneVol_root hlast)] at hx
        exact Or.inl ⟨ho, List.mem_singleton.mp hx⟩
      · rw [(oneVol_geometry hlast).chain_unique hchain (hm.chain_of_ne_zero hzero)] at hx
        exact Or.inr ⟨ho, hx⟩
    intro a b x ha hb
    rcases hwhich ha with ⟨rfl, rfl⟩ | ⟨rfl, hxm⟩
    · rcases hwhich hb with ⟨rfl, _⟩ | ⟨_, hin⟩
      · rfl
      · exact absurd hin hapart
    · rcases hwhich hb with ⟨_, rfl⟩ | ⟨rfl, _⟩
      · exact absurd hxm hapart
      · rfl
  clean d l := by
    rintro ⟨o, hdir⟩ hchain
    obtain ⟨_, rfl⟩ := oneVol_dirAt hlast hdir
    obtain ⟨rest, hraws, hends⟩ := @oneVol_raws last (oneRaw cluster size) hlast
    rw [(oneVol_geometry hlast).chain_unique hchain (oneVol_root hlast), hraws]
    exact CleanTail.append_ends (List.pairwise_singleton _ _) hends
  dirClusters d hit hlists hisDir := by
    obtain ⟨_, rfl⟩ := oneVol_lists hlast hlists
    rw [oneHit, oneRaw_isDir] at hisDir
    cases hisDir

theorem oneVol_openOn (hlast : 2 ≤ last) (hc : (oneRaw cluster size).cluster = cluster)
    (hs : (oneRaw cluster size).fileSize = size) :
    (oneKernel (endTable last) cluster size).OpenOn 1 1 [2] (oneHit (oneRaw cluster size)) where
  data := rfl
  type := rfl
  node :=
    { place := by
        change ((oneKernel (endTable last) cluster size).fatNodes.slot 1).At
          (oneVol (endTable last) (oneRaw cluster size)) [2] 0
        rw [Fat32Node.At, oneVol_place hlast]
        exact ⟨rfl, rfl⟩
      cluster := hc.symm
      size := hs.symm }

end Volume

end OsAgentLab
