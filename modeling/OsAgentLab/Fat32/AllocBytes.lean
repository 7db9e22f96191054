/-
`fat32_alloc_cluster` byte by byte: it takes a cluster whose entry is 0 whenever there is
one, and changes the entry in the copies and the sectors of that cluster only.
-/
import OsAgentLab.Fat32.TableBytes

namespace OsAgentLab

/-- The address of sector `s` of the cluster `c`, as `fat32_zero_cluster` has it. -/
def Vol.dataAddr (v : Vol) (c s : Nat) : Nat := u32 (fat32ClusterToLba v.fs c + s)

/-- A cluster of the volume. -/
def Vol.HasCluster (v : Vol) (c : Nat) : Prop := 2 ≤ c ∧ c ≤ v.fs.clusterCount + 1

/-- The FAT copies and the data region do not overlap, and the device serves both. -/
structure VolumeRegions (v : Vol) : Prop where
  fat : FatCopies v
  count : v.fs.clusterCount < 0x0FFFFFF5
  apart : ∀ k < v.fs.numFats, ∀ j < v.fs.sectorsPerFat, ∀ c, v.HasCluster c →
    ∀ s < v.fs.sectorsPerCluster, v.fatAddr k j ≠ v.dataAddr c s
  served : ∀ c, v.HasCluster c → ∀ s < v.fs.sectorsPerCluster,
    v.disk.served (v.dataAddr c s) = true

/-- The cluster `c` has been taken: end-of-chain mark in every copy, sectors cleared, the
hint behind it, and everything else as before. -/
structure ClusterTaken (v : Vol) (c : Nat) (v' : Vol) : Prop where
  fs : v'.fs = { v.fs with allocHint := u32 (c + 1) }
  served : v'.disk.served = v.disk.served
  entry : ∀ k < v.fs.numFats, v'.copyEntry k c = fat32Eoc
  zero : ∀ s < v.fs.sectorsPerCluster, ∀ off, v'.disk.sectors (v.dataAddr c s) off = 0
  keep : ∀ lba off, ¬ v.InEntry c lba off → (∀ s < v.fs.sectorsPerCluster, lba ≠ v.dataAddr c s) →
    v'.disk.sectors lba off = v.disk.sectors lba off

variable {v : Vol} {c : Nat}

/-- The sectors with the first `n` sectors of the cluster cleared. -/
def Vol.sectorsZeroed (v : Vol) (c n : Nat) (lba : Nat) : Sector :=
  if ∃ s < n, lba = v.dataAddr c s then fun _ => 0 else v.disk.sectors lba

def Vol.zeroed (v : Vol) (c n : Nat) : Vol :=
  { v with disk := { v.disk with sectors := v.sectorsZeroed c n } }

theorem Vol.zeroed_succ (v : Vol) (c n : Nat) :
    (v.zeroed c n).putSector (v.dataAddr c n) (fun _ => 0) = v.zeroed c (n + 1) := by
  have hsectors : (fun lba => if lba = v.dataAddr c n then fun _ => 0
      else v.sectorsZeroed c n lba) = v.sectorsZeroed c (n + 1) := by
    funext lba
    rw [sectorsZeroed, sectorsZeroed]
    by_cases hhere : lba = v.dataAddr c n
    · rw [if_pos hhere, if_pos ⟨n, Nat.lt_succ_self n, hhere⟩]
    · rw [if_neg hhere]
      simp only [Nat.exists_lt_succ_right, hhere, or_false]
  rw [putSector, zeroed, zeroed, ← hsectors]

/-- `fat32_zero_cluster` clears the sectors of the cluster and nothing else. -/
theorem fat32ZeroCluster_bytes
    (hserved : ∀ s < v.fs.sectorsPerCluster, v.disk.served (v.dataAddr c s) = true) :
    fat32ZeroCluster c v = (.ok (), v.zeroed c v.fs.sectorsPerCluster) := by
  have hstart : v.zeroed c 0 = v := by
    have hsectors : v.sectorsZeroed c 0 = v.disk.sectors := by
      funext lba
      rw [Vol.sectorsZeroed, if_neg (by simp)]
    rw [Vol.zeroed, hsectors]
  rw [fat32ZeroCluster, Prog.bind_ok (show getFs v = (.ok v.fs, v) from rfl)]
  obtain ⟨v', hrun, rfl⟩ := Prog.forCount_inv
    (fun s => Prog.orElse
      (blkWrite (u32 (fat32ClusterToLba v.fs c + s)) fun _ => 0) Errno.io)
    (fun n mid => v.zeroed c n = mid) v.fs.sectorsPerCluster 0 v hstart
    (by
      rintro s mid - hs rfl
      rw [Nat.zero_add] at hs
      have hlba : (v.zeroed c s).disk.served (v.dataAddr c s) = true := hserved s hs
      exact ⟨_, Prog.orElse_ok (blkWrite_served _ hlba) Errno.io, (v.zeroed_succ c s).symm⟩)
  rw [Nat.zero_add] at hrun
  exact hrun

theorem Vol.HasCluster.mul_lt (hcount : v.fs.clusterCount < 0x0FFFFFF5) (h : v.HasCluster c) :
    c * 4 < 4294967296 := by
  have hle := h.2
  omega

/-- The end-of-chain mark fills the whole entry. -/
theorem le32_putFatValue_eoc (sector : Sector) (off : Nat) :
    le32 (putFatValue sector off fat32Eoc) off = fat32Eoc := by
  have hbyte : ∀ i < 4, putFatValue sector off fat32Eoc (off + i) =
      if i = 3 then byteOf fat32Eoc 3 &&& 0x0F else byteOf fat32Eoc i := by
    intro i hi
    rw [putFatValue, overlay_of_mem (by omega), Nat.add_sub_cancel_left]
  have h0 := hbyte 0 (by decide)
  rw [Nat.add_zero] at h0
  rw [le32, h0, hbyte 1 (by decide), hbyte 2 (by decide), hbyte 3 (by decide)]
  decide

/-- A free cluster is marked, cleared and remembered. -/
theorem clusterTaken_of_writes (r : VolumeRegions v) (hc : v.HasCluster c) :
    ClusterTaken v c
      { (v.withCopies c fat32Eoc v.fs.numFats).zeroed c v.fs.sectorsPerCluster with
        fs := { v.fs with allocHint := u32 (c + 1) } } := by
  have hfits := r.fat.fits
  have hle := hc.2
  have hdata : ∀ lba off, (∀ s < v.fs.sectorsPerCluster, lba ≠ v.dataAddr c s) →
      ((v.withCopies c fat32Eoc v.fs.numFats).zeroed c v.fs.sectorsPerCluster).disk.sectors lba
        off = (v.withCopies c fat32Eoc v.fs.numFats).disk.sectors lba off := by
    intro lba off hout
    change (v.withCopies c fat32Eoc v.fs.numFats).sectorsZeroed c v.fs.sectorsPerCluster lba off = _
    rw [Vol.sectorsZeroed, if_neg fun ⟨s, hs, heq⟩ => hout s hs heq]
  refine ⟨rfl, rfl, fun k hk => ?_, fun s hs off => ?_, fun lba off hentry hout => ?_⟩
  · have hidx : c * 4 / 512 < v.fs.sectorsPerFat := by omega
    change le32 (((v.withCopies c fat32Eoc v.fs.numFats).zeroed c
      v.fs.sectorsPerCluster).disk.sectors (v.fatAddr k (c * 4 / 512))) (c * 4 % 512) = fat32Eoc
    refine Eq.trans (le32_congr fun i hi => ?_) (le32_putFatValue_eoc
      (v.disk.sectors (v.fatAddr k (c * 4 / 512))) (c * 4 % 512))
    rw [hdata _ _ fun s hs => r.apart k hk _ hidx c hc s hs]
    exact Vol.withCopies_in ⟨k, hk, rfl, by omega, by omega⟩
  · change (v.withCopies c fat32Eoc v.fs.numFats).sectorsZeroed c v.fs.sectorsPerCluster _ off = 0
    rw [Vol.sectorsZeroed, if_pos ⟨s, hs, rfl⟩]
  · change ((v.withCopies c fat32Eoc v.fs.numFats).zeroed c v.fs.sectorsPerCluster).disk.sectors
      lba off = _
    rw [hdata lba off hout]
    exact Vol.withCopies_out hentry

/-- One pass of the search takes a cluster or has seen none with entry 0. -/
theorem fat32AllocPass_bytes (r : VolumeRegions v) {count first : Nat} (hlow : 2 ≤ first)
    (hhigh : first + count ≤ v.fs.clusterCount + 2) :
    (∃ c v', fat32AllocPass count first v = (.ok (some c), v') ∧ v.HasCluster c ∧
      v.fatLink c = 0 ∧ ClusterTaken v c v') ∨
    (fat32AllocPass count first v = (.ok none, v) ∧
      ∀ x, first ≤ x → x < first + count → v.fatLink x ≠ 0) := by
  induction count generalizing first with
  | zero => exact Or.inr ⟨rfl, fun x _ _ => by omega⟩
  | succ count ih =>
      have hc : v.HasCluster first := ⟨hlow, by omega⟩
      have hmul := hc.mul_lt r.count
      have hfits := r.fat.fits
      have hserved : ∀ k < v.fs.numFats, v.disk.served (v.fatAddr k (first * 4 / 512)) = true :=
        fun k hk => r.fat.served k hk _ (by omega)
      have hread : fat32ReadFatEntry first v = (.ok (v.fatLink first), v) :=
        fat32ReadFatEntry_bytes r.fat.bytes hmul (hserved 0 r.fat.copies)
      rw [fat32AllocPass, Prog.bind_ok (Prog.orElse_ok hread Errno.io)]
      by_cases hfree : v.fatLink first = 0
      · -- mark the cluster, clear it, and move the hint
        have hmark : fat32WriteFatEntry first fat32Eoc v =
            (.ok (), v.withCopies first fat32Eoc v.fs.numFats) :=
          fat32WriteFatEntry_bytes r.fat.bytes hmul hserved
        have hzero : fat32ZeroCluster first (v.withCopies first fat32Eoc v.fs.numFats) =
            (.ok (), (v.withCopies first fat32Eoc v.fs.numFats).zeroed first
              v.fs.sectorsPerCluster) :=
          fat32ZeroCluster_bytes fun s hs => r.served first hc s hs
        refine Or.inl ⟨first, _, ?_, hc, hfree, clusterTaken_of_writes r hc⟩
        rw [if_pos hfree, Prog.bind_ok (Prog.orElse_ok hmark _),
          Prog.bind_ok (Prog.orElse_ok hzero _)]
        rfl
      · rw [if_neg hfree]
        rcases @ih (first + 1) (by omega) (by omega) with hsome | ⟨hrun, hnone⟩
        · exact Or.inl hsome
        · refine Or.inr ⟨hrun, fun x hx hlt => ?_⟩
          rcases Nat.eq_or_lt_of_le hx with rfl | hx
          · exact hfree
          · exact hnone x hx (by omega)

/-- The two passes of `fat32_alloc_cluster`. -/
theorem fat32AllocCluster_cases (r : VolumeRegions v) :
    (∃ c v', fat32AllocCluster v = (.ok c, v') ∧ v.HasCluster c ∧ v.fatLink c = 0 ∧
      ClusterTaken v c v') ∨
    (fat32AllocCluster v = (.err .nospc, v) ∧ ∀ x, v.HasCluster x → v.fatLink x ≠ 0) := by
  have hcount := r.count
  have hmax : u32 (v.fs.clusterCount + 1) = v.fs.clusterCount + 1 := u32_of_lt (by omega)
  have hmax_ne : v.fs.clusterCount + 1 ≠ 4294967295 := by omega
  rw [fat32AllocCluster, Prog.bind_ok (show getFs v = (.ok v.fs, v) from rfl)]
  simp only [hmax, hmax_ne, ↓reduceIte]
  generalize hstart : (if v.fs.allocHint < fat32MinCluster then fat32MinCluster
    else v.fs.allocHint) = start
  have hlow : 2 ≤ start := by
    rw [← hstart]
    by_cases hhint : v.fs.allocHint < fat32MinCluster
    · rw [if_pos hhint]
      exact Nat.le_refl 2
    · rw [if_neg hhint]
      exact Nat.le_of_not_lt hhint
  -- a hint behind the last cluster makes the first pass empty
  have hfirst : (∃ c v', fat32AllocPass (v.fs.clusterCount + 1 + 1 - start) start v =
        (.ok (some c), v') ∧ v.HasCluster c ∧ v.fatLink c = 0 ∧ ClusterTaken v c v') ∨
      fat32AllocPass (v.fs.clusterCount + 1 + 1 - start) start v = (.ok none, v) := by
    by_cases hle : start ≤ v.fs.clusterCount + 2
    · rcases fat32AllocPass_bytes r hlow
        (show start + (v.fs.clusterCount + 1 + 1 - start) ≤ v.fs.clusterCount + 2 by omega)
        with hsome | ⟨hnone, -⟩
      · exact Or.inl hsome
      · exact Or.inr hnone
    · rw [show v.fs.clusterCount + 1 + 1 - start = 0 by omega]
      exact Or.inr rfl
  rcases hfirst with ⟨c, v', hrun, htaken⟩ | hrun
  · refine Or.inl ⟨c, v', ?_, htaken⟩
    rw [Prog.bind_ok hrun]
    rfl
  · rw [Prog.bind_ok hrun]
    simp only [fat32MinCluster]
    rcases fat32AllocPass_bytes r (Nat.le_refl 2)
        (show 2 + (v.fs.clusterCount + 1 + 1 - 2) ≤ v.fs.clusterCount + 2 by omega)
        with ⟨c, v', hrun', htaken⟩ | ⟨hrun', hnone⟩
    · refine Or.inl ⟨c, v', ?_, htaken⟩
      rw [Prog.bind_ok hrun']
      rfl
    · refine Or.inr ⟨?_, fun x hx => hnone x hx.1 ?_⟩
      · rw [Prog.bind_ok hrun']
        rfl
      · have hle := hx.2
        omega

/-- `fat32_alloc_cluster` takes a free cluster if there is one, whatever the hint, and
reports a full volume otherwise. -/
theorem fat32AllocCluster_complete (r : VolumeRegions v) :
    ((∃ c, v.HasCluster c ∧ v.fatLink c = 0) → ∃ c v', fat32AllocCluster v = (.ok c, v') ∧
      v.HasCluster c ∧ v.fatLink c = 0 ∧ ClusterTaken v c v') ∧
    ((¬ ∃ c, v.HasCluster c ∧ v.fatLink c = 0) → fat32AllocCluster v = (.err .nospc, v)) := by
  rcases fat32AllocCluster_cases r with ⟨c, v', hrun, hin, hfree, htaken⟩ | ⟨hrun, hnone⟩
  · exact ⟨fun _ => ⟨c, v', hrun, hin, hfree, htaken⟩, fun h => absurd ⟨c, hin, hfree⟩ h⟩
  · exact ⟨fun ⟨c, hin, hfree⟩ => absurd hfree (hnone c hin), fun _ => hrun⟩

/-- A volume of two clusters, the first one in use. -/
def twoClusters : Vol where
  disk :=
    { sectors := fun lba off => if lba = 32 ∧ off < 12 then 255 else 0
      served := fun _ => true }
  fs :=
    { partLba := 0
      fatLba := 32
      dataLba := 34
      reservedSectors := 32
      totalSectors := 36
      sectorsPerFat := 1
      numFats := 2
      clusterCount := 2
      sectorsPerCluster := 1
      bytesPerSector := 512
      rootCluster := 2
      allocHint := 4 }

theorem twoClusters_regions : VolumeRegions twoClusters where
  fat :=
    { bytes := rfl
      copies := by decide
      fits := by decide
      apart := fun k hk j hj k' hk' j' hj' heq => by
        simp only [Vol.fatAddr, twoClusters, u32] at *
        omega
      served := fun _ _ _ _ => rfl }
  count := by decide
  apart := fun k hk j hj c hc s hs heq => by
    obtain ⟨hlow, hhigh⟩ := hc
    simp only [Vol.fatAddr, Vol.dataAddr, fat32ClusterToLba, twoClusters, u32] at *
    omega
  served _ _ _ _ := rfl

theorem fat32AllocCluster_complete_two :
    ∃ c v', fat32AllocCluster twoClusters = (.ok c, v') ∧ twoClusters.HasCluster c ∧
      twoClusters.fatLink c = 0 ∧ ClusterTaken twoClusters c v' :=
  (fat32AllocCluster_complete twoClusters_regions).1 ⟨3, ⟨by decide, by decide⟩, by decide⟩

end OsAgentLab
