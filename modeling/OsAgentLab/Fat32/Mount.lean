/-
`fat32_mount`: the geometry that it computes from the partition table and the
boot sector, and which boot sectors make that geometry sound.
-/
import OsAgentLab.Fat32.Store

namespace OsAgentLab

section Mount

/-- `memset(fs, 0, sizeof(*fs))`. -/
def Fat32Fs.zero : Fat32Fs := ⟨0, 0, 0, 0, 0, 0, 0, 0, 0, 0, 0, 0⟩

/-- A partition type of FAT32: `FAT32_TYPE_0B` or `FAT32_TYPE_0C`. -/
def isFat32Type (type : UInt8) : Bool := type = 0x0B || type = 0x0C

/-- `part_lba` and `part_sectors`: the first FAT32 entry of the partition table. -/
def mbrPartition (mbr : Sector) : Nat × Nat :=
  ((List.range 4).find? fun i => isFat32Type (mbr (446 + 16 * i + 4))).elim (0, 0) fun i =>
    (le32 mbr (446 + 16 * i + 8), le32 mbr (446 + 16 * i + 12))

/-- `total_sectors` and `sectors_per_fat`: the 16-bit field, or the 32-bit one when
that is zero. -/
def bpbTotal (bpb : Sector) : Nat := if le16 bpb 19 = 0 then le32 bpb 32 else le16 bpb 19

def bpbPerFat (bpb : Sector) : Nat := if le16 bpb 22 = 0 then le32 bpb 36 else le16 bpb 22

/-- `data_sectors`, with the wrap-around of the two subtractions. -/
def bpbDataSectors (bpb : Sector) : Nat :=
  u32 (bpbTotal bpb + 8589934592 - le16 bpb 14 - u32 ((bpb 16).toNat * bpbPerFat bpb))

/-- The fields of `fs` behind the boot sector `bpb` at `partLba`.  The division by
zero sectors per cluster is not reached in the code. -/
def bpbFs (partLba : Nat) (bpb : Sector) : Fat32Fs :=
  let fatLba := u32 (partLba + le16 bpb 14)
  { partLba := partLba
    fatLba := fatLba
    dataLba := u32 (fatLba + u32 ((bpb 16).toNat * bpbPerFat bpb))
    reservedSectors := le16 bpb 14
    totalSectors := bpbTotal bpb
    sectorsPerFat := bpbPerFat bpb
    numFats := (bpb 16).toNat
    clusterCount := bpbDataSectors bpb / (bpb 13).toNat
    sectorsPerCluster := (bpb 13).toNat
    bytesPerSector := le16 bpb 11
    rootCluster := le32 bpb 44
    allocHint := fat32MinCluster }

/-- `fat32_mount`; the return value `-1` is `-EPERM`. -/
def fat32Mount : Fs Unit := do
  Prog.modify fun v => { v with fs := .zero }
  let mbr ← Prog.orElse (blkRead 0) .perm
  if le16 mbr 510 ≠ 0xAA55 then Prog.fail .perm
  else if (mbrPartition mbr).1 = 0 ∨ (mbrPartition mbr).2 = 0 then Prog.fail .perm
  else do
    let bpb ← Prog.orElse (blkRead (mbrPartition mbr).1) .perm
    Prog.modify fun v => { v with fs := bpbFs (mbrPartition mbr).1 bpb }
    if bpb 13 = 0 then Prog.fail .perm
    else if le16 bpb 11 ≠ 512 ∨ bpb 13 = 0 then Prog.fail .perm
    else pure ()

end Mount

section Sound

/-- The place of the entry `c` in the FAT copy `copy`, as `fat32_read_fat_entry`
and `fat32_write_fat_entry` compute it: sector and offset. -/
def fatEntryPlace (fs : Fat32Fs) (copy c : Nat) : Nat × Nat :=
  (u32 (fs.fatLba + u32 (copy * fs.sectorsPerFat) + u32 (c * 4) / fs.bytesPerSector),
    u32 (c * 4) % fs.bytesPerSector)

/-- Sector `s` of the cluster `c`, as the code computes it. -/
def clusterSector (fs : Fat32Fs) (c s : Nat) : Nat := u32 (fat32ClusterToLba fs c + s)

/-- A sound geometry for the partition of `sectors` sectors at `fs.partLba`:
nothing wraps, and all places that the code computes for the clusters of the
volume lie where they belong. -/
structure SoundGeometry (fs : Fat32Fs) (sectors : Nat) : Prop where
  fatLba : fs.fatLba = fs.partLba + fs.reservedSectors
  fats : fs.numFats * fs.sectorsPerFat < 4294967296
  dataLba : fs.dataLba = fs.fatLba + fs.numFats * fs.sectorsPerFat
  data_le : fs.reservedSectors + fs.numFats * fs.sectorsPerFat ≤ fs.totalSectors
  fats_pos : 1 ≤ fs.numFats
  root : 2 ≤ fs.rootCluster ∧ fs.rootCluster ≤ fs.clusterCount + 1
  entry : ∀ c, 2 ≤ c → c ≤ fs.clusterCount + 1 → ∀ copy, copy < fs.numFats →
    fatEntryPlace fs copy c =
        (fs.fatLba + copy * fs.sectorsPerFat + c * 4 / 512, c * 4 % 512) ∧
      c * 4 / 512 < fs.sectorsPerFat
  inside : ∀ c, 2 ≤ c → c ≤ fs.clusterCount + 1 → ∀ s, s < fs.sectorsPerCluster →
    fs.fatLba + fs.numFats * fs.sectorsPerFat ≤ clusterSector fs c s ∧
      clusterSector fs c s < fs.partLba + sectors
  apart : ∀ c c', 2 ≤ c → c ≤ fs.clusterCount + 1 → 2 ≤ c' → c' ≤ fs.clusterCount + 1 →
    c ≠ c' → ∀ s s', s < fs.sectorsPerCluster → s' < fs.sectorsPerCluster →
      clusterSector fs c s ≠ clusterSector fs c' s'

/-- The sectors in front of the data region. -/
def bpbFront (bpb : Sector) : Nat := le16 bpb 14 + (bpb 16).toNat * bpbPerFat bpb

/-- The clusters that fit behind them. -/
def bpbClusters (bpb : Sector) : Nat := (bpbTotal bpb - bpbFront bpb) / (bpb 13).toNat

/-- The boot sector agrees with itself and with the partition entry. -/
structure BpbAgrees (partLba sectors : Nat) (bpb : Sector) : Prop where
  fats_pos : 1 ≤ (bpb 16).toNat
  front_le : bpbFront bpb ≤ bpbTotal bpb
  root : 2 ≤ le32 bpb 44 ∧ le32 bpb 44 ≤ bpbClusters bpb + 1
  table : bpbClusters bpb + 2 ≤ 128 * bpbPerFat bpb
  numbers : bpbClusters bpb + 1 < 1073741824
  partition : bpbFront bpb + bpbClusters bpb * (bpb 13).toNat ≤ sectors
  addresses : partLba + bpbFront bpb + bpbClusters bpb * (bpb 13).toNat ≤ 4294967296

variable {partLba sectors : Nat} {bpb : Sector}

theorem bpbTotal_lt (bpb : Sector) : bpbTotal bpb < 4294967296 := by
  have h16 := le16_lt bpb 19
  have h32 := le32_lt bpb 32
  unfold bpbTotal
  split
  · exact h32
  · omega

theorem u32_add_u32 (a b : Nat) : u32 (a + u32 b) = u32 (a + b) := by
  simp only [u32, Nat.add_mod_mod]

theorem u32_u32_add (a b : Nat) : u32 (u32 a + b) = u32 (a + b) := by
  simp only [u32, Nat.mod_add_mod]

/-- The number of clusters when the front part fits. -/
theorem bpbFs_clusterCount (hfront : bpbFront bpb ≤ bpbTotal bpb) :
    (bpbFs partLba bpb).clusterCount = bpbClusters bpb := by
  have htotal := bpbTotal_lt bpb
  have hdata : bpbDataSectors bpb = bpbTotal bpb - bpbFront bpb := by
    unfold bpbDataSectors bpbFront at *
    rw [u32_of_lt (show (bpb 16).toNat * bpbPerFat bpb < 4294967296 by omega)]
    unfold u32
    omega
  exact congrArg (· / (bpb 13).toNat) hdata

/-- The addresses when nothing wraps. -/
theorem bpbFs_addresses (hfront : partLba + bpbFront bpb < 4294967296) :
    (bpbFs partLba bpb).fatLba = partLba + le16 bpb 14 ∧
      (bpbFs partLba bpb).dataLba = partLba + bpbFront bpb := by
  unfold bpbFront at hfront
  constructor
  · exact u32_of_lt (by omega)
  · change u32 (u32 (partLba + le16 bpb 14) + u32 ((bpb 16).toNat * bpbPerFat bpb)) = _
    rw [u32_add_u32, u32_u32_add, u32_of_lt (by omega), bpbFront, Nat.add_assoc]

/-- The sector of a cluster, with the wrap-around at its end only. -/
theorem clusterSector_eq {fs : Fat32Fs} {c s : Nat} (hlow : 2 ≤ c) (hhigh : c ≤ 4294967296) :
    clusterSector fs c s = u32 (fs.dataLba + (c - 2) * fs.sectorsPerCluster + s) := by
  have hsub : u32 (c + 4294967294) = c - 2 := by
    unfold u32
    omega
  unfold clusterSector fat32ClusterToLba
  rw [hsub, u32_add_u32, u32_u32_add]

/-- Cluster sectors below the end of the data region. -/
theorem data_sector_lt {n spc c s : Nat} (hlow : 2 ≤ c) (hhigh : c ≤ n + 1) (hs : s < spc) :
    (c - 2) * spc + s < n * spc := by
  have hmul := Nat.mul_le_mul_right spc (show c - 2 + 1 ≤ n by omega)
  rw [Nat.succ_mul] at hmul
  omega

theorem data_sector_ne {spc c c' s s' : Nat} (hlow : 2 ≤ c) (hlow' : 2 ≤ c') (hne : c ≠ c')
    (hs : s < spc) (hs' : s' < spc) : (c - 2) * spc + s ≠ (c' - 2) * spc + s' := by
  rcases Nat.lt_or_gt_of_ne hne with hlt | hlt
  · have hmul := Nat.mul_le_mul_right spc (show c - 2 + 1 ≤ c' - 2 by omega)
    rw [Nat.succ_mul] at hmul
    omega
  · have hmul := Nat.mul_le_mul_right spc (show c' - 2 + 1 ≤ c - 2 by omega)
    rw [Nat.succ_mul] at hmul
    omega

theorem BpbAgrees.sound (h : BpbAgrees partLba sectors bpb) (hbytes : le16 bpb 11 = 512) :
    SoundGeometry (bpbFs partLba bpb) sectors := by
  have htotal := bpbTotal_lt bpb
  have hcount : (bpbFs partLba bpb).clusterCount = bpbClusters bpb :=
    bpbFs_clusterCount h.front_le
  have hpos : 1 ≤ bpbClusters bpb := by
    have := h.root
    omega
  have hspc : 1 ≤ (bpb 13).toNat := by
    by_contra hzero
    have hdiv : bpbClusters bpb = 0 := by
      unfold bpbClusters
      rw [show (bpb 13).toNat = 0 by omega, Nat.div_zero]
    omega
  have hroom : 1 ≤ bpbClusters bpb * (bpb 13).toNat := Nat.mul_pos hpos hspc
  have hfront : partLba + bpbFront bpb < 4294967296 := by
    have := h.addresses
    omega
  obtain ⟨hfat, hdata⟩ := bpbFs_addresses hfront
  have hsector : ∀ c s, 2 ≤ c → c ≤ bpbClusters bpb + 1 → s < (bpb 13).toNat →
      clusterSector (bpbFs partLba bpb) c s =
        partLba + bpbFront bpb + ((c - 2) * (bpb 13).toNat + s) := by
    intro c s hlow hhigh hs
    have hlt := data_sector_lt hlow hhigh hs
    have hend := h.addresses
    have hnum := h.numbers
    rw [clusterSector_eq hlow (by omega), hdata, ← Nat.add_assoc]
    exact u32_of_lt (by change _ + (c - 2) * (bpb 13).toNat + s < _; omega)
  refine
    { fatLba := hfat
      fats := ?_
      dataLba := ?_
      data_le := h.front_le
      fats_pos := h.fats_pos
      root := hcount ▸ h.root
      entry := ?_
      inside := ?_
      apart := ?_ }
  · have hle := h.front_le
    unfold bpbFront at hle
    change (bpb 16).toNat * bpbPerFat bpb < 4294967296
    omega
  · rw [hdata, hfat, bpbFront, ← Nat.add_assoc]
    rfl
  · intro c hlow hhigh copy hcopy
    rw [hcount] at hhigh
    have hnum := h.numbers
    have htable := h.table
    have hidx : c * 4 / 512 < bpbPerFat bpb := by omega
    have hmul := Nat.mul_le_mul_right (bpbPerFat bpb) (Nat.succ_le_of_lt hcopy)
    rw [Nat.succ_mul] at hmul
    change copy * bpbPerFat bpb + bpbPerFat bpb ≤ (bpb 16).toNat * bpbPerFat bpb at hmul
    unfold bpbFront at hfront
    refine ⟨?_, hidx⟩
    have hfour : u32 (c * 4) = c * 4 := u32_of_lt (by omega)
    have hoff : u32 (copy * bpbPerFat bpb) = copy * bpbPerFat bpb := u32_of_lt (by omega)
    change (u32 ((bpbFs partLba bpb).fatLba + u32 (copy * bpbPerFat bpb) +
      u32 (c * 4) / le16 bpb 11), u32 (c * 4) % le16 bpb 11) = _
    rw [hbytes, hfour, hoff, hfat, u32_of_lt (by omega)]
    rfl
  · intro c hlow hhigh s hs
    rw [hcount] at hhigh
    have hlt := data_sector_lt hlow hhigh hs
    have hpart := h.partition
    rw [hsector c s hlow hhigh hs, hfat]
    change partLba + le16 bpb 14 + (bpb 16).toNat * bpbPerFat bpb ≤ _ ∧ _ < partLba + sectors
    rw [bpbFront] at *
    constructor
    · omega
    · change (c - 2) * (bpb 13).toNat + s < bpbClusters bpb * (bpb 13).toNat at hlt
      omega
  · intro c c' hlow hhigh hlow' hhigh' hne s s' hs hs' heq
    rw [hcount] at hhigh hhigh'
    rw [hsector c s hlow hhigh hs, hsector c' s' hlow' hhigh' hs'] at heq
    exact data_sector_ne hlow hlow' hne hs hs' (Nat.add_left_cancel heq)

theorem SoundGeometry.agrees (h : SoundGeometry (bpbFs partLba bpb) sectors)
    (hpart : 0 < partLba) (hspc : 1 ≤ (bpb 13).toNat) (hbytes : le16 bpb 11 = 512) :
    BpbAgrees partLba sectors bpb := by
  have htotal := bpbTotal_lt bpb
  have hle : bpbFront bpb ≤ bpbTotal bpb := h.data_le
  have hcount : (bpbFs partLba bpb).clusterCount = bpbClusters bpb := bpbFs_clusterCount hle
  have hroot := h.root
  rw [hcount] at hroot
  change 2 ≤ le32 bpb 44 ∧ le32 bpb 44 ≤ bpbClusters bpb + 1 at hroot
  have hpos : 1 ≤ bpbClusters bpb := by omega
  -- the two address sums do not wrap
  have hfat : u32 (partLba + le16 bpb 14) = partLba + le16 bpb 14 := h.fatLba
  have hdata : (bpbFs partLba bpb).dataLba = partLba + bpbFront bpb := by
    rw [h.dataLba, h.fatLba, bpbFront, ← Nat.add_assoc]
    rfl
  have hfront : partLba + bpbFront bpb < 4294967296 := by
    rw [← hdata]
    exact u32_lt _
  have hroom : bpbClusters bpb * (bpb 13).toNat ≤ bpbTotal bpb - bpbFront bpb :=
    Nat.div_mul_le_self _ _
  have hclusters : bpbClusters bpb ≤ bpbTotal bpb - bpbFront bpb := Nat.div_le_self _ _
  have hsector : ∀ c s, 2 ≤ c → c ≤ bpbClusters bpb + 1 →
      clusterSector (bpbFs partLba bpb) c s =
        u32 (partLba + bpbFront bpb + ((c - 2) * (bpb 13).toNat + s)) := by
    intro c s hlow hhigh
    rw [clusterSector_eq hlow (by omega), hdata, Nat.add_assoc]
    rfl
  have hinside : ∀ c s, 2 ≤ c → c ≤ bpbClusters bpb + 1 → s < (bpb 13).toNat →
      partLba + bpbFront bpb ≤ u32 (partLba + bpbFront bpb + ((c - 2) * (bpb 13).toNat + s)) ∧
        u32 (partLba + bpbFront bpb + ((c - 2) * (bpb 13).toNat + s)) < partLba + sectors := by
    intro c s hlow hhigh hs
    have hin := h.inside c hlow (hcount ▸ hhigh) s hs
    rw [hsector c s hlow hhigh, ← h.dataLba, hdata] at hin
    exact hin
  -- a data region over the end of the addresses would have a sector at address 0
  have haddr : partLba + bpbFront bpb + bpbClusters bpb * (bpb 13).toNat ≤ 4294967296 := by
    by_contra hover
    let t := 4294967296 - (partLba + bpbFront bpb)
    have ht : t < bpbClusters bpb * (bpb 13).toNat := by omega
    have hdiv : t / (bpb 13).toNat < bpbClusters bpb := Nat.div_lt_of_lt_mul (Nat.mul_comm _ _ ▸ ht)
    have hin := (hinside (t / (bpb 13).toNat + 2) (t % (bpb 13).toNat) (Nat.le_add_left 2 _)
      (Nat.succ_le_succ (Nat.succ_le_of_lt hdiv)) (Nat.mod_lt _ hspc)).1
    rw [Nat.add_sub_cancel, Nat.mul_comm, Nat.div_add_mod] at hin
    have hwrap : u32 (partLba + bpbFront bpb + t) = 0 := by
      unfold u32
      omega
    omega
  obtain ⟨hplace, hidx⟩ := h.entry (bpbClusters bpb + 1) (by omega) (le_of_eq (by rw [hcount])) 0
    h.fats_pos
  change (bpbClusters bpb + 1) * 4 / 512 < bpbPerFat bpb at hidx
  refine
    { fats_pos := h.fats_pos
      front_le := hle
      root := hroot
      table := by omega
      numbers := ?_
      partition := ?_
      addresses := haddr }
  · have hlba := congrArg Prod.fst hplace
    change u32 (u32 (partLba + le16 bpb 14) + u32 (0 * bpbPerFat bpb) +
      u32 ((bpbClusters bpb + 1) * 4) / le16 bpb 11) =
        u32 (partLba + le16 bpb 14) + 0 * bpbPerFat bpb + (bpbClusters bpb + 1) * 4 / 512 at hlba
    rw [hbytes, hfat, Nat.zero_mul, u32_of_lt (show 0 < 4294967296 by decide)] at hlba
    unfold u32 at hlba
    omega
  · have hlast : (bpbClusters bpb + 1 - 2) * (bpb 13).toNat + ((bpb 13).toNat - 1) <
        bpbClusters bpb * (bpb 13).toNat := data_sector_lt (by omega) (by omega) (by omega)
    have hin := (hinside (bpbClusters bpb + 1) ((bpb 13).toNat - 1) (by omega) (by omega)
      (by omega)).2
    have hsum : (bpbClusters bpb + 1 - 2) * (bpb 13).toNat + (bpb 13).toNat =
        bpbClusters bpb * (bpb 13).toNat := by
      rw [← Nat.succ_mul]
      congr 1
      omega
    rw [u32_of_lt (by omega)] at hin
    omega

theorem of_blkRead_ok {v v' : Vol} {lba : Nat} {sector : Sector}
    (h : blkRead lba v = (.ok sector, v')) : v.disk.read lba = some sector ∧ v' = v := by
  unfold blkRead at h
  cases hread : v.disk.read lba with
  | none =>
      rw [hread] at h
      cases h
  | some found =>
      rw [hread] at h
      cases h
      exact ⟨rfl, rfl⟩

/-- What `fat32_mount` has read and checked when it returns 0. -/
theorem fat32Mount_ok {v v' : Vol} (h : fat32Mount v = (.ok (), v')) :
    ∃ mbr bpb, v.disk.read 0 = some mbr ∧ 0 < (mbrPartition mbr).1 ∧
      v.disk.read (mbrPartition mbr).1 = some bpb ∧ bpb 13 ≠ 0 ∧ le16 bpb 11 = 512 ∧
      v'.fs = bpbFs (mbrPartition mbr).1 bpb := by
  rw [fat32Mount, Prog.modify_bind] at h
  obtain ⟨mbr, v₁, hmbr, h₁⟩ := Prog.of_bind_ok h
  obtain ⟨hread, rfl⟩ := of_blkRead_ok (Prog.of_orElse_ok hmbr)
  by_cases hsig : le16 mbr 510 ≠ 0xAA55
  · rw [if_pos hsig] at h₁
    cases h₁
  rw [if_neg hsig] at h₁
  by_cases hpart : (mbrPartition mbr).1 = 0 ∨ (mbrPartition mbr).2 = 0
  · rw [if_pos hpart] at h₁
    cases h₁
  rw [if_neg hpart] at h₁
  obtain ⟨bpb, v₂, hbpb, h₂⟩ := Prog.of_bind_ok h₁
  obtain ⟨hread', rfl⟩ := of_blkRead_ok (Prog.of_orElse_ok hbpb)
  rw [Prog.modify_bind] at h₂
  by_cases hspc : bpb 13 = 0
  · rw [if_pos hspc] at h₂
    cases h₂
  rw [if_neg hspc] at h₂
  by_cases hbytes : le16 bpb 11 ≠ 512 ∨ bpb 13 = 0
  · rw [if_pos hbytes] at h₂
    cases h₂
  rw [if_neg hbytes] at h₂
  cases h₂
  exact ⟨mbr, bpb, hread, by omega, hread', hspc, by omega, rfl⟩

/-- A disk with a partition table and a boot sector: `fields` lists the bytes of
the boot sector that are not zero. -/
def bootDisk (sectors : List (Nat × UInt8)) (fields : List (Nat × UInt8)) : Disk where
  sectors lba off :=
    if lba = 0 then (sectors.lookup off).getD 0
    else if lba = 1 then (fields.lookup off).getD 0 else 0
  served lba := decide (lba < 4096)

/-- A FAT32 partition of 2048 sectors that starts at sector 1. -/
def mbrFields : List (Nat × UInt8) :=
  [(450, 0x0C), (454, 1), (459, 8), (510, 0x55), (511, 0xAA)]

/-- 512 bytes per sector, one sector per cluster, 32 reserved sectors, one FAT of 8
sectors, 1000 sectors in all, and the root directory in cluster 2. -/
def bootFields : List (Nat × UInt8) :=
  [(12, 2), (13, 1), (14, 32), (16, 1), (32, 0xE8), (33, 3), (36, 8), (44, 2)]

def soundDisk : Vol := ⟨bootDisk mbrFields bootFields, .zero⟩

/-- The same boot sector without a FAT. -/
def fatlessDisk : Vol := ⟨bootDisk mbrFields (bootFields.map fun f =>
  if f.1 = 16 then (16, 0) else f), .zero⟩

/-- A geometry that `fat32_mount` accepts is sound exactly when the boot sector
agrees with itself and with its partition entry; the code does not check that. -/
theorem fat32Mount_sound_iff {v v' : Vol} (h : fat32Mount v = (.ok (), v')) :
    SoundGeometry v'.fs (mbrPartition (v.disk.sectors 0)).2 ↔
      BpbAgrees (mbrPartition (v.disk.sectors 0)).1 (mbrPartition (v.disk.sectors 0)).2
        (v.disk.sectors (mbrPartition (v.disk.sectors 0)).1) := by
  have hread : ∀ lba sector, v.disk.read lba = some sector → sector = v.disk.sectors lba := by
    intro lba sector hsome
    unfold Disk.read at hsome
    split at hsome
    · exact (Option.some.inj hsome).symm
    · cases hsome
  obtain ⟨mbr, bpb, hmbr, hpart, hbpb, hspc, hbytes, hfs⟩ := fat32Mount_ok h
  obtain rfl := hread _ _ hmbr
  obtain rfl := hread _ _ hbpb
  have hpos : 1 ≤ ((v.disk.sectors (mbrPartition (v.disk.sectors 0)).1) 13).toNat :=
    Nat.one_le_iff_ne_zero.mpr fun hzero => hspc (UInt8.toNat_inj.mp hzero)
  rw [hfs]
  exact ⟨fun hsound => hsound.agrees hpart hpos hbytes, fun hagrees => hagrees.sound hbytes⟩

theorem fat32Mount_sound : ∃ v', fat32Mount soundDisk = (.ok (), v') ∧
    SoundGeometry v'.fs (mbrPartition (soundDisk.disk.sectors 0)).2 := by
  have hok : (fat32Mount soundDisk).1 = .ok () := by decide +kernel
  have hmount : fat32Mount soundDisk = (.ok (), (fat32Mount soundDisk).2) := Prod.ext hok rfl
  refine ⟨_, hmount, (fat32Mount_sound_iff hmount).mpr ?_⟩
  exact
    { fats_pos := by decide +kernel
      front_le := by decide +kernel
      root := by decide +kernel
      table := by decide +kernel
      numbers := by decide +kernel
      partition := by decide +kernel
      addresses := by decide +kernel }

/-- A boot sector without a FAT is accepted, although its root directory has no
entry anywhere. -/
theorem fat32Mount_unsound : ∃ v', fat32Mount fatlessDisk = (.ok (), v') ∧
    ¬ SoundGeometry v'.fs (mbrPartition (fatlessDisk.disk.sectors 0)).2 := by
  have hok : (fat32Mount fatlessDisk).1 = .ok () := by decide +kernel
  have hfats : (fat32Mount fatlessDisk).2.fs.numFats = 0 := by decide +kernel
  have hmount : fat32Mount fatlessDisk = (.ok (), (fat32Mount fatlessDisk).2) := Prod.ext hok rfl
  refine ⟨_, hmount, fun hsound => ?_⟩
  exact absurd hfats (Nat.ne_of_gt hsound.fats_pos)

end Sound

end OsAgentLab
