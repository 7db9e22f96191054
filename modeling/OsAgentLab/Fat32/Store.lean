/-
A volume with a sound geometry is a store of clusters: a successor for each
cluster and the bytes of each cluster.  The table functions of the volume are
the elementary operations of that store.
-/
import OsAgentLab.Fat32.Table
import Mathlib.Tactic.Linarith
import Mathlib.Data.Nat.Bitwise

namespace OsAgentLab

/-- Clusters, without their place on the disk. -/
@[ext] structure ClusterStore where
  next : Nat → Nat
  data : Nat → Nat → UInt8

namespace ClusterStore

/-- Give the cluster `c` another successor. -/
def setNext (st : ClusterStore) (c value : Nat) : ClusterStore where
  next x := if x = c then value else st.next x
  data := st.data

/-- Store `len` bytes of `src` into the cluster `c` from byte `off` on. -/
def put (st : ClusterStore) (c off len : Nat) (src : Nat → UInt8) : ClusterStore where
  next := st.next
  data x := if x = c then overlay (st.data c) off len src else st.data x

/-- Clear the cluster `c`. -/
def zero (st : ClusterStore) (c : Nat) : ClusterStore where
  next := st.next
  data x := if x = c then fun _ => 0 else st.data x

@[simp] theorem setNext_next (st : ClusterStore) (c value x : Nat) :
    (st.setNext c value).next x = if x = c then value else st.next x := rfl

@[simp] theorem setNext_data (st : ClusterStore) (c value : Nat) :
    (st.setNext c value).data = st.data := rfl

@[simp] theorem put_next (st : ClusterStore) (c off len : Nat) (src : Nat → UInt8) :
    (st.put c off len src).next = st.next := rfl

theorem put_data (st : ClusterStore) (c off len : Nat) (src : Nat → UInt8) (x : Nat) :
    (st.put c off len src).data x =
      if x = c then overlay (st.data c) off len src else st.data x := rfl

@[simp] theorem zero_next (st : ClusterStore) (c : Nat) : (st.zero c).next = st.next := rfl

@[simp] theorem zero_data (st : ClusterStore) (c x : Nat) :
    (st.zero c).data x = if x = c then fun _ => 0 else st.data x := rfl

end ClusterStore

/-- A sound geometry: the FAT copies come before the data clusters, have an
entry for every cluster, and the device serves all these sectors. -/
structure Geometry (v : Vol) : Prop where
  bytes : v.fs.bytesPerSector = 512
  spc_pos : 0 < v.fs.sectorsPerCluster
  spc_lt : v.fs.sectorsPerCluster < 256
  fats_pos : 0 < v.fs.numFats
  fat_pos : 0 < v.fs.fatLba
  fat_fits : (v.fs.clusterCount + 2) * 4 ≤ v.fs.sectorsPerFat * 512
  fat_below : v.fs.fatLba + v.fs.numFats * v.fs.sectorsPerFat ≤ v.fs.dataLba
  count_lt : v.fs.clusterCount + 1 < 0x0FFFFFF7
  end_le :
    v.fs.dataLba + v.fs.clusterCount * v.fs.sectorsPerCluster ≤ 4294967296
  served : ∀ lba, v.fs.fatLba ≤ lba →
    lba < v.fs.dataLba + v.fs.clusterCount * v.fs.sectorsPerCluster →
    v.disk.served lba = true

namespace Vol

variable (v : Vol)

/-- The last cluster number. -/
def maxCluster : Nat := v.fs.clusterCount + 1

/-- Bytes in one cluster. -/
def clusterBytes : Nat := 512 * v.fs.sectorsPerCluster

/-- The address of sector `s` of the cluster `c`. -/
def sectorLba (c s : Nat) : Nat := v.fs.dataLba + (c - 2) * v.fs.sectorsPerCluster + s

/-- A cluster of the data region. -/
def InData (c : Nat) : Prop := 2 ≤ c ∧ c ≤ v.maxCluster

instance (c : Nat) : Decidable (v.InData c) :=
  inferInstanceAs (Decidable (2 ≤ c ∧ c ≤ v.maxCluster))

/-- The value of the FAT entry `c` in the first FAT copy. -/
def fatEntry (c : Nat) : Nat :=
  le32 (v.disk.sectors (v.fs.fatLba + c * 4 / 512)) (c * 4 % 512) % 268435456

/-- The store of clusters that the volume represents. -/
def store : ClusterStore where
  next c := if c ≤ v.maxCluster then v.fatEntry c else 0
  data c k :=
    if v.InData c ∧ k < v.clusterBytes then
      v.disk.sectors (v.sectorLba c (k / 512)) (k % 512)
    else 0

end Vol

/-- `v'` has the geometry of `v`; only the sectors and the allocation hint may
differ. -/
structure SameShape (v v' : Vol) : Prop where
  fs : v'.fs = { v.fs with allocHint := v'.fs.allocHint }
  served : v'.disk.served = v.disk.served

namespace SameShape

variable {v v' v'' : Vol}

theorem refl (v : Vol) : SameShape v v := ⟨rfl, rfl⟩

theorem trans (h : SameShape v v') (h' : SameShape v' v'') : SameShape v v'' :=
  ⟨by rw [h'.fs, h.fs], h'.served.trans h.served⟩

theorem spc (h : SameShape v v') : v'.fs.sectorsPerCluster = v.fs.sectorsPerCluster := by
  rw [h.fs]

theorem bytes (h : SameShape v v') : v'.fs.bytesPerSector = v.fs.bytesPerSector := by
  rw [h.fs]

theorem dataLba (h : SameShape v v') : v'.fs.dataLba = v.fs.dataLba := by
  rw [h.fs]

theorem clusterCount (h : SameShape v v') : v'.fs.clusterCount = v.fs.clusterCount := by
  rw [h.fs]

theorem rootCluster (h : SameShape v v') : v'.fs.rootCluster = v.fs.rootCluster := by
  rw [h.fs]

theorem maxCluster (h : SameShape v v') : v'.maxCluster = v.maxCluster := by
  rw [Vol.maxCluster, Vol.maxCluster, h.clusterCount]

theorem clusterBytes (h : SameShape v v') : v'.clusterBytes = v.clusterBytes := by
  rw [Vol.clusterBytes, Vol.clusterBytes, h.spc]

theorem sectorLba (h : SameShape v v') (c s : Nat) : v'.sectorLba c s = v.sectorLba c s := by
  rw [Vol.sectorLba, Vol.sectorLba, h.dataLba, h.spc]

theorem inData (h : SameShape v v') {c : Nat} : v'.InData c ↔ v.InData c := by
  rw [Vol.InData, Vol.InData, h.maxCluster]

theorem geometry (h : SameShape v v') (g : Geometry v) : Geometry v' := by
  constructor
  · rw [h.fs]; exact g.bytes
  · rw [h.fs]; exact g.spc_pos
  · rw [h.fs]; exact g.spc_lt
  · rw [h.fs]; exact g.fats_pos
  · rw [h.fs]; exact g.fat_pos
  · rw [h.fs]; exact g.fat_fits
  · rw [h.fs]; exact g.fat_below
  · rw [h.fs]; exact g.count_lt
  · rw [h.fs]; exact g.end_le
  · rw [h.fs, h.served]; exact g.served

end SameShape

/-- Reading a sector that is on the volume. -/
theorem blkRead_served {v : Vol} {lba : Nat} (h : v.disk.served lba = true) :
    blkRead lba v = (.ok (v.disk.sectors lba), v) := by
  simp [blkRead, Disk.read, h]

/-- The volume after a write that the device completes. -/
def Vol.putSector (v : Vol) (lba : Nat) (sector : Sector) : Vol :=
  { v with disk :=
    { v.disk with sectors := fun n => if n = lba then sector else v.disk.sectors n } }

theorem blkWrite_served {v : Vol} {lba : Nat} (sector : Sector)
    (h : v.disk.served lba = true) :
    blkWrite lba sector v = (.ok (), v.putSector lba sector) := by
  simp [blkWrite, Disk.write, h, Vol.putSector]

theorem Vol.putSector_shape (v : Vol) (lba : Nat) (sector : Sector) :
    SameShape v (v.putSector lba sector) := ⟨rfl, rfl⟩

theorem and_fat_mask (n : Nat) : n &&& 0x0FFFFFFF = n % 268435456 := by
  rw [show (0x0FFFFFFF : Nat) = 2 ^ 28 - 1 by decide, Nat.and_two_pow_sub_one_eq_mod]

section FatSector

theorem putFatValue_same (sector : Sector) (off : Nat) {value : Nat}
    (hvalue : value < 268435456) :
    le32 (putFatValue sector off value) off % 268435456 = value := by
  have h0 : putFatValue sector off value off = byteOf value 0 := by
    simp [putFatValue, overlay]
  have h1 : putFatValue sector off value (off + 1) = byteOf value 1 := by
    simp [putFatValue, overlay]
  have h2 : putFatValue sector off value (off + 2) = byteOf value 2 := by
    simp [putFatValue, overlay]
  have h3 : putFatValue sector off value (off + 3) = byteOf value 3 &&& 0x0F := by
    simp [putFatValue, overlay]
  have hmask : (byteOf value 3 &&& 0x0F).toNat = value / 16777216 % 256 % 16 := by
    rw [UInt8.toNat_and, byteOf_toNat]
    exact Nat.and_two_pow_sub_one_eq_mod _ 4
  simp only [le32, h0, h1, h2, h3, hmask, byteOf_toNat]
  omega

theorem putFatValue_other (sector : Sector) (off value off' : Nat)
    (hapart : off' + 4 ≤ off ∨ off + 4 ≤ off') :
    le32 (putFatValue sector off value) off' = le32 sector off' := by
  apply le32_congr
  intro i hi
  exact overlay_of_not_mem (by omega)

end FatSector

namespace Geometry

variable {v : Vol}

/-- The FAT sector of the entry `c` lies in the first copy. -/
theorem fatIdx_lt (g : Geometry v) {c : Nat} (hc : c ≤ v.maxCluster) :
    c * 4 / 512 < v.fs.sectorsPerFat := by
  have hfits := g.fat_fits
  simp only [Vol.maxCluster] at hc
  omega

/-- Every copy of the FAT lies below the data. -/
theorem copy_le (g : Geometry v) {copy : Nat} (hcopy : copy < v.fs.numFats) :
    v.fs.fatLba + copy * v.fs.sectorsPerFat + v.fs.sectorsPerFat ≤ v.fs.dataLba := by
  have hmul := Nat.mul_le_mul_right v.fs.sectorsPerFat (Nat.succ_le_of_lt hcopy)
  have hbelow := g.fat_below
  rw [Nat.succ_mul] at hmul
  omega

theorem dataLba_le (g : Geometry v) : v.fs.dataLba ≤ 4294967296 :=
  Nat.le_trans (Nat.le_add_right _ _) g.end_le

theorem entry_u32 (g : Geometry v) {c : Nat} (hc : c ≤ v.maxCluster) :
    u32 (c * 4) = c * 4 := by
  apply u32_of_lt
  have := g.count_lt
  simp only [Vol.maxCluster] at hc
  omega

/-- The sectors of a cluster lie in the data region. -/
theorem sectorLba_lt {c s : Nat} (hc : v.InData c)
    (hs : s < v.fs.sectorsPerCluster) :
    v.sectorLba c s < v.fs.dataLba + v.fs.clusterCount * v.fs.sectorsPerCluster := by
  obtain ⟨hlow, hhigh⟩ := hc
  simp only [Vol.maxCluster] at hhigh
  have hmul := Nat.mul_le_mul_right v.fs.sectorsPerCluster
    (show c - 2 + 1 ≤ v.fs.clusterCount by omega)
  rw [Nat.add_mul, Nat.one_mul] at hmul
  simp only [Vol.sectorLba]
  omega

theorem sectorLba_served (g : Geometry v) {c s : Nat} (hc : v.InData c)
    (hs : s < v.fs.sectorsPerCluster) : v.disk.served (v.sectorLba c s) = true := by
  apply g.served _ _ (sectorLba_lt hc hs)
  have hcopy := g.copy_le g.fats_pos
  simp only [Vol.sectorLba]
  omega

/-- Different sectors of the data region have different addresses. -/
theorem sectorLba_inj {c s c' s' : Nat} (hc : v.InData c) (hc' : v.InData c')
    (hs : s < v.fs.sectorsPerCluster) (hs' : s' < v.fs.sectorsPerCluster)
    (h : v.sectorLba c s = v.sectorLba c' s') : c = c' ∧ s = s' := by
  have hpos : 0 < v.fs.sectorsPerCluster := Nat.lt_of_le_of_lt (Nat.zero_le _) hs
  have heq : (c - 2) * v.fs.sectorsPerCluster + s =
      (c' - 2) * v.fs.sectorsPerCluster + s' := by
    simp only [Vol.sectorLba] at h
    omega
  have hdiv := congrArg (· / v.fs.sectorsPerCluster) heq
  have hmod := congrArg (· % v.fs.sectorsPerCluster) heq
  simp only [Nat.mul_add_mod_self_right, Nat.mod_eq_of_lt hs, Nat.mod_eq_of_lt hs'] at hmod
  simp only [Nat.add_comm _ s, Nat.add_comm _ s', Nat.add_mul_div_right _ _ hpos,
    Nat.div_eq_of_lt hs, Nat.div_eq_of_lt hs'] at hdiv
  obtain ⟨hlow, _⟩ := hc
  obtain ⟨hlow', _⟩ := hc'
  exact ⟨by omega, hmod⟩

/-- `fat32_cluster_to_lba` does not wrap on data clusters. -/
theorem clusterToLba_eq (g : Geometry v) {c : Nat} (hc : v.InData c) :
    fat32ClusterToLba v.fs c = v.sectorLba c 0 := by
  have hlt := sectorLba_lt hc g.spc_pos
  have hend := g.end_le
  have hcount := g.count_lt
  obtain ⟨hlow, hhigh⟩ := hc
  simp only [Vol.maxCluster] at hhigh
  simp only [Vol.sectorLba, Nat.add_zero] at hlt ⊢
  have hsub : u32 (c + 4294967294) = c - 2 := by
    simp only [u32]
    omega
  have hmul : u32 ((c - 2) * v.fs.sectorsPerCluster) = (c - 2) * v.fs.sectorsPerCluster := by
    apply u32_of_lt
    omega
  rw [fat32ClusterToLba, hsub, hmul]
  apply u32_of_lt
  omega

theorem sectorLba_u32 (g : Geometry v) {c s : Nat} (hc : v.InData c)
    (hs : s < v.fs.sectorsPerCluster) :
    u32 (fat32ClusterToLba v.fs c + s) = v.sectorLba c s := by
  have hlt := sectorLba_lt hc hs
  have hend := g.end_le
  rw [g.clusterToLba_eq hc]
  simp only [Vol.sectorLba, Nat.add_zero] at hlt ⊢
  apply u32_of_lt
  omega

end Geometry

end OsAgentLab
