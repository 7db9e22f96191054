/-
What the table functions do to the store of clusters.
-/
import OsAgentLab.Fat32.Store

namespace OsAgentLab

variable {v : Vol}

/-- `fat32_read_fat_entry` delivers the successor in the store. -/
theorem fat32ReadFatEntry_eq (g : Geometry v) {c : Nat} (hc : c ≤ v.maxCluster) :
    fat32ReadFatEntry c v = (.ok (v.store.next c), v) := by
  have hidx := g.fatIdx_lt hc
  have hcopy := g.copy_le g.fats_pos
  have hdata := g.dataLba_le
  have hlba : u32 (v.fs.fatLba + c * 4 / 512) = v.fs.fatLba + c * 4 / 512 :=
    u32_of_lt (by omega)
  have hread : Prog.orElse (blkRead (u32 (v.fs.fatLba + c * 4 / 512))) .io v =
      (.ok (v.disk.sectors (v.fs.fatLba + c * 4 / 512)), v) := by
    rw [hlba]
    apply Prog.orElse_ok
    apply blkRead_served
    exact g.served _ (by omega) (by omega)
  have hfit : ¬ 512 < c * 4 % 512 + 4 := by omega
  rw [fat32ReadFatEntry, Prog.bind_ok (show getFs v = (.ok v.fs, v) from rfl)]
  simp only [g.bytes, g.entry_u32 hc, ne_eq, not_true_eq_false, ↓reduceIte]
  rw [Prog.bind_ok hread, if_neg hfit, Prog.pure_apply, and_fat_mask]
  simp only [Vol.store, if_pos hc, Vol.fatEntry]

/-- What `fat32_write_fat_entry` leaves behind after `done` copies. -/
structure FatWritten (v : Vol) (c value copies : Nat) (v' : Vol) : Prop where
  shape : SameShape v v'
  hint : v'.fs = v.fs
  first : ∀ j, j < v.fs.sectorsPerFat →
    v'.disk.sectors (v.fs.fatLba + j) =
      if 0 < copies ∧ j = c * 4 / 512 then
        putFatValue (v.disk.sectors (v.fs.fatLba + j)) (c * 4 % 512) value
      else v.disk.sectors (v.fs.fatLba + j)
  data : ∀ lba, v.fs.dataLba ≤ lba → v'.disk.sectors lba = v.disk.sectors lba

theorem fatWritten_step (g : Geometry v) {c value copy : Nat} (hc : c ≤ v.maxCluster)
    (hcopy : copy < v.fs.numFats) {v' : Vol} (h : FatWritten v c value copy v') :
    let lba := v.fs.fatLba + copy * v.fs.sectorsPerFat + c * 4 / 512
    v'.disk.served lba = true ∧
      FatWritten v c value (copy + 1)
        (v'.putSector lba (putFatValue (v'.disk.sectors lba) (c * 4 % 512) value)) := by
  have hidx := g.fatIdx_lt hc
  have hle := g.copy_le hcopy
  refine ⟨?_, h.shape.trans (v'.putSector_shape _ _), h.hint, ?_, ?_⟩
  · rw [h.shape.served]
    exact g.served _ (by omega) (by omega)
  · intro j hj
    rcases Nat.eq_zero_or_pos copy with rfl | hpos
    · -- the first copy is the one that the store is read from
      have hfirst := h.first j hj
      simp only [Nat.lt_irrefl, false_and, ↓reduceIte] at hfirst
      by_cases hjc : j = c * 4 / 512
      · subst hjc
        simp [Vol.putSector, hfirst]
      · have hne : v.fs.fatLba + j ≠ v.fs.fatLba + c * 4 / 512 := by omega
        simp [Vol.putSector, hfirst, hjc]
    · have hspf : v.fs.sectorsPerFat ≤ copy * v.fs.sectorsPerFat :=
        Nat.le_mul_of_pos_left _ hpos
      have hne : v.fs.fatLba + j ≠
          v.fs.fatLba + copy * v.fs.sectorsPerFat + c * 4 / 512 := by omega
      simp only [Vol.putSector, hne, ↓reduceIte, h.first j hj, hpos, Nat.succ_pos]
  · intro lba hlba
    have hne : lba ≠ v.fs.fatLba + copy * v.fs.sectorsPerFat + c * 4 / 512 := by omega
    simp only [Vol.putSector, hne, ↓reduceIte, h.data lba hlba]

/-- The store after all copies have been written. -/
theorem FatWritten.store_eq (g : Geometry v) {c value : Nat} (hc : c ≤ v.maxCluster)
    (hvalue : value < 268435456) {v' : Vol} (h : FatWritten v c value v.fs.numFats v') :
    v'.store = v.store.setNext c value := by
  have hmax := h.shape.maxCluster
  have hfat : v'.fs.fatLba = v.fs.fatLba := by rw [h.hint]
  ext x k
  · simp only [Vol.store, ClusterStore.setNext_next, hmax]
    by_cases hx : x ≤ v.maxCluster
    · have hidx := g.fatIdx_lt hx
      simp only [hx, ↓reduceIte, Vol.fatEntry, hfat, h.first _ hidx, g.fats_pos, true_and]
      by_cases hxc : x = c
      · subst hxc
        simp only [↓reduceIte]
        exact putFatValue_same _ _ hvalue
      · simp only [hxc, ↓reduceIte]
        split
        · rename_i hsame
          rw [putFatValue_other _ _ _ _ (by omega)]
        · rfl
    · have hxc : x ≠ c := fun h => hx (h ▸ hc)
      simp only [hx, hxc, ↓reduceIte]
  · simp only [Vol.store, ClusterStore.setNext_data, h.shape.inData, h.shape.clusterBytes,
      h.shape.sectorLba]
    split
    · rename_i hin
      rw [h.data]
      simp only [Vol.sectorLba]
      omega
    · rfl

/-- `fat32_write_fat_entry` changes one successor and nothing else. -/
theorem fat32WriteFatEntry_eq (g : Geometry v) {c : Nat} (value : Nat) (hc : c ≤ v.maxCluster)
    (hvalue : value < 268435456) :
    ∃ v', fat32WriteFatEntry c value v = (.ok (), v') ∧ SameShape v v' ∧ v'.fs = v.fs ∧
      v'.store = v.store.setNext c value := by
  have hstart : FatWritten v c value 0 v :=
    ⟨SameShape.refl v, rfl, by simp, fun _ _ => rfl⟩
  rw [fat32WriteFatEntry, Prog.bind_ok (show getFs v = (.ok v.fs, v) from rfl)]
  simp only [g.bytes, g.entry_u32 hc, ne_eq, not_true_eq_false, ↓reduceIte]
  obtain ⟨v', hrun, hdone⟩ := Prog.forCount_inv
    (fun copy => do
      let lba := u32 (v.fs.fatLba + u32 (copy * v.fs.sectorsPerFat) + c * 4 / 512)
      let sector ← Prog.orElse (blkRead lba) Errno.io
      Prog.orElse (blkWrite lba (putFatValue sector (c * 4 % 512) value)) Errno.io)
    (fun copies => FatWritten v c value copies) v.fs.numFats 0 v hstart
    (by
      intro copy mid _ hcopy hmid
      rw [Nat.zero_add] at hcopy
      obtain ⟨hserved, hnext⟩ := fatWritten_step g hc hcopy hmid
      have hidx := g.fatIdx_lt hc
      have hle := g.copy_le hcopy
      have hdata := g.dataLba_le
      have hlba : u32 (v.fs.fatLba + u32 (copy * v.fs.sectorsPerFat) + c * 4 / 512) =
          v.fs.fatLba + copy * v.fs.sectorsPerFat + c * 4 / 512 := by
        rw [u32_of_lt (show copy * v.fs.sectorsPerFat < 4294967296 by omega)]
        exact u32_of_lt (by omega)
      refine ⟨_, ?_, hnext⟩
      simp only [hlba]
      rw [Prog.bind_ok (Prog.orElse_ok (blkRead_served hserved) _)]
      exact Prog.orElse_ok (blkWrite_served _ hserved) _)
  rw [Nat.zero_add] at hdone
  exact ⟨v', hrun, hdone.shape, hdone.hint, hdone.store_eq g hc hvalue⟩

/-- A sector written above the FAT leaves every successor alone. -/
theorem Vol.putSector_fatEntry (g : Geometry v) {lba : Nat} (hlba : v.fs.dataLba ≤ lba)
    (sector : Sector) {x : Nat} (hx : x ≤ v.maxCluster) :
    (v.putSector lba sector).fatEntry x = v.fatEntry x := by
  have hidx := g.fatIdx_lt hx
  have hcopy := g.copy_le g.fats_pos
  have hne : v.fs.fatLba + x * 4 / 512 ≠ lba := by omega
  simp only [Vol.fatEntry, Vol.putSector, hne, ↓reduceIte]

/-- Writing a sector of a data cluster stores its 512 bytes. -/
theorem Vol.putSector_store (g : Geometry v) {c s : Nat} (hc : v.InData c)
    (hs : s < v.fs.sectorsPerCluster) (sector : Sector) :
    (v.putSector (v.sectorLba c s) sector).store = v.store.put c (512 * s) 512 sector := by
  have hshape := v.putSector_shape (v.sectorLba c s) sector
  have hlow : v.fs.dataLba ≤ v.sectorLba c s := by
    simp only [Vol.sectorLba]
    omega
  refine ClusterStore.ext ?_ ?_
  · funext x
    simp only [Vol.store, ClusterStore.put_next, hshape.maxCluster]
    split
    · rename_i hx
      exact Vol.putSector_fatEntry g hlow sector hx
    · rfl
  · funext x k
    simp only [Vol.store, ClusterStore.put_data, hshape.inData, hshape.clusterBytes,
      hshape.sectorLba]
    by_cases hx : v.InData x ∧ k < v.clusterBytes
    · have hkdiv : k / 512 < v.fs.sectorsPerCluster := by
        have := hx.2
        simp only [Vol.clusterBytes] at this
        omega
      by_cases hsame : v.sectorLba x (k / 512) = v.sectorLba c s
      · obtain ⟨rfl, rfl⟩ := Geometry.sectorLba_inj hx.1 hc hkdiv hs hsame
        rw [if_pos hx, if_pos rfl, overlay_of_mem (by omega)]
        simp only [Vol.putSector, ↓reduceIte]
        congr 1
        omega
      · have hold : (v.putSector (v.sectorLba c s) sector).disk.sectors
            (v.sectorLba x (k / 512)) = v.disk.sectors (v.sectorLba x (k / 512)) := by
          simp only [Vol.putSector, hsame, ↓reduceIte]
        by_cases hxc : x = c
        · subst hxc
          have hne : k / 512 ≠ s := fun h => hsame (by rw [h])
          rw [if_pos rfl, overlay_of_not_mem (by omega), if_pos hx, if_pos hx, hold]
        · rw [if_neg hxc, if_pos hx, if_pos hx, hold]
    · by_cases hxc : x = c
      · subst hxc
        have hk : ¬ k < v.clusterBytes := fun hk => hx ⟨hc, hk⟩
        simp only [Vol.clusterBytes] at hk
        rw [if_pos rfl, overlay_of_not_mem (by omega), if_neg hx, if_neg hx]
      · rw [if_neg hxc, if_neg hx, if_neg hx]

/-- A write into a data cluster through the block layer. -/
theorem blkWrite_sector (g : Geometry v) {c s : Nat} (hc : v.InData c)
    (hs : s < v.fs.sectorsPerCluster) (sector : Sector) :
    ∃ v', blkWrite (v.sectorLba c s) sector v = (.ok (), v') ∧ SameShape v v' ∧
      v'.fs = v.fs ∧ v'.store = v.store.put c (512 * s) 512 sector :=
  ⟨_, blkWrite_served sector (g.sectorLba_served hc hs), v.putSector_shape _ _, rfl,
    Vol.putSector_store g hc hs sector⟩

/-- A read from a data cluster through the block layer. -/
theorem blkRead_sector (g : Geometry v) {c s : Nat} (hc : v.InData c)
    (hs : s < v.fs.sectorsPerCluster) :
    ∃ sector, blkRead (v.sectorLba c s) v = (.ok sector, v) ∧
      v.disk.read (v.sectorLba c s) = some sector ∧
      ∀ off, off < 512 → sector off = v.store.data c (512 * s + off) := by
  have hserved := g.sectorLba_served hc hs
  refine ⟨_, blkRead_served hserved, by simp [Disk.read, hserved], ?_⟩
  intro off hoff
  have hk : v.InData c ∧ 512 * s + off < v.clusterBytes := by
    refine ⟨hc, ?_⟩
    simp only [Vol.clusterBytes]
    omega
  simp only [Vol.store, if_pos hk]
  rw [show (512 * s + off) / 512 = s by omega, show (512 * s + off) % 512 = off by omega]

end OsAgentLab
