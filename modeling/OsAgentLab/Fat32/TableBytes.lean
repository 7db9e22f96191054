/-
The allocation table byte by byte: which bytes of the volume an entry occupies in the
copies of the FAT, and what writing one changes.
-/
import OsAgentLab.Fat32.Store

namespace OsAgentLab

namespace Vol

/-- The address of sector `j` of the FAT copy `k`, as `fat32_write_fat_entry` has it. -/
def fatAddr (v : Vol) (k j : Nat) : Nat :=
  u32 (v.fs.fatLba + u32 (k * v.fs.sectorsPerFat) + j)

/-- The 32 bits of the entry of the cluster `c` in the copy `k`. -/
def copyEntry (v : Vol) (k c : Nat) : Nat :=
  le32 (v.disk.sectors (v.fatAddr k (c * 4 / 512))) (c * 4 % 512)

/-- The byte `off` of the sector `lba` is one of the entry of the cluster `c` in one of
the copies. -/
def InEntry (v : Vol) (c lba off : Nat) : Prop :=
  ∃ k < v.fs.numFats, lba = v.fatAddr k (c * 4 / 512) ∧ c * 4 % 512 ≤ off ∧ off < c * 4 % 512 + 4

/-- The link of the cluster `c` in the first copy. -/
def fatLink (v : Vol) (c : Nat) : Nat := v.copyEntry 0 c % 268435456

/-- The sectors with another entry of the cluster `c` in the first `n` copies. -/
def sectorsWith (v : Vol) (c value n : Nat) (lba : Nat) : Sector :=
  if ∃ k < n, lba = v.fatAddr k (c * 4 / 512) then
    putFatValue (v.disk.sectors lba) (c * 4 % 512) value
  else v.disk.sectors lba

/-- The volume with these sectors. -/
def withCopies (v : Vol) (c value n : Nat) : Vol :=
  { v with disk := { v.disk with sectors := v.sectorsWith c value n } }

end Vol

/-- The copies of the FAT do not overlap, have an entry for every cluster, and the device
serves them. -/
structure FatCopies (v : Vol) : Prop where
  bytes : v.fs.bytesPerSector = 512
  copies : 0 < v.fs.numFats
  fits : (v.fs.clusterCount + 2) * 4 ≤ v.fs.sectorsPerFat * 512
  apart : ∀ k < v.fs.numFats, ∀ j < v.fs.sectorsPerFat, ∀ k' < v.fs.numFats,
    ∀ j' < v.fs.sectorsPerFat, v.fatAddr k j = v.fatAddr k' j' → k = k' ∧ j = j'
  served : ∀ k < v.fs.numFats, ∀ j < v.fs.sectorsPerFat, v.disk.served (v.fatAddr k j) = true

variable {v : Vol} {c value : Nat}

theorem Vol.fatAddr_zero (v : Vol) (j : Nat) : v.fatAddr 0 j = u32 (v.fs.fatLba + j) := by
  rw [fatAddr, Nat.zero_mul, show u32 0 = 0 from rfl, Nat.add_zero]

/-- Writing a value twice is writing it once. -/
theorem putFatValue_twice (sector : Sector) (off value : Nat) :
    putFatValue (putFatValue sector off value) off value = putFatValue sector off value := by
  funext i
  by_cases hi : off ≤ i ∧ i < off + 4
  · rw [putFatValue, overlay_of_mem hi, putFatValue, overlay_of_mem hi]
  · rw [putFatValue, overlay_of_not_mem hi]

section Entry

variable {lba off value : Nat}

theorem Vol.withCopies_in (h : v.InEntry c lba off) :
    (v.withCopies c value v.fs.numFats).disk.sectors lba off =
      putFatValue (v.disk.sectors lba) (c * 4 % 512) value off := by
  obtain ⟨k, hk, hlba, -⟩ := h
  change v.sectorsWith c value v.fs.numFats lba off = _
  rw [sectorsWith, if_pos ⟨k, hk, hlba⟩]

/-- The bytes outside the entry stay. -/
theorem Vol.withCopies_out (h : ¬ v.InEntry c lba off) :
    (v.withCopies c value v.fs.numFats).disk.sectors lba off = v.disk.sectors lba off := by
  change v.sectorsWith c value v.fs.numFats lba off = _
  rw [sectorsWith]
  by_cases hlba : ∃ k < v.fs.numFats, lba = v.fatAddr k (c * 4 / 512)
  · obtain ⟨k, hk, heq⟩ := hlba
    rw [if_pos ⟨k, hk, heq⟩, putFatValue, overlay_of_not_mem]
    exact fun hoff => h ⟨k, hk, heq, hoff⟩
  · rw [if_neg hlba]

end Entry

/-- One more copy. -/
theorem Vol.withCopies_succ (v : Vol) (c value n : Nat) :
    (v.withCopies c value n).putSector (v.fatAddr n (c * 4 / 512))
      (putFatValue (v.sectorsWith c value n (v.fatAddr n (c * 4 / 512))) (c * 4 % 512) value) =
        v.withCopies c value (n + 1) := by
  have hsectors : (fun lba => if lba = v.fatAddr n (c * 4 / 512) then
      putFatValue (v.sectorsWith c value n (v.fatAddr n (c * 4 / 512))) (c * 4 % 512) value
      else v.sectorsWith c value n lba) = v.sectorsWith c value (n + 1) := by
    funext lba
    by_cases hhere : lba = v.fatAddr n (c * 4 / 512)
    · have hsucc : ∃ k < n + 1, lba = v.fatAddr k (c * 4 / 512) := ⟨n, Nat.lt_succ_self n, hhere⟩
      rw [if_pos hhere, ← hhere, sectorsWith, sectorsWith, if_pos hsucc]
      by_cases hbefore : ∃ k < n, lba = v.fatAddr k (c * 4 / 512)
      · rw [if_pos hbefore, putFatValue_twice]
      · rw [if_neg hbefore]
    · rw [if_neg hhere, sectorsWith, sectorsWith]
      simp only [Nat.exists_lt_succ_right, hhere, or_false]
  rw [putSector, withCopies, withCopies, ← hsectors]

/-- `fat32_write_fat_entry` writes the entry into every copy and nothing else. -/
theorem fat32WriteFatEntry_bytes (hbytes : v.fs.bytesPerSector = 512) (hc : c * 4 < 4294967296)
    (hserved : ∀ k < v.fs.numFats, v.disk.served (v.fatAddr k (c * 4 / 512)) = true) :
    fat32WriteFatEntry c value v = (.ok (), v.withCopies c value v.fs.numFats) := by
  have hstart : v.withCopies c value 0 = v := by
    have hsectors : v.sectorsWith c value 0 = v.disk.sectors := by
      funext lba
      rw [Vol.sectorsWith, if_neg (by simp)]
    rw [Vol.withCopies, hsectors]
  rw [fat32WriteFatEntry, Prog.bind_ok (show getFs v = (.ok v.fs, v) from rfl)]
  simp only [hbytes, u32_of_lt hc, ne_eq, not_true_eq_false, ↓reduceIte]
  obtain ⟨v', hrun, rfl⟩ := Prog.forCount_inv
    (fun copy => do
      let lba := u32 (v.fs.fatLba + u32 (copy * v.fs.sectorsPerFat) + c * 4 / 512)
      let sector ← Prog.orElse (blkRead lba) Errno.io
      Prog.orElse (blkWrite lba (putFatValue sector (c * 4 % 512) value)) Errno.io)
    (fun copies mid => v.withCopies c value copies = mid) v.fs.numFats 0 v hstart
    (by
      rintro copy mid - hcopy rfl
      rw [Nat.zero_add] at hcopy
      have hlba : (v.withCopies c value copy).disk.served (v.fatAddr copy (c * 4 / 512)) = true :=
        hserved copy hcopy
      refine ⟨_, ?_, (v.withCopies_succ c value copy).symm⟩
      refine (Prog.bind_ok (Prog.orElse_ok (blkRead_served hlba) Errno.io) _).trans ?_
      exact Prog.orElse_ok (blkWrite_served _ hlba) Errno.io)
  rw [Nat.zero_add] at hrun
  exact hrun

/-- `fat32_read_fat_entry` reads the first copy. -/
theorem fat32ReadFatEntry_bytes (hbytes : v.fs.bytesPerSector = 512) (hc : c * 4 < 4294967296)
    (hserved : v.disk.served (v.fatAddr 0 (c * 4 / 512)) = true) :
    fat32ReadFatEntry c v = (.ok (v.copyEntry 0 c % 268435456), v) := by
  have hfit : ¬ 512 < c * 4 % 512 + 4 := by omega
  rw [fat32ReadFatEntry, Prog.bind_ok (show getFs v = (.ok v.fs, v) from rfl)]
  simp only [hbytes, u32_of_lt hc, ne_eq, not_true_eq_false, ↓reduceIte]
  rw [← v.fatAddr_zero, Prog.bind_ok (Prog.orElse_ok (blkRead_served hserved) _), if_neg hfit,
    Prog.pure_apply, and_fat_mask]
  rfl

end OsAgentLab
