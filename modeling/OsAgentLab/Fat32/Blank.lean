/-
Volumes without data: a given allocation table in front of cleared clusters.
They have a sound geometry, and their store is the table.
-/
import OsAgentLab.Fat32.NodeOps

namespace OsAgentLab

/-- The geometry of a volume with `count` clusters of one sector and `numFats`
FAT copies of `perFat` sectors. -/
def blankFs (numFats perFat count : Nat) : Fat32Fs where
  partLba := 0
  fatLba := 1
  dataLba := 1 + numFats * perFat
  reservedSectors := 1
  totalSectors := 1 + numFats * perFat + count
  sectorsPerFat := perFat
  numFats := numFats
  clusterCount := count
  sectorsPerCluster := 1
  bytesPerSector := 512
  rootCluster := 2
  allocHint := 2

/-- Every FAT copy holds `table`; everything else is zero. -/
def blankVol (numFats perFat count : Nat) (table : Nat → Nat) : Vol where
  fs := blankFs numFats perFat count
  disk :=
    { sectors := fun lba k =>
        if 1 ≤ lba ∧ lba < 1 + numFats * perFat then
          byteOf (table ((512 * ((lba - 1) % perFat) + k) / 4)) ((512 * ((lba - 1) % perFat) + k) % 4)
        else 0
      served := fun lba => lba < 1 + numFats * perFat + count }

/-- A kernel with a mounted volume, whose first vnode is the root. -/
def rootKernel (v : Vol) : Kernel where
  vol := v
  fatNodes :=
    { used := fun n => n == 0
      slot := fun _ => ⟨v.fs.rootCluster, 0, 0x10, 0, 0, 0, 0, 0⟩ }
  vnodes :=
    { used := fun n => n == 0
      slot := fun _ => ⟨.dir, some .fat32, 0, some 0, []⟩ }
  ramNodes :=
    { used := fun _ => false
      slot := fun _ => ⟨.file, [], none, none, none, 0, fun _ => 0⟩ }
  mounts := []
  root := some 0
  cwd := some 0

section Blank

variable {numFats perFat count : Nat} {table : Nat → Nat}

theorem blankVol_geometry (hfats : 0 < numFats) (hfit : (count + 2) * 4 ≤ perFat * 512)
    (hcount : count + 1 < 0x0FFFFFF7)
    (hend : 1 + numFats * perFat + count ≤ 4294967296) :
    Geometry (blankVol numFats perFat count table) where
  bytes := rfl
  spc_pos := Nat.one_pos
  spc_lt := show 1 < 256 by decide
  fats_pos := hfats
  fat_pos := Nat.one_pos
  fat_fits := hfit
  fat_below := Nat.le_refl _
  count_lt := hcount
  end_le := by
    simp only [blankVol, blankFs, Nat.mul_one]
    exact hend
  served := by
    intro lba _ hlt
    simp only [blankVol, blankFs, Nat.mul_one] at hlt ⊢
    exact decide_eq_true hlt

theorem blankVol_next (hfats : 0 < numFats) (hfit : (count + 2) * 4 ≤ perFat * 512)
    {c : Nat} (hc : c ≤ count + 1) (hvalue : table c < 268435456) :
    (blankVol numFats perFat count table).store.next c = table c := by
  have hpos : 0 < perFat := by omega
  have hle : perFat ≤ numFats * perFat := Nat.le_mul_of_pos_left _ hfats
  have hidx : c * 4 / 512 < perFat := by omega
  have hmax : c ≤ (blankVol numFats perFat count table).maxCluster := hc
  have hbyte : ∀ i, i < 4 →
      (blankVol numFats perFat count table).disk.sectors (1 + c * 4 / 512) (c * 4 % 512 + i) =
        byteOf (table c) i := by
    intro i hi
    simp only [blankVol]
    rw [if_pos (by omega), Nat.add_sub_cancel_left, Nat.mod_eq_of_lt hidx]
    rw [show (512 * (c * 4 / 512) + (c * 4 % 512 + i)) / 4 = c by omega,
      show (512 * (c * 4 / 512) + (c * 4 % 512 + i)) % 4 = i by omega]
  have hle32 : le32 ((blankVol numFats perFat count table).disk.sectors (1 + c * 4 / 512))
      (c * 4 % 512) = table c :=
    le32_of_bytes (by omega) (hbyte 0 (by decide)) (hbyte 1 (by decide)) (hbyte 2 (by decide))
      (hbyte 3 (by decide))
  simp only [Vol.store, if_pos hmax, Vol.fatEntry]
  rw [show (blankVol numFats perFat count table).fs.fatLba = 1 from rfl, hle32]
  exact Nat.mod_eq_of_lt hvalue

theorem blankVol_data (c k : Nat) : (blankVol numFats perFat count table).store.data c k = 0 := by
  simp only [Vol.store]
  split
  · simp only [blankVol, Vol.sectorLba, blankFs]
    rw [if_neg (by omega)]
  · rfl

/-- A chain of one cluster, as the root directory of an empty volume. -/
theorem blankVol_chain (hfats : 0 < numFats) (hfit : (count + 2) * 4 ≤ perFat * 512)
    {c : Nat} (hlow : 2 ≤ c) (hc : c ≤ count + 1) (hvalue : table c < 268435456)
    (hend : fat32Eoc ≤ table c) : (blankVol numFats perFat count table).Chain c [c] := by
  refine .last ⟨hlow, hc⟩ ?_
  rw [blankVol_next hfats hfit hc hvalue]
  exact hend

/-- All slots of a blank volume are end marks. -/
theorem blankVol_raws (l : List Nat) :
    ∀ raw ∈ (blankVol numFats perFat count table).raws l, raw.isEnd = true := by
  intro raw hraw
  obtain ⟨c, _, hraw⟩ := List.mem_flatMap.mp hraw
  exact Vol.clusterRaws_zero (funext fun k => blankVol_data c k) raw hraw

theorem blankVol_listing (l : List Nat) : (blankVol numFats perFat count table).listing l = [] :=
  hitsFrom_ends (blankVol_raws l)

end Blank

end OsAgentLab
