/-
When the loop of `compute_fat_size` ends: a decreasing step that brings any two values
closer either settles or alternates between two neighbours for ever.
-/
import OsAgentLab.Mkfs.Regions

namespace OsAgentLab

namespace Mkfs

section Settle

variable {step : Int → Int}

/-- A decreasing step that brings values closer. -/
structure Closing (step : Int → Int) : Prop where
  anti : ∀ x y, x ≤ y → step y ≤ step x
  closer : ∀ x y, x + 2 ≤ y → step x - step y < y - x
  near : ∀ x, step x - step (x + 1) ≤ 1

/-- The values of a closing step settle, unless two neighbours lead to each other. -/
theorem Closing.settles (hstep : Closing step)
    (halone : ∀ a, ¬ (step a = a + 1 ∧ step (a + 1) = a)) (x : Int) :
    ∃ n, step (step^[n] x) = step^[n] x := by
  generalize hd : (step x - x).natAbs = d
  induction d using Nat.strong_induction_on generalizing x with
  | h d ih =>
      have hnext : ∀ e < d, (step (step x) - step x).natAbs = e →
          ∃ n, step (step^[n] x) = step^[n] x := fun e he heq => by
        obtain ⟨n, hn⟩ := ih e he (step x) heq
        exact ⟨n + 1, hn⟩
      rcases Int.lt_trichotomy (step x) x with hlt | heq | hlt
      · have hanti := hstep.anti (step x) x (by omega)
        by_cases hfar : step x + 2 ≤ x
        · have hcloser := hstep.closer (step x) x hfar
          exact hnext _ (by omega) rfl
        · have hsucc : step x + 1 = x := by omega
          have hnear := hstep.near (step x)
          rw [hsucc] at hnear
          by_cases hback : step (step x) = x
          · exact absurd ⟨hback.trans hsucc.symm, by rw [hsucc]⟩ (halone (step x))
          · exact hnext _ (by omega) rfl
      · exact ⟨0, heq⟩
      · have hanti := hstep.anti x (step x) (by omega)
        by_cases hfar : x + 2 ≤ step x
        · have hcloser := hstep.closer x (step x) hfar
          exact hnext _ (by omega) rfl
        · have hsucc : step x = x + 1 := by omega
          have hnear := hstep.near x
          rw [← hsucc] at hnear
          by_cases hback : step (step x) = x
          · exact absurd ⟨hsucc, hsucc ▸ hback⟩ (halone x)
          · exact hnext _ (by omega) rfl

end Settle

section Loop

variable {total reserved numFats spc : Int}

/-- The loop ends where the values settle. -/
theorem fatSizeLoop_of_fixed (n : Nat) (x : Int)
    (h : newFat total reserved numFats spc ((newFat total reserved numFats spc)^[n] x) =
      (newFat total reserved numFats spc)^[n] x) :
    ∃ passes result, fatSizeLoop total reserved numFats spc passes x = some result := by
  induction n generalizing x with
  | zero => exact ⟨1, x, if_pos h⟩
  | succ n ih =>
      obtain ⟨passes, result, hrun⟩ := ih (newFat total reserved numFats spc x) h
      by_cases hfixed : newFat total reserved numFats spc x = x
      · exact ⟨1, x, if_pos hfixed⟩
      · refine ⟨passes + 1, result, ?_⟩
        rw [fatSizeLoop]
        exact (if_neg hfixed).trans hrun

end Loop

section FatSize

variable (total : Nat)

/-- With the parameters of `format_fat32` a FAT sector serves 1024 data sectors. -/
theorem newFat_closing : Closing (newFat total 32 2 8) where
  anti x y hxy := by
    simp only [newFat]
    omega
  closer x y hxy := by
    simp only [newFat]
    omega
  near x := by
    simp only [newFat]
    omega

theorem newFat_alternates {a : Int} (h : newFat total 32 2 8 a = a + 1)
    (h' : newFat total 32 2 8 (a + 1) = a) : total % 1026 = 40 ∨ total % 1026 = 41 := by
  simp only [newFat] at h h'
  have hlow : 1026 * a + 40 ≤ total := by omega
  have hhigh : total ≤ 1026 * a + 41 := by omega
  omega

theorem newFat_not_fixed (h : total % 1026 = 40 ∨ total % 1026 = 41) (x : Int) :
    newFat total 32 2 8 x ≠ x := by
  intro hfixed
  simp only [newFat] at hfixed
  have hlow : 1026 * (x - 1) + 42 ≤ total := by omega
  have hhigh : total < 1026 * x + 40 := by omega
  omega

/-- For every size that `format_fat32` accepts, `compute_fat_size` comes back with a size
that leaves data sectors, unless the partition has 40 or 41 sectors more than a multiple
of 1026. -/
theorem computeFatSize_ends_iff {sizeBytes : Nat} (hsize : 2048 + 1024 < sizeBytes / 512) :
    (∃ passes result, computeFatSize passes (sizeBytes / 512 - 2048) 32 2 8 = some result ∧
      1 ≤ result ∧ 0 < ((sizeBytes / 512 - 2048 : Nat) : Int) - 32 - 2 * result) ↔
    (sizeBytes / 512 - 2048) % 1026 ≠ 40 ∧ (sizeBytes / 512 - 2048) % 1026 ≠ 41 := by
  generalize htotal : sizeBytes / 512 - 2048 = total
  constructor
  · rintro ⟨passes, result, hrun, -⟩
    have hfixed := fatSizeLoop_fixed hrun
    refine ⟨fun h => ?_, fun h => ?_⟩
    · exact newFat_not_fixed total (Or.inl h) result hfixed
    · exact newFat_not_fixed total (Or.inr h) result hfixed
  · rintro ⟨h40, h41⟩
    obtain ⟨n, hn⟩ := (newFat_closing total).settles (fun a ⟨h, h'⟩ =>
      (newFat_alternates total h h').elim h40 h41) 1
    obtain ⟨passes, result, hrun⟩ := fatSizeLoop_of_fixed n 1 hn
    obtain ⟨hone, hle, hlow, -⟩ := computeFatSize_spec (by omega) hrun
    exact ⟨passes, result, hrun, by omega, by omega⟩

/-- A disk image of 64 MiB. -/
theorem computeFatSize_ends_64M : ∃ passes result,
    computeFatSize passes (67108864 / 512 - 2048) 32 2 8 = some result ∧ 1 ≤ result ∧
      0 < ((67108864 / 512 - 2048 : Nat) : Int) - 32 - 2 * result :=
  (computeFatSize_ends_iff (by decide)).mpr (by decide)

/-- A partition of 1066 sectors: the values alternate between 2 and 1. -/
theorem computeFatSize_alternates : 1594368 % 512 = 0 ∧ 2048 + 1024 < 1594368 / 512 ∧
    ¬ ∃ passes result, computeFatSize passes (1594368 / 512 - 2048) 32 2 8 = some result := by
  refine ⟨by decide, by decide, ?_⟩
  rintro ⟨passes, result, hrun⟩
  exact newFat_not_fixed _ (by decide) result (fatSizeLoop_fixed hrun)

end FatSize

end Mkfs

end OsAgentLab
