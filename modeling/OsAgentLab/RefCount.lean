/-
Reference counting: objects that know how many cells point to them.
-/
import Mathlib.Algebra.BigOperators.Group.Finset.Basic
import Mathlib.Algebra.BigOperators.Group.Finset.Piecewise
import Mathlib.Logic.Function.Basic

namespace OsAgentLab

universe u v

variable {κ : Type u} {ι : Type v} [DecidableEq ι]

/-- The number of cells that point to `f`. -/
def pointing (cells : Finset κ) (holds : κ → Option ι) (f : ι) : Nat :=
  (cells.filter fun c => holds c = some f).card

variable {cells : Finset κ} {holds holds' : κ → Option ι} {c : κ} {f g : ι}

theorem pointing_congr (h : ∀ c ∈ cells, holds' c = holds c) :
    pointing cells holds' f = pointing cells holds f := by
  rw [pointing, pointing]
  congr 1
  refine Finset.filter_congr fun c hc => ?_
  rw [h c hc]

/-- Something points to an object when its count is positive. -/
theorem pointing_pos (hc : c ∈ cells) (h : holds c = some f) : 0 < pointing cells holds f :=
  Finset.card_pos.mpr ⟨c, Finset.mem_filter.mpr ⟨hc, h⟩⟩

variable [DecidableEq κ]

/-- One cell is redirected: its old object loses a reference, and the new one
gains one. -/
theorem pointing_update (hc : c ∈ cells) (o : Option ι) (f : ι) :
    pointing cells (Function.update holds c o) f + (if holds c = some f then 1 else 0) =
      pointing cells holds f + if o = some f then 1 else 0 := by
  have hrest : ∑ k ∈ cells.erase c, (if Function.update holds c o k = some f then 1 else 0) =
      ∑ k ∈ cells.erase c, if holds k = some f then 1 else 0 := by
    refine Finset.sum_congr rfl fun k hk => ?_
    rw [Function.update_of_ne (Finset.ne_of_mem_erase hk)]
  rw [pointing, pointing, Finset.card_filter, Finset.card_filter, ← Finset.add_sum_erase _ _ hc,
    ← Finset.add_sum_erase _ _ hc, hrest, Function.update_self]
  omega

/-- A cell that pointed to nothing is set. -/
theorem pointing_set (hc : c ∈ cells) (hnone : holds c = none) :
    pointing cells (Function.update holds c (some g)) f =
      pointing cells holds f + if g = f then 1 else 0 := by
  have hupdate := @pointing_update _ _ _ _ holds _ _ hc (some g) f
  rw [hnone] at hupdate
  simpa using hupdate

/-- A cell is cleared. -/
theorem pointing_clear (hc : c ∈ cells) (hsome : holds c = some g) :
    pointing cells (Function.update holds c none) f + (if g = f then 1 else 0) =
      pointing cells holds f := by
  have hupdate := @pointing_update _ _ _ _ holds _ _ hc none f
  rw [hsome] at hupdate
  simpa using hupdate

end OsAgentLab
