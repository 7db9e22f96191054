/-
Cells that belong to owners.  No cell has two owners, and an operation keeps
this if it leaves each owner with cells of its own and with fresh ones that it
shares with nobody.
-/
import Mathlib.Logic.Basic

namespace OsAgentLab

universe u v

variable {κ : Type u} {α : Type v}

/-- No cell has two owners. -/
def Apart (owns : κ → α → Prop) : Prop := ∀ ⦃a b : κ⦄ ⦃x : α⦄, owns a x → owns b x → a = b

namespace Apart

variable {owns owns' fresh : κ → α → Prop} {free : α → Prop}

theorem mono (h : Apart owns) (hsub : ∀ a x, owns' a x → owns a x) : Apart owns' :=
  fun _ _ _ ha hb => h (hsub _ _ ha) (hsub _ _ hb)

/-- Owners that receive different fresh cells stay apart. -/
theorem update (h : Apart owns) (hfresh : Apart fresh) (hused : ∀ a x, owns a x → ¬ free x)
    (hfree : ∀ a x, fresh a x → free x) (hsub : ∀ a x, owns' a x → owns a x ∨ fresh a x) :
    Apart owns' := by
  intro a b x ha hb
  rcases hsub a x ha with ha | ha
  · rcases hsub b x hb with hb | hb
    · exact h ha hb
    · exact absurd (hfree b x hb) (hused a x ha)
  · rcases hsub b x hb with hb | hb
    · exact absurd (hfree a x ha) (hused b x hb)
    · exact hfresh ha hb

end Apart

end OsAgentLab
