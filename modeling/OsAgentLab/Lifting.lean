/-
Programs whose successful calls do the same in a changed state: a call that comes back with a
value there does so here, and leaves the changed state behind.
-/
import OsAgentLab.Program

namespace OsAgentLab

namespace Prog

universe u

variable {σ ε α β : Type u} {f : σ → σ}

/-- What `m` returns in a state, it returns in the state changed by `f`. -/
def Lifts (f : σ → σ) (m : Prog σ ε α) : Prop :=
  ∀ s a s', m s = (.ok a, s') → m (f s) = (.ok a, f s')

namespace Lifts

theorem pure (a : α) : Lifts f (Pure.pure a : Prog σ ε α) := by
  intro s b s' h
  obtain ⟨hb, rfl⟩ := Prod.mk.inj h
  rw [pure_apply, hb]

theorem fail (e : ε) : Lifts f (Prog.fail e : Prog σ ε α) := by
  intro s a s' h
  cases (Prod.mk.inj h).1

theorem hang : Lifts f (Prog.hang : Prog σ ε α) := by
  intro s a s' h
  cases (Prod.mk.inj h).1

theorem modify {g : σ → σ} (h : ∀ s, g (f s) = f (g s)) :
    Lifts f (Prog.modify g : Prog σ ε PUnit) := by
  intro s a s' hrun
  obtain ⟨-, rfl⟩ := Prod.mk.inj hrun
  rw [modify_apply, h]

theorem bind {m : Prog σ ε α} {k : α → Prog σ ε β} (hm : Lifts f m) (hk : ∀ a, Lifts f (k a)) :
    Lifts f (m >>= k) := by
  intro s b s' h
  obtain ⟨a, s₁, hrun, hrest⟩ := of_bind_ok h
  rw [bind_ok (hm s a s₁ hrun)]
  exact hk a s₁ b s' hrest

theorem orElse {m : Prog σ ε α} (hm : Lifts f m) (e : ε) : Lifts f (Prog.orElse m e) := by
  intro s a s' h
  exact orElse_ok (hm s a s' (of_orElse_ok h)) e

theorem ite {p : Prop} [Decidable p] {m m' : Prog σ ε α} (hm : Lifts f m) (hm' : Lifts f m') :
    Lifts f (if p then m else m') := by
  by_cases hp : p
  · rw [if_pos hp]
    exact hm
  · rw [if_neg hp]
    exact hm'

theorem forCount {body : Nat → Prog σ ε PUnit} (h : ∀ i, Lifts f (body i)) (count first : Nat) :
    Lifts f (Prog.forCount body count first) := by
  induction count generalizing first with
  | zero => exact Lifts.pure _
  | succ count ih => exact (h first).bind fun _ => ih (first + 1)

end Lifts

end Prog

end OsAgentLab
