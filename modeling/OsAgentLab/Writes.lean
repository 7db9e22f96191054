/-
Traces of writes: a write says for some places what they hold after it, and of several
writes to one place the last one counts.
-/
import Mathlib.Data.List.Basic
import Mathlib.Logic.Nontrivial.Basic

namespace OsAgentLab

namespace Writes

variable {ι α : Type} {m : ι → α} {w : ι → Option α} {l : List (ι → Option α)} {x : ι} {a : α}

/-- What is found after the writes of a trace. -/
def run (m : ι → α) : List (ι → Option α) → ι → α
  | [] => m
  | w :: l => run (fun x => (w x).getD (m x)) l

/-- A place that no write of the trace is about keeps what it holds. -/
theorem run_of_none (h : ∀ w ∈ l, w x = none) : run m l x = m x := by
  induction l generalizing m with
  | nil => rfl
  | cons w l ih =>
      rw [run, ih fun w hw => h w (List.mem_cons_of_mem _ hw), h w List.mem_cons_self,
        Option.getD_none]

/-- Where all writes to a place agree, it holds what they say. -/
theorem run_of_agree (h : ∀ w ∈ l, w x = none ∨ w x = some a)
    (hm : m x = a ∨ ∃ w ∈ l, w x = some a) : run m l x = a := by
  induction l generalizing m with
  | nil =>
      rcases hm with hm | ⟨w, hw, _⟩
      · exact hm
      · cases hw
  | cons w l ih =>
      apply ih fun w hw => h w (List.mem_cons_of_mem _ hw)
      rcases h w List.mem_cons_self with hw | hw
      · rcases hm with hm | ⟨w', hw', hsome⟩
        · left
          rw [hw, Option.getD_none, hm]
        · rcases List.mem_cons.mp hw' with rfl | hw'
          · rw [hw] at hsome
            cases hsome
          · exact Or.inr ⟨w', hw', hsome⟩
      · left
        rw [hw, Option.getD_some]

end Writes

end OsAgentLab
