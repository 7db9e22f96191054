/-
Orbits inside a finite set of places: the places a step leads through, in order and
without repetition, up to where it leaves the set or comes back.
-/
import OsAgentLab.Ring
import Mathlib.Data.List.Induction
import Mathlib.Data.List.Perm.Subperm

namespace OsAgentLab

universe u

variable {α : Type u}

/-- The places with `P` that the step leads through from `a` on. -/
inductive Visits (next : α → α) (P : α → Prop) (a : α) : α → Prop
  | here (h : P a) : Visits next P a a
  | onward {x : α} (hx : Visits next P a x) (h : P (next x)) : Visits next P a (next x)

/-- The places behind `a` in the order of the step; behind the last one the step leaves
the places with `P` or comes back. -/
structure Orbit (next : α → α) (P : α → Prop) (a : α) (rest : List α) : Prop where
  trail : Trail next a rest
  nodup : (a :: rest).Nodup
  inside : ∀ x ∈ a :: rest, P x
  back : P (next (rest.getLastD a)) → next (rest.getLastD a) ∈ a :: rest

variable {next : α → α} {P : α → Prop} {a x : α} {rest : List α}

theorem Trail.snoc (h : Trail next a rest) : Trail next a (rest ++ [next (rest.getLastD a)]) :=
  trail_append.mpr ⟨h, rfl, trivial⟩

/-- The step from a place of a trail leads to the next one or behind the end. -/
theorem Trail.next_mem (h : Trail next a rest) (hx : x ∈ a :: rest) :
    next x ∈ rest ∨ x = rest.getLastD a := by
  induction rest generalizing a with
  | nil => exact Or.inr (List.mem_singleton.mp hx)
  | cons b rest ih =>
      obtain ⟨hnext, hrest⟩ := h
      rw [List.getLastD_cons]
      rcases List.mem_cons.mp hx with rfl | hx
      · exact Or.inl (hnext ▸ List.mem_cons_self)
      · rcases ih hrest hx with hmem | hlast
        · exact Or.inl (List.mem_cons_of_mem b hmem)
        · exact Or.inr hlast

theorem Trail.visits (h : Trail next a rest) (hinside : ∀ x ∈ a :: rest, P x) :
    ∀ x ∈ a :: rest, Visits next P a x := by
  induction rest using List.reverseRecOn with
  | nil =>
      intro x hx
      rw [List.mem_singleton.mp hx]
      exact Visits.here (hinside a List.mem_cons_self)
  | append_singleton rest b ih =>
      obtain ⟨hrest, hlast, -⟩ := trail_append.mp h
      intro x hx
      have hprev := ih hrest fun y hy => hinside y (by
        rw [← List.cons_append]
        exact List.mem_append_left _ hy)
      rw [← List.cons_append] at hx
      rcases List.mem_append.mp hx with hx | hx
      · exact hprev x hx
      · rw [List.mem_singleton.mp hx, ← hlast]
        refine Visits.onward (hprev _ (getLastD_mem rest a)) ?_
        rw [hlast]
        exact hinside b (by simp)

/-- The orbit holds the visited places. -/
theorem Orbit.visits_iff (h : Orbit next P a rest) : Visits next P a x ↔ x ∈ a :: rest := by
  refine ⟨fun hx => ?_, h.trail.visits h.inside x⟩
  induction hx with
  | here => exact List.mem_cons_self
  | @onward y _ hy ih =>
      rcases h.trail.next_mem ih with hmem | hlast
      · exact List.mem_cons_of_mem a hmem
      · rw [hlast] at hy ⊢
        exact h.back hy

/-- In a finite set of places every orbit ends or comes back. -/
theorem orbit_exists (all : List α) (hall : ∀ x, P x → x ∈ all) (ha : P a) :
    ∃ rest, Orbit next P a rest := by
  -- the trail grows until the step leaves the places or repeats one
  have hgrow : ∀ n rest, Trail next a rest → (a :: rest).Nodup → (∀ x ∈ a :: rest, P x) →
      all.length ≤ n + (a :: rest).length → ∃ rest, Orbit next P a rest := by
    intro n
    induction n with
    | zero =>
        intro rest htrail hnodup hinside hlen
        refine ⟨rest, htrail, hnodup, hinside, fun hnext => ?_⟩
        by_contra hnew
        have hsub : next (rest.getLastD a) :: a :: rest ⊆ all := fun x hx => by
          rcases List.mem_cons.mp hx with rfl | hx
          · exact hall _ hnext
          · exact hall x (hinside x hx)
        have hle := ((List.nodup_cons.mpr ⟨hnew, hnodup⟩).subperm hsub).length_le
        rw [List.length_cons] at hle
        omega
    | succ n ih =>
        intro rest htrail hnodup hinside hlen
        by_cases hnew : P (next (rest.getLastD a)) ∧ next (rest.getLastD a) ∉ a :: rest
        · refine ih _ htrail.snoc ?_ (fun x hx => ?_) ?_
          · rw [← List.cons_append]
            refine List.nodup_append.mpr ⟨hnodup, List.nodup_singleton _, fun x hx y hy heq => ?_⟩
            rw [List.mem_singleton.mp hy] at heq
            exact hnew.2 (heq ▸ hx)
          · rw [← List.cons_append] at hx
            rcases List.mem_append.mp hx with hx | hx
            · exact hinside x hx
            · rw [List.mem_singleton.mp hx]
              exact hnew.1
          · rw [← List.cons_append, List.length_append, List.length_singleton]
            omega
        · exact ⟨rest, htrail, hnodup, hinside, fun hnext => by
            by_contra hout
            exact hnew ⟨hnext, hout⟩⟩
  refine hgrow all.length [] trivial (List.nodup_singleton a) (fun x hx => ?_) (Nat.le_add_right _ _)
  rw [List.mem_singleton.mp hx]
  exact ha

end OsAgentLab
