/-
Rounds through a table: places are numbered on and on, and number `n` is place `n % N`.
-/
import Mathlib.Data.List.Nodup
import Mathlib.Data.List.Perm.Subperm
import Mathlib.Data.Nat.ModEq

namespace OsAgentLab

variable {a b m n q N : Nat} {ns : List Nat}

/-- Some of the numbers from `a` up to `b`, in order. -/
structure Stretch (a b : Nat) (ns : List Nat) : Prop where
  sorted : ns.Pairwise (· < ·)
  inside : ∀ n ∈ ns, a ≤ n ∧ n < b

namespace Stretch

theorem nil (a b : Nat) : Stretch a b [] :=
  ⟨List.Pairwise.nil, fun _ hn => absurd hn List.not_mem_nil⟩

theorem extend (h : Stretch a b ns) (hle : b ≤ m) : Stretch a m ns :=
  ⟨h.sorted, fun n hn => ⟨(h.inside n hn).1, (h.inside n hn).2.trans_le hle⟩⟩

theorem snoc (h : Stretch a b ns) (hle : a ≤ b) : Stretch a (b + 1) (ns ++ [b]) := by
  refine ⟨List.pairwise_append.mpr ⟨h.sorted, List.pairwise_singleton _ _, ?_⟩, ?_⟩
  · intro n hn m hm
    rw [List.mem_singleton.mp hm]
    exact (h.inside n hn).2
  · intro n hn
    rcases List.mem_append.mp hn with hn | hn
    · exact (h.extend b.le_succ).inside n hn
    · rw [List.mem_singleton.mp hn]
      exact ⟨hle, b.lt_succ_self⟩

end Stretch

/-- A round leads through every place. -/
theorem exists_round (a : Nat) (hq : q < N) : ∃ n, a ≤ n ∧ n < a + N ∧ n % N = q := by
  have hN : 0 < N := Nat.zero_lt_of_lt hq
  have hmod := Nat.mod_lt a hN
  have hsum := Nat.div_add_mod a N
  rcases Nat.lt_or_ge q (a % N) with hlt | hge
  · refine ⟨N * (a / N + 1) + q, ?_, ?_, ?_⟩
    · rw [Nat.mul_succ]
      omega
    · rw [Nat.mul_succ]
      omega
    · rw [Nat.mul_add_mod, Nat.mod_eq_of_lt hq]
  · refine ⟨N * (a / N) + q, by omega, by omega, ?_⟩
    rw [Nat.mul_add_mod, Nat.mod_eq_of_lt hq]

/-- Two numbers of one place are a round apart. -/
theorem round_le (hlt : m < n) (hmod : m % N = n % N) : m + N ≤ n := by
  have hdvd : N ∣ n - m := (Nat.modEq_iff_dvd' hlt.le).mp hmod
  have hle := Nat.le_of_dvd (Nat.sub_pos_of_lt hlt) hdvd
  omega

/-- No place comes twice in one round. -/
theorem Stretch.nodup (h : Stretch a b ns) (hb : b ≤ a + N) : (ns.map (· % N)).Nodup := by
  rw [List.Nodup, List.pairwise_map]
  refine h.sorted.imp_of_mem fun {m n} hm hn hlt heq => ?_
  have hfar := round_le hlt heq
  have hfirst := (h.inside m hm).1
  have hlast := (h.inside n hn).2
  omega

/-- Places without repetition that leave one out are fewer than the table has. -/
theorem length_lt_of_missing {l : List Nat} (hl : l.Nodup) (hinside : ∀ x ∈ l, x < N)
    (hq : q < N) (hmem : q ∉ l) : l.length < N := by
  have hnodup : (q :: l).Nodup := List.nodup_cons.mpr ⟨hmem, hl⟩
  have hsub : q :: l ⊆ List.range N := by
    intro x hx
    rcases List.mem_cons.mp hx with rfl | hx
    · exact List.mem_range.mpr hq
    · exact List.mem_range.mpr (hinside x hx)
  have hle := (List.subperm_of_subset hnodup hsub).length_le
  rw [List.length_range] at hle
  exact hle

end OsAgentLab
