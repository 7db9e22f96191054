/-
Chains of nodes linked by a successor function: each node is followed by its
successor until a successor is an end value.  Chains are determined by their
first node, repeat no node, and depend on the successors of their own nodes
only.
-/
import Mathlib.Data.List.Basic
import Mathlib.Data.List.Nodup

namespace OsAgentLab

universe u

variable {α : Type u}

/-- `IsChain next node stop a l`: from `a` on the successors run through the
nodes of `l` and then reach an end value. -/
inductive IsChain (next : α → α) (node stop : α → Prop) : α → List α → Prop
  | last {a : α} : node a → stop (next a) → IsChain next node stop a [a]
  | link {a : α} {l : List α} : node a → IsChain next node stop (next a) l →
      IsChain next node stop a (a :: l)

namespace IsChain

variable {next next' : α → α} {node stop : α → Prop} {a b : α} {l l' : List α}

theorem head_eq (h : IsChain next node stop a l) : ∃ rest, l = a :: rest := by
  cases h with
  | last _ _ => exact ⟨[], rfl⟩
  | link _ _ => exact ⟨_, rfl⟩

theorem ne_nil (h : IsChain next node stop a l) : l ≠ [] := by
  obtain ⟨rest, rfl⟩ := h.head_eq
  exact List.cons_ne_nil a rest

theorem head_mem (h : IsChain next node stop a l) : a ∈ l := by
  obtain ⟨rest, rfl⟩ := h.head_eq
  exact List.mem_cons_self

theorem length_pos (h : IsChain next node stop a l) : 0 < l.length :=
  List.length_pos_iff.mpr h.ne_nil

theorem node_of_mem (h : IsChain next node stop a l) : ∀ x ∈ l, node x := by
  induction h with
  | last hnode _ =>
      intro x hx
      rw [List.mem_singleton.mp hx]
      exact hnode
  | link hnode _ ih =>
      intro x hx
      rcases List.mem_cons.mp hx with rfl | hx
      · exact hnode
      · exact ih x hx

theorem head_node (h : IsChain next node stop a l) : node a :=
  h.node_of_mem a h.head_mem

/-- A node has at most one chain, because no node is an end value. -/
theorem unique (hstop : ∀ x, stop x → ¬ node x) (h : IsChain next node stop a l)
    (h' : IsChain next node stop a l') : l = l' := by
  induction h generalizing l' with
  | last _ hend =>
      cases h' with
      | last _ _ => rfl
      | link _ hrest => exact absurd hrest.head_node (hstop _ hend)
  | link _ hrest ih =>
      cases h' with
      | last _ hend => exact absurd hrest.head_node (hstop _ hend)
      | link _ hrest' => rw [ih hrest']

/-- Every node of a chain heads the rest of the chain. -/
theorem suffix (h : IsChain next node stop a l) {x : α} (hx : x ∈ l) :
    ∃ pre suf, l = pre ++ suf ∧ IsChain next node stop x suf := by
  induction h with
  | last hnode hend =>
      rw [List.mem_singleton.mp hx]
      exact ⟨[], [_], rfl, .last hnode hend⟩
  | link hnode hrest ih =>
      rcases List.mem_cons.mp hx with rfl | hx
      · exact ⟨[], _, rfl, .link hnode hrest⟩
      · obtain ⟨pre, suf, rfl, hsuf⟩ := ih hx
        exact ⟨_ :: pre, suf, rfl, hsuf⟩

theorem nodup (hstop : ∀ x, stop x → ¬ node x) (h : IsChain next node stop a l) :
    l.Nodup := by
  induction h with
  | last _ _ => exact List.nodup_singleton _
  | link hnode hrest ih =>
      refine List.nodup_cons.mpr ⟨?_, ih⟩
      -- a repeated node would head a chain that is longer than itself
      intro hmem
      obtain ⟨pre, suf, rfl, hsuf⟩ := hrest.suffix hmem
      have heq := hsuf.unique hstop (.link hnode hrest)
      have hlen := congrArg List.length heq
      simp only [List.length_cons, List.length_append] at hlen
      omega

/-- Two chains with a common node end in the same way. -/
theorem disjoint_or_suffix (hstop : ∀ x, stop x → ¬ node x)
    (h : IsChain next node stop a l) (h' : IsChain next node stop b l') {x : α}
    (hx : x ∈ l) (hx' : x ∈ l') :
    ∃ pre pre' suf, l = pre ++ suf ∧ l' = pre' ++ suf ∧ suf ≠ [] := by
  obtain ⟨pre, suf, hl, hsuf⟩ := h.suffix hx
  obtain ⟨pre', suf', hl', hsuf'⟩ := h'.suffix hx'
  have heq := hsuf.unique hstop hsuf'
  subst heq
  exact ⟨pre, pre', suf, hl, hl', hsuf.ne_nil⟩

/-- A chain survives any change of successors outside of it. -/
theorem frame (h : IsChain next node stop a l) (heq : ∀ x ∈ l, next' x = next x) :
    IsChain next' node stop a l := by
  induction h with
  | last hnode hend =>
      refine .last hnode ?_
      rw [heq _ (List.mem_singleton.mpr rfl)]
      exact hend
  | link hnode _ ih =>
      refine .link hnode ?_
      rw [heq _ List.mem_cons_self]
      exact ih fun x hx => heq x (List.mem_cons_of_mem _ hx)

theorem node_congr {node' : α → Prop} (h : IsChain next node stop a l)
    (hnode : ∀ x ∈ l, node' x) : IsChain next node' stop a l := by
  induction h with
  | last _ hend => exact .last (hnode _ (List.mem_singleton.mpr rfl)) hend
  | link _ _ ih =>
      exact .link (hnode _ List.mem_cons_self)
        (ih fun x hx => hnode x (List.mem_cons_of_mem _ hx))

/-- Behind its last node a chain can be continued by another one. -/
theorem append (h : IsChain next node stop a l) (hnodup : l.Nodup) {z : α}
    (hz : l.getLast h.ne_nil = z)
    (heq : ∀ x ∈ l, x ≠ z → next' x = next x)
    (hcont : IsChain next' node stop (next' z) l') :
    IsChain next' node stop a (l ++ l') := by
  induction h with
  | last hnode _ =>
      simp only [List.getLast_singleton] at hz
      subst hz
      exact .link hnode hcont
  | @link c rest hnode hrest ih =>
      obtain ⟨hnotin, hnodup⟩ := List.nodup_cons.mp hnodup
      have hlast : rest.getLast hrest.ne_nil = z := by
        rw [← hz, List.getLast_cons hrest.ne_nil]
      have hne : c ≠ z := by
        rintro rfl
        exact hnotin (hlast ▸ List.getLast_mem hrest.ne_nil)
      refine .link hnode ?_
      rw [heq c List.mem_cons_self hne]
      exact ih hnodup hlast fun x hx => heq x (List.mem_cons_of_mem c hx)

/-- Behind any of its nodes a chain can be cut off. -/
theorem take (h : IsChain next node stop a l) (hnodup : l.Nodup) {n : Nat}
    (hn : n < l.length) (heq : ∀ x ∈ l.take n, next' x = next x)
    (hend : stop (next' (l.get ⟨n, hn⟩))) :
    IsChain next' node stop a (l.take (n + 1)) := by
  induction h generalizing n with
  | last hnode _ =>
      simp only [List.length_singleton, Nat.lt_one_iff] at hn
      subst hn
      exact .last hnode hend
  | @link c rest hnode hrest ih =>
      cases n with
      | zero => exact .last hnode hend
      | succ n =>
          refine .link hnode ?_
          rw [heq c (by simp)]
          exact ih (List.nodup_cons.mp hnodup).2 (Nat.lt_of_succ_lt_succ hn)
            (fun x hx => heq x (by
              rw [List.take_succ_cons]
              exact List.mem_cons_of_mem c hx)) hend

/-- The node behind the `n`-th one heads the rest of the chain. -/
theorem drop (h : IsChain next node stop a l) {n : Nat} (hn : n < l.length) :
    IsChain next node stop (l.get ⟨n, hn⟩) (l.drop n) := by
  induction h generalizing n with
  | last hnode hend =>
      simp only [List.length_singleton, Nat.lt_one_iff] at hn
      subst hn
      exact .last hnode hend
  | @link c rest hnode hrest ih =>
      cases n with
      | zero => exact .link hnode hrest
      | succ n => exact ih (Nat.lt_of_succ_lt_succ hn)

theorem rest_chain (h : IsChain next node stop a (b :: l)) (hl : l ≠ []) :
    IsChain next node stop (next b) l := by
  cases h with
  | last _ _ => exact absurd rfl hl
  | link _ hrest => exact hrest

/-- Inside a chain the successor of a node is the next node. -/
theorem next_get (h : IsChain next node stop a l) {n : Nat} (hn : n + 1 < l.length) :
    next (l.get ⟨n, Nat.lt_of_succ_lt hn⟩) = l.get ⟨n + 1, hn⟩ := by
  have hdrop := h.drop (Nat.lt_of_succ_lt hn)
  rw [List.drop_eq_getElem_cons (Nat.lt_of_succ_lt hn)] at hdrop
  have hne : l.drop (n + 1) ≠ [] := by
    intro hnil
    have hlen := congrArg List.length hnil
    simp only [List.length_drop, List.length_nil] at hlen
    omega
  obtain ⟨tail, htail⟩ := (hdrop.rest_chain hne).head_eq
  rw [List.drop_eq_getElem_cons hn] at htail
  exact (List.cons.inj htail).1.symm

/-- The successor of the last node is an end value. -/
theorem next_getLast (h : IsChain next node stop a l) :
    stop (next (l.getLast h.ne_nil)) := by
  induction h with
  | last _ hend => exact hend
  | link _ hrest ih =>
      rw [List.getLast_cons hrest.ne_nil]
      exact ih

end IsChain

end OsAgentLab
