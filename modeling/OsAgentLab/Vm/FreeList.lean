/-
What the free list holds, and what `kalloc` and `kfree` do to it.
-/
import OsAgentLab.Vm.Entries

namespace OsAgentLab

/-- From `head` on, the first words of the pages of the list lead from one to
the next, and to a null pointer behind the last one. -/
def FreeChain (m : Nat → UInt8) : Nat → List Nat → Prop
  | head, [] => head = 0
  | head, p :: l => head = p ∧ FreeChain m (le64 m p) l

/-- The free list holds the pages of `l`, in this order. -/
structure FreePages (s : Mm) (l : List Nat) : Prop where
  chain : FreeChain s.mem s.freelist l
  nodup : l.Nodup
  page : ∀ p ∈ l, IsPage p

variable {m m' : Nat → UInt8} {s s' : Mm} {l : List Nat} {p head : Nat}

theorem IsPage.inPage_unique {q x : Nat} (hp : IsPage p) (hq : IsPage q) (h : InPage p x)
    (h' : InPage q x) : p = q :=
  hp.aligned.eq_of_inPage hq.aligned h h'

theorem inPage_self (p : Nat) : InPage p p := ⟨Nat.le_refl _, by omega⟩

theorem FreeChain.congr (h : FreeChain m head l) (heq : ∀ p ∈ l, le64 m' p = le64 m p) :
    FreeChain m' head l := by
  induction l generalizing head with
  | nil => exact h
  | cons p l ih =>
      refine ⟨h.1, ?_⟩
      rw [heq p List.mem_cons_self]
      exact ih h.2 fun q hq => heq q (List.mem_cons_of_mem p hq)

namespace FreePages

/-- The list stays as it is when nothing is written to its pages. -/
theorem frame (h : FreePages s l) (hhead : s'.freelist = s.freelist)
    (hmem : ∀ p ∈ l, ∀ x, InPage p x → s'.mem x = s.mem x) : FreePages s' l where
  chain := by
    rw [hhead]
    refine h.chain.congr fun p hp => le64_congr fun i hi => hmem p hp _ ?_
    simp only [InPage]
    omega
  nodup := h.nodup
  page := h.page

theorem head_eq (h : FreePages s (p :: l)) : s.freelist = p := h.chain.1

theorem tail (h : FreePages s (p :: l)) : FreePages { s with freelist := le64 s.mem p } l where
  chain := h.chain.2
  nodup := (List.nodup_cons.mp h.nodup).2
  page q hq := h.page q (List.mem_cons_of_mem p hq)

end FreePages

/-- No page is left. -/
theorem kalloc_nil (h : FreePages s []) : kalloc s = (.ok none, s) := by
  have hhead : s.freelist = 0 := h.chain
  rw [kalloc, if_pos hhead]

/-- The first free page is handed out, filled with zeros. -/
theorem kalloc_cons (h : FreePages s (p :: l)) :
    ∃ s', kalloc s = (.ok (some p), s') ∧ FreePages s' l ∧
      s'.mem = putPage s.mem p (fun _ => 0) ∧ s'.satp = s.satp := by
  have hpage := h.page p List.mem_cons_self
  have hne : ¬ s.freelist = 0 := by
    rw [h.head_eq]
    exact Nat.ne_of_gt hpage.pos
  refine ⟨{ s with freelist := le64 s.mem p, mem := putPage s.mem p fun _ => 0 }, ?_, ?_, rfl, rfl⟩
  · rw [kalloc, if_neg hne, h.head_eq]
  refine FreePages.frame h.tail rfl fun q hq x hx => ?_
  change putPage s.mem p (fun _ => 0) x = s.mem x
  refine putPage_of_not_mem fun hin => ?_
  have heq := hpage.inPage_unique (h.page q (List.mem_cons_of_mem p hq)) hin hx
  exact (List.nodup_cons.mp h.nodup).1 (heq ▸ hq)

/-- A page that was not free becomes the first free one; its contents are lost. -/
theorem kfree_spec (h : FreePages s l) (hp : IsPage p) (hnot : p ∉ l) :
    ∃ s', kfree p s = (.ok (), s') ∧ FreePages s' (p :: l) ∧
      (∀ x, ¬ InPage p x → s'.mem x = s.mem x) ∧ s'.satp = s.satp := by
  have hal : ¬ p % pageSize ≠ 0 := not_not.mpr hp.aligned
  have hword : s.freelist < 18446744073709551616 := by
    cases l with
    | nil =>
        have hhead : s.freelist = 0 := h.chain
        omega
    | cons q l =>
        rw [h.head_eq]
        exact (h.page q List.mem_cons_self).lt
  have hframe : ∀ x, ¬ InPage p x → put64 s.mem p s.freelist x = s.mem x := by
    intro x hx
    exact put64_of_not_inPage (p := p) (i := 0) (by decide) hx
  refine ⟨{ s with mem := put64 s.mem p s.freelist, freelist := p }, ?_, ?_, hframe, rfl⟩
  · rw [kfree, if_neg hal]
  have hrest : FreePages { s with mem := put64 s.mem p s.freelist } l := by
    refine h.frame rfl fun q hq x hx => hframe x fun hin => ?_
    exact hnot (hp.inPage_unique (h.page q hq) hin hx ▸ hq)
  refine ⟨⟨rfl, ?_⟩, List.nodup_cons.mpr ⟨hnot, h.nodup⟩, ?_⟩
  · rw [show le64 (put64 s.mem p s.freelist) p = s.freelist from le64_put64_self hword]
    exact hrest.chain
  · intro q hq
    rcases List.mem_cons.mp hq with rfl | hq
    · exact hp
    · exact h.page q hq

end OsAgentLab
