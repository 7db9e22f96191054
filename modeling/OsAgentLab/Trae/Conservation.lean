/-
Which pages a run gives back: all of them when nothing was mapped, and otherwise not the page
that the first walk to an empty entry takes.
-/
import Mathlib.Data.List.Perm.Basic
import Mathlib.Data.List.Nodup
import OsAgentLab.Trae.Translation

namespace OsAgentLab

namespace Trae

variable {s : Ram} {c c' : Caller} {ly : Layout} {x y : World} {call : Call} {calls : List Call}
  {pages free l : List Nat} {p t a w q : Nat}

/-- A call that maps or unmaps no page. -/
def Call.MapsNothing : Call → Prop
  | .map _ _ _ n _ => n = 0
  | .unmap _ _ n _ => n = 0
  | _ => True

/-- The free list of a state has these pages, in some order. -/
def FreePages (s : Ram) (pages : List Nat) : Prop :=
  ∃ l, FreeChain s.mem s.freelist l ∧ l.Perm pages

section Idle

/-- The roots of tables among the pages that the caller holds, whatever is in them. -/
def Caller.plain (c : Caller) : Caller :=
  { held := c.roots ++ c.held, roots := [], maps := fun _ _ => none }

/-- A layout without tables. -/
def Layout.plain (free : List Nat) : Layout :=
  { free := free, mid := fun _ _ => none, low := fun _ _ _ => none }

/-- The free list and the pages of the caller are the pages of the beginning. -/
structure Plain (s : Ram) (c : Caller) (pages free : List Nat) : Prop where
  laid : Laid s c.plain (.plain free)
  perm : (free ++ (c.roots ++ c.held)).Perm pages
  nodup : pages.Nodup

/-- The same pages are held. -/
theorem Laid.reheld (h : Laid s c ly) (hroots : c'.roots = c.roots) (hmaps : c'.maps = c.maps)
    (hheld : ∀ q, q ∈ c'.held ↔ q ∈ c.held) : Laid s c' ly := by
  have hhas : ∀ part q, Has c' ly part q ↔ Has c ly part q := by
    intro part q
    cases part with
    | free => exact Iff.rfl
    | held => exact hheld q
    | root r => rw [Has, Has, hroots]
    | mid r i => rw [Has, Has, hroots]
    | low r i j => rw [Has, Has, hroots]
  refine h.relabel rfl (h.apart.mono fun part q hq => (hhas part q).1 hq) ?_
    (fun part q hq => Or.inl ((hhas part q).1 hq)) fun part q _ _ j _ => ?_
  · constructor
    · rw [hroots]
      exact h.shape.low
    · rw [hroots, hmaps]
      exact h.shape.maps
  · cases part with
    | low r i k => rw [entryAt, entryAt, hmaps]
    | free => rfl
    | held => rfl
    | root r => rfl
    | mid r i => rfl

theorem perm_filter_ne (hnodup : l.Nodup) (hp : p ∈ l) : l.Perm (p :: l.filter (· ≠ p)) := by
  refine (List.perm_cons_erase hp).trans (List.Perm.cons p ?_)
  rw [hnodup.erase_eq_filter]
  refine List.Perm.of_eq (List.filter_congr fun q _ => ?_)
  by_cases hq : q = p <;> simp [hq]

/-- The first free page goes to the caller. -/
theorem Plain.take (h : Plain s c pages (t :: l))
    (hperm : (c'.roots ++ c'.held).Perm (t :: (c.roots ++ c.held))) :
    Plain { s with freelist := s.mem t } c' pages l := by
  obtain ⟨htaken, hunowned⟩ := h.laid.take rfl
  have hpage : InRange { s with freelist := s.mem t } t := (h.laid.head_page rfl).congr rfl rfl
  refine ⟨(htaken.hold hpage hunowned).reheld rfl rfl fun q => hperm.mem_iff, ?_, h.nodup⟩
  refine ((List.Perm.append_left l hperm).trans ?_).trans h.perm
  exact List.perm_middle

/-- A page of the caller goes to the front of the free list. -/
theorem Plain.give (h : Plain s c pages free) (hp : p ∈ c.roots ++ c.held)
    (hperm : (c.roots ++ c.held).Perm (p :: (c'.roots ++ c'.held))) :
    Plain { s with mem := Function.update s.mem p s.freelist, freelist := p } c' pages
      (p :: free) := by
  obtain ⟨hdropped, hunowned⟩ := h.laid.drop hp
  have hrange := h.laid.page .held p hp
  have hnodup : (p :: (c'.roots ++ c'.held)).Nodup :=
    hperm.nodup_iff.1 ((List.nodup_append.1 (h.perm.nodup_iff.2 h.nodup)).2.1)
  refine ⟨(hdropped.giveBack hrange hunowned).reheld rfl rfl fun q => ?_, ?_, h.nodup⟩
  · rw [drop_held]
    constructor
    · intro hq
      refine ⟨hperm.mem_iff.2 (List.mem_cons_of_mem p hq), ?_⟩
      rintro rfl
      exact (List.nodup_cons.1 hnodup).1 hq
    · rintro ⟨hq, hne⟩
      exact (List.mem_cons.1 (hperm.mem_iff.1 hq)).resolve_left hne
  · refine (List.Perm.trans ?_ (List.Perm.append_left free hperm.symm)).trans h.perm
    exact List.perm_middle.symm

theorem Plain.nodup_held (h : Plain s c pages free) : (c.roots ++ c.held).Nodup :=
  (List.nodup_append.1 (h.perm.nodup_iff.2 h.nodup)).2.1

/-- A call that maps and unmaps nothing moves whole pages only. -/
theorem Plain.step (h : Plain x.ram x.caller pages free) (hstep : Step x call y)
    (hidle : call.MapsNothing) : ∃ free', Plain y.ram y.caller pages free' := by
  obtain ⟨hmay, r, hrun, hafter⟩ := hstep
  obtain ⟨s', c'⟩ := y
  obtain rfl : c' = x.caller.after r call := hafter
  have hnodup := h.nodup_held
  cases call with
  | kalloc =>
      rw [Call.run] at hrun
      cases free with
      | nil =>
          rw [kalloc_nil h.laid rfl] at hrun
          cases hrun
          exact ⟨[], h⟩
      | cons t l =>
          rw [kalloc_cons h.laid rfl] at hrun
          cases hrun
          refine ⟨l, h.take ?_⟩
          rw [Caller.after, if_neg ((h.laid.head_page rfl).pos h.laid.start)]
          exact List.perm_middle
  | create =>
      rw [Call.run, pagetableCreate] at hrun
      cases free with
      | nil =>
          rw [Prog.bind_ok (kalloc_nil h.laid rfl), if_pos rfl] at hrun
          cases hrun
      | cons t l =>
          rw [Prog.bind_ok (kalloc_cons h.laid rfl),
            if_neg ((h.laid.head_page rfl).pos h.laid.start)] at hrun
          cases hrun
          exact ⟨l, h.take (List.Perm.refl _)⟩
  | kfree p =>
      have hp : p ∈ x.caller.roots ++ x.caller.held := List.mem_append_right _ hmay
      rw [Call.run, Prog.bind_ok (kfree_run (h.laid.page .held p hp))] at hrun
      cases hrun
      refine ⟨p :: free, h.give hp ?_⟩
      have hheld := perm_filter_ne (List.nodup_append.1 hnodup).2.1 hmay
      exact (List.Perm.append_left _ hheld).trans List.perm_middle
  | destroy pt =>
      have hp : pt ∈ x.caller.roots ++ x.caller.held := List.mem_append_left _ hmay
      rw [Call.run, pagetableDestroy, Prog.bind_ok (kfree_run (h.laid.page .held pt hp))] at hrun
      cases hrun
      refine ⟨pt :: free, h.give hp ?_⟩
      have hroots := perm_filter_ne (List.nodup_append.1 hnodup).1 hmay
      exact List.Perm.append_right _ hroots
  | map pt va pa n perm =>
      obtain rfl : n = 0 := hidle
      obtain ⟨-, haligned, hva, -⟩ := hmay
      have hsame : va / pageSize * pageSize = va :=
        Nat.div_mul_cancel (Nat.dvd_of_mod_eq_zero haligned)
      have hstop : u64 (va + 0 * pageSize) = va := by
        rw [Nat.zero_mul]
        exact u64_of_lt (by omega)
      rw [Call.run, mapPages, hstop, hsame, mapLoop, if_neg (Nat.lt_irrefl va)] at hrun
      cases hrun
      exact ⟨free, h⟩
  | unmap pt va n doFree =>
      obtain rfl : n = 0 := hidle
      cases hrun
      exact ⟨free, h⟩
  | store a w =>
      cases hrun
      refine ⟨free, h.laid.store ?_ w, h.perm, h.nodup⟩
      rcases hmay with ⟨p, hp, hword⟩ | hout
      · exact Or.inl ⟨p, List.mem_append_right _ hp, hword⟩
      · exact Or.inr hout

theorem Plain.run {good : Ram → Call → Prop} (hrun : Run good x calls y)
    (h : Plain x.ram x.caller pages free) (hidle : ∀ call ∈ calls, call.MapsNothing) :
    ∃ free', Plain y.ram y.caller pages free' := by
  induction hrun generalizing free with
  | nil x => exact ⟨free, h⟩
  | cons _ hstep _ ih =>
      obtain ⟨free₁, h₁⟩ := h.step hstep (hidle _ List.mem_cons_self)
      exact ih h₁ fun call hcall => hidle call (List.mem_cons_of_mem _ hcall)

theorem Initial.plain (h : Initial x pages) : Plain x.ram x.caller pages pages := by
  have hheld : x.caller.plain.held = [] := by
    rw [Caller.plain, h.roots, h.held]
    rfl
  have hplain : Initial ⟨x.ram, x.caller.plain⟩ pages :=
    ⟨hheld, rfl, fun _ _ => rfl, h.start, h.stop, h.chain, h.nodup, h.page⟩
  refine ⟨hplain.laid, ?_, h.nodup⟩
  rw [h.roots, h.held, List.append_nil, List.append_nil]

end Idle

section Losses

/-- The free list is determined by memory. -/
theorem FreeChain.unique {mem : Nat → Nat} {head : Nat} {l l' : List Nat}
    (h : FreeChain mem head l) (h' : FreeChain mem head l') (hl : 0 ∉ l) (hl' : 0 ∉ l') :
    l = l' := by
  induction l generalizing head l' with
  | nil =>
      cases l' with
      | nil => rfl
      | cons p l' =>
          have hzero : p = 0 := h'.1.symm.trans h
          exact absurd (hzero ▸ List.mem_cons_self) hl'
  | cons p l ih =>
      cases l' with
      | nil =>
          have hzero : p = 0 := h.1.symm.trans h'
          exact absurd (hzero ▸ List.mem_cons_self) hl
      | cons p' l' =>
          obtain rfl : p = p' := h.1.symm.trans h'.1
          rw [ih h.2 h'.2 (fun hin => hl (List.mem_cons_of_mem p hin))
            fun hin => hl' (List.mem_cons_of_mem p hin)]

/-- Nothing is mapped in any table. -/
def Caller.Unmapped (c : Caller) : Prop := ∀ pt v, c.maps pt v = none

theorem Caller.Unmapped.after (h : c.Unmapped) (r : Nat) (hidle : call.MapsNothing) :
    (c.after r call).Unmapped := by
  have hupdate : ∀ pt,
      Caller.Unmapped { c with maps := Function.update c.maps pt fun _ => none } := by
    intro pt q v
    dsimp only
    by_cases hq : q = pt
    · rw [hq, Function.update_self]
    · rw [Function.update_of_ne hq]
      exact h q v
  cases call with
  | kalloc =>
      rw [Caller.after]
      split
      · exact h
      · exact h
  | kfree p => exact h
  | create => exact hupdate r
  | map pt va pa n perm =>
      obtain rfl : n = 0 := hidle
      exact h
  | unmap pt va n doFree =>
      obtain rfl : n = 0 := hidle
      exact h
  | destroy pt => exact hupdate pt
  | store a w => exact h

/-- The first call that maps a page loses one, or none does. -/
theorem step_loses (h : Laid x.ram x.caller ly) (hnone : x.caller.Unmapped)
    (hstep : Step x call y) (hclean : call.Clean x.ram) :
    call.MapsNothing ∨ ∃ ly', Laid y.ram y.caller ly' ∧
      (∀ q, Lost x.caller ly q → Lost y.caller ly' q) ∧ ∃ q ∈ ly.free, Lost y.caller ly' q := by
  cases call with
  | kalloc => exact Or.inl trivial
  | kfree p => exact Or.inl trivial
  | create => exact Or.inl trivial
  | destroy pt => exact Or.inl trivial
  | store a w => exact Or.inl trivial
  | map pt va pa n perm =>
      obtain ⟨ly', hlaid, hkeep, hcost⟩ := step_map h hstep hclean
      by_cases hn : n = 0
      · exact Or.inl hn
      · exact Or.inr ⟨ly', hlaid, hkeep, hcost hn (hnone _ _)⟩
  | unmap pt va n doFree =>
      obtain ⟨ly', -, -, hmapped⟩ := step_unmap h hstep
      by_cases hn : n = 0
      · exact Or.inl hn
      · exact absurd (hnone _ _) (hmapped hn)

theorem run_loses (hrun : Run (fun s call => call.Clean s) x calls y)
    (h : Laid x.ram x.caller ly) (hnone : x.caller.Unmapped) :
    (∀ call ∈ calls, call.MapsNothing) ∨
      ∃ ly', Laid y.ram y.caller ly' ∧ ∃ q, ¬Lost x.caller ly q ∧ Lost y.caller ly' q := by
  induction hrun generalizing ly with
  | nil x => exact Or.inl fun call hcall => absurd hcall List.not_mem_nil
  | cons hgood hstep hrest ih =>
      rcases step_loses h hnone hstep hgood with hidle | ⟨ly₁, h₁, -, q, hq, hlost⟩
      · obtain ⟨ly₁, h₁, hkeep⟩ := step_laid h hstep hgood
        obtain ⟨-, r, -, hafter⟩ := hstep
        rcases ih h₁ (hafter ▸ hnone.after r hidle) with hall | ⟨ly', h', q, hq, hlost⟩
        · refine Or.inl fun call hcall => ?_
          rcases List.mem_cons.1 hcall with rfl | hcall
          · exact hidle
          · exact hall call hcall
        · exact Or.inr ⟨ly', h', q, fun hold => hq (hkeep q hold), hlost⟩
      · obtain ⟨ly', h', hkeep⟩ := Run.laid hrest h₁
        exact Or.inr ⟨ly', h', q, fun hold => hold.1 hq, hkeep q hlost⟩

end Losses

section Example

/-- Four free pages. -/
def fourPages : World where
  ram := { mem := fun a => if a = 0x80400000 then 0x80401000
             else if a = 0x80401000 then 0x80402000
             else if a = 0x80402000 then 0x80403000 else 0,
           freelist := 0x80400000, allocStart := 0x80400000, allocEnd := 0x80404000 }
  caller := { held := [], roots := [], maps := fun _ _ => none }

theorem fourPages_initial :
    Initial fourPages [0x80400000, 0x80401000, 0x80402000, 0x80403000] where
  held := rfl
  roots := rfl
  maps _ _ := rfl
  start := by decide
  stop := by decide
  chain := ⟨rfl, rfl, rfl, rfl, rfl⟩
  nodup := by decide
  page p hp := by
    simp only [List.mem_cons, List.not_mem_nil, or_false] at hp
    rcases hp with rfl | rfl | rfl | rfl <;> exact ⟨by decide, by decide, by decide⟩

def createdWorld : World := fourPages.next .create 0x80400000

def mappedWorld : World := createdWorld.next (.map 0x80400000 0 0x10000000 1 6) 0

def unmappedWorld : World := mappedWorld.next (.unmap 0x80400000 0 1 false) 0

def destroyedWorld : World := unmappedWorld.next (.destroy 0x80400000) 0

theorem destroyedWorld_run :
    Run (fun _ _ => True) fourPages
      [.create, .map 0x80400000 0 0x10000000 1 6, .unmap 0x80400000 0 1 false,
        .destroy 0x80400000] destroyedWorld := by
  have hcreated : Step fourPages .create createdWorld := ⟨trivial, 0x80400000, rfl, rfl⟩
  have hmapped : Step createdWorld (.map 0x80400000 0 0x10000000 1 6) mappedWorld :=
    ⟨⟨List.mem_cons_self, by decide, by decide, ⟨by decide, by decide, by decide⟩⟩, 0, rfl, rfl⟩
  have hunmapped : Step mappedWorld (.unmap 0x80400000 0 1 false) unmappedWorld :=
    ⟨⟨List.mem_cons_self, by decide, by decide, Bool.noConfusion, trivial⟩, 0, rfl, rfl⟩
  have hdestroyed : Step unmappedWorld (.destroy 0x80400000) destroyedWorld :=
    ⟨List.mem_cons_self, 0, rfl, rfl⟩
  exact .cons trivial hcreated (.cons trivial hmapped (.cons trivial hunmapped
    (.cons trivial hdestroyed (.nil _))))

end Example

end Trae

end OsAgentLab
