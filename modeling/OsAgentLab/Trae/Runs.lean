/-
Any calls of the allocator and of the page tables, one after the other, with the caller's own
stores between them; and the runs in which no page with an old entry becomes a table.
-/
import OsAgentLab.Trae.Passes

namespace OsAgentLab

namespace Trae

section Calls

/-- The calls, and a store of the caller. -/
inductive Call
  | kalloc
  | kfree (p : Nat)
  | create
  | map (pt va pa n perm : Nat)
  | unmap (pt va n : Nat) (doFree : Bool)
  | destroy (pt : Nat)
  | store (a w : Nat)
deriving DecidableEq, Repr

def Call.run : Call → RamM Nat
  | .kalloc => Trae.kalloc
  | .kfree p => do
      Trae.kfree p
      pure 0
  | .create => pagetableCreate
  | .map pt va pa n perm => do
      mapPages pt va pa (n * pageSize) perm
      pure 0
  | .unmap pt va n doFree => do
      unmapPages pt va n doFree
      pure 0
  | .destroy pt => do
      pagetableDestroy pt
      pure 0
  | .store a w => do
      Trae.store a w
      pure 0

/-- What the caller knows after a call that returned `r`. -/
def Caller.after (c : Caller) (r : Nat) : Call → Caller
  | .kalloc => if r = 0 then c else c.hold r
  | .kfree p => c.drop p
  | .create => c.addRoot r
  | .map pt va pa n perm => c.mapRange pt (va / pageSize) pa perm n
  | .unmap pt va n doFree => c.unmapRange pt doFree n (va / pageSize)
  | .destroy pt => c.dropRoot pt
  | .store _ _ => c

/-- A word that belongs to a page of the caller, or to none of the allocator's pages. -/
def Writable (s : Ram) (c : Caller) (a : Nat) : Prop :=
  (∃ p ∈ c.held, ∃ j, j < 512 ∧ a = p + 8 * j) ∨
    ∀ q, InRange s q → ∀ j, j < 512 → a ≠ q + 8 * j

/-- The caller's part: page-aligned arguments below 2^39, live tables, and pages of its own. -/
def Call.Permitted (s : Ram) (c : Caller) : Call → Prop
  | .kalloc => True
  | .kfree p => p ∈ c.held
  | .create => True
  | .map pt va pa n perm => pt ∈ c.roots ∧ va % pageSize = 0 ∧
      va + n * pageSize ≤ 549755813888 ∧ Leaf.Valid ⟨pa, perm⟩
  | .unmap pt va n doFree => pt ∈ c.roots ∧ va % pageSize = 0 ∧
      va + n * pageSize ≤ 549755813888 ∧ c.MayUnmapRange pt doFree n (va / pageSize)
  | .destroy pt => pt ∈ c.roots
  | .store a _ => Writable s c a

/-- A page that a call takes for a table has no valid entry. -/
def Call.Clean (s : Ram) : Call → Prop
  | .create => s.freelist ≠ 0 → Trae.Clean s.mem s.freelist
  | .map pt va pa n perm => MapClean pt perm n va pa s
  | _ => True

/-- Memory and the caller's knowledge. -/
structure World where
  ram : Ram
  caller : Caller

/-- A call that came back. -/
def Step (x : World) (call : Call) (y : World) : Prop :=
  call.Permitted x.ram x.caller ∧
    ∃ r, call.run x.ram = (.ok r, y.ram) ∧ y.caller = x.caller.after r call

/-- Runs of calls that are good in the states where they are made. -/
inductive Run (good : Ram → Call → Prop) : World → List Call → World → Prop
  | nil (x : World) : Run good x [] x
  | cons {x y z : World} {call : Call} {calls : List Call} (hgood : good x.ram call)
      (hstep : Step x call y) (hrest : Run good y calls z) : Run good x (call :: calls) z

/-- Nothing is allocated but the pages of the free list, whatever they hold. -/
structure Initial (x : World) (pages : List Nat) : Prop where
  held : x.caller.held = []
  roots : x.caller.roots = []
  maps : ∀ pt v, x.caller.maps pt v = none
  start : 0 < x.ram.allocStart
  stop : x.ram.allocEnd ≤ 18446744073709551616
  chain : FreeChain x.ram.mem x.ram.freelist pages
  nodup : pages.Nodup
  page : ∀ p ∈ pages, InRange x.ram p

end Calls

section Steps

variable {s : Ram} {c : Caller} {ly : Layout} {x y z : World} {call : Call} {calls : List Call}
  {p pt a w r : Nat} {pages : List Nat}

theorem InRange.congr {s' : Ram} (h : InRange s p) (hstart : s'.allocStart = s.allocStart)
    (hstop : s'.allocEnd = s.allocEnd) : InRange s' p :=
  ⟨h.aligned, hstart ▸ h.start, hstop ▸ h.stop⟩

/-- A store of the caller reaches neither the free list nor a table. -/
theorem Laid.store (h : Laid s c ly) (ha : Writable s c a) (w : Nat) :
    Laid { s with mem := Function.update s.mem a w } c ly := by
  have hother : ∀ part q, Has c ly part q → part ≠ .held → ∀ j, j < 512 →
      Function.update s.mem a w (q + 8 * j) = s.mem (q + 8 * j) := by
    intro part q hq hne j hj
    refine Function.update_of_ne (fun heq => ?_) _ _
    rcases ha with ⟨p, hp, i, hi, rfl⟩ | hout
    · have hheld : Has c ly .held p := hp
      obtain ⟨rfl, -⟩ := word_inj (h.page _ q hq).aligned (h.page _ p hheld).aligned hj hi heq
      exact hne (h.apart hq hheld)
    · exact hout q (h.page _ q hq) j hj heq.symm
  refine ⟨h.start, h.stop, ?_, h.nodup, fun part q hq => (h.page part q hq).congr rfl rfl, h.apart,
    h.shape, fun part q hq htable j hj => ?_⟩
  · exact h.chain.congr fun q hq => hother .free q hq Part.noConfusion 0 (by decide)
  · refine (h.words part q hq htable j hj).of_eq (hother part q hq ?_ j hj)
    rintro rfl
    exact htable

theorem Initial.laid (h : Initial x pages) :
    Laid x.ram x.caller ⟨pages, fun _ _ => none, fun _ _ _ => none⟩ := by
  have hroots : ∀ {q : Nat}, q ∉ x.caller.roots := by
    intro q hq
    rw [h.roots] at hq
    exact absurd hq List.not_mem_nil
  have honly : ∀ part q, Has x.caller ⟨pages, fun _ _ => none, fun _ _ _ => none⟩ part q →
      part = .free ∧ q ∈ pages := by
    intro part q hq
    cases part with
    | free => exact ⟨rfl, hq⟩
    | held =>
        rw [Has, h.held] at hq
        exact absurd hq List.not_mem_nil
    | root pt => exact absurd hq.1 hroots
    | mid pt i => exact absurd hq.1 hroots
    | low pt i j => exact absurd hq.1 hroots
  refine ⟨h.start, h.stop, h.chain, h.nodup, fun part q hq => h.page q (honly part q hq).2, ?_, ?_,
    fun part q hq htable => ?_⟩
  · intro part part' q hq hq'
    rw [(honly part q hq).1, (honly part' q hq').1]
  · exact ⟨fun pt hpt => absurd hpt hroots, fun pt hpt => absurd hpt hroots⟩
  · rw [(honly part q hq).1] at htable
    exact htable.elim

theorem lost_hold (h : Lost c { ly with free := p :: pages } r) :
    Lost (c.hold p) { ly with free := pages } r := by
  obtain ⟨hfree, hheld, hroot⟩ := h
  rw [List.mem_cons, not_or] at hfree
  exact ⟨hfree.2, fun hin => (List.mem_cons.1 hin).elim hfree.1 hheld, hroot⟩

/-- `kalloc` hands out the first free page, if there is one. -/
theorem step_kalloc (h : Laid x.ram x.caller ly) (hstep : Step x .kalloc y) :
    ∃ ly', Laid y.ram y.caller ly' ∧ ∀ q, Lost x.caller ly q → Lost y.caller ly' q := by
  obtain ⟨-, r, hrun, hafter⟩ := hstep
  obtain ⟨s', c'⟩ := y
  obtain rfl : c' = if r = 0 then x.caller else x.caller.hold r := hafter
  rw [Call.run] at hrun
  dsimp only at hrun ⊢
  cases hfree : ly.free with
  | nil =>
      rw [kalloc_nil h hfree] at hrun
      cases hrun
      rw [if_pos rfl]
      exact ⟨ly, h, fun q hq => hq⟩
  | cons t l =>
      have hpage := h.head_page hfree
      obtain ⟨htaken, hunowned⟩ := h.take hfree
      rw [kalloc_cons h hfree] at hrun
      cases hrun
      rw [if_neg (hpage.pos h.start)]
      refine ⟨_, htaken.hold (hpage.congr rfl rfl) hunowned, fun q hq => lost_hold ?_⟩
      rw [← hfree]
      exact hq

/-- A page that the caller frees is free again. -/
theorem step_kfree (h : Laid x.ram x.caller ly) (hstep : Step x (.kfree p) y) :
    ∃ ly', Laid y.ram y.caller ly' ∧ ∀ q, Lost x.caller ly q → Lost y.caller ly' q := by
  obtain ⟨hheld, r, hrun, hafter⟩ := hstep
  obtain ⟨s', c'⟩ := y
  obtain rfl : c' = x.caller.drop p := hafter
  have hrange : InRange x.ram p := h.page .held p hheld
  obtain ⟨hdropped, hunowned⟩ := h.drop hheld
  rw [Call.run, Prog.bind_ok (kfree_run hrange)] at hrun
  cases hrun
  refine ⟨_, hdropped.giveBack hrange hunowned, fun q hq => ?_⟩
  refine ⟨fun hin => ?_, fun hin => hq.2.1 (drop_held.1 hin).1, hq.2.2⟩
  exact (List.mem_cons.1 hin).elim (fun heq => hq.2.1 (heq ▸ hheld)) hq.1

/-- A clean page becomes an empty table. -/
theorem step_create (h : Laid x.ram x.caller ly) (hstep : Step x .create y)
    (hclean : Call.create.Clean x.ram) :
    ∃ ly', Laid y.ram y.caller ly' ∧ ∀ q, Lost x.caller ly q → Lost y.caller ly' q := by
  obtain ⟨-, r, hrun, hafter⟩ := hstep
  obtain ⟨s', c'⟩ := y
  obtain rfl : c' = x.caller.addRoot r := hafter
  rw [Call.run, pagetableCreate] at hrun
  cases hfree : ly.free with
  | nil =>
      rw [Prog.bind_ok (kalloc_nil h hfree), if_pos rfl] at hrun
      cases hrun
  | cons t l =>
      have hpage := h.head_page hfree
      have hpos := hpage.pos h.start
      obtain ⟨htaken, hunowned⟩ := h.take hfree
      rw [Prog.bind_ok (kalloc_cons h hfree), if_neg hpos] at hrun
      cases hrun
      rw [Call.Clean, h.freelist_eq hfree] at hclean
      refine ⟨_, htaken.addRoot (hpage.congr rfl rfl) hunowned (hclean hpos), fun q hq => ?_⟩
      obtain ⟨hnot, hheld, hroot⟩ := hq
      rw [hfree, List.mem_cons, not_or] at hnot
      exact ⟨hnot.2, hheld, fun hin => (List.mem_cons.1 hin).elim hnot.1 hroot⟩

/-- The root of a table goes back to the free list. -/
theorem step_destroy (h : Laid x.ram x.caller ly) (hstep : Step x (.destroy pt) y) :
    ∃ ly', Laid y.ram y.caller ly' ∧ ∀ q, Lost x.caller ly q → Lost y.caller ly' q := by
  obtain ⟨hroot, r, hrun, hafter⟩ := hstep
  obtain ⟨s', c'⟩ := y
  obtain rfl : c' = x.caller.dropRoot pt := hafter
  have hrange : InRange x.ram pt := h.page (.root pt) pt ⟨hroot, rfl⟩
  obtain ⟨hdropped, hunowned⟩ := h.dropRoot hroot
  rw [Call.run, pagetableDestroy, Prog.bind_ok (kfree_run hrange)] at hrun
  cases hrun
  refine ⟨_, hdropped.giveBack hrange hunowned, fun q hq => ?_⟩
  refine ⟨fun hin => ?_, hq.2.1, fun hin => hq.2.2 (List.mem_filter.1 hin).1⟩
  exact (List.mem_cons.1 hin).elim (fun heq => hq.2.2 (heq ▸ hroot)) hq.1

/-- `map_pages` on clean pages.  A range that was not mapped costs a page. -/
theorem step_map {va pa n perm : Nat} (h : Laid x.ram x.caller ly)
    (hstep : Step x (.map pt va pa n perm) y) (hclean : (Call.map pt va pa n perm).Clean x.ram) :
    ∃ ly', Laid y.ram y.caller ly' ∧ (∀ q, Lost x.caller ly q → Lost y.caller ly' q) ∧
      (n ≠ 0 → x.caller.maps pt (va / pageSize) = none →
        ∃ q ∈ ly.free, Lost y.caller ly' q) := by
  obtain ⟨⟨hpt, haligned, hva, he⟩, r, hrun, hafter⟩ := hstep
  obtain ⟨s', c'⟩ := y
  obtain rfl : c' = x.caller.mapRange pt (va / pageSize) pa perm n := hafter
  rw [Call.run] at hrun
  rcases h.mapPages hpt haligned hva he hclean with
    ⟨s₁, hfull⟩ | ⟨s₁, ly', hok, hlaid, hsub, hcost⟩
  · rw [Prog.bind_err hfull] at hrun
    cases hrun
  · rw [Prog.bind_ok hok] at hrun
    cases hrun
    have hkeep : ∀ q, Lost x.caller ly' q →
        Lost (x.caller.mapRange pt (va / pageSize) pa perm n) ly' q := by
      intro q hq
      rw [Lost, mapRange_held, mapRange_roots]
      exact hq
    refine ⟨ly', hlaid, fun q hq => hkeep q ⟨fun hin => hq.1 (hsub q hin), hq.2⟩,
      fun hn hnone => ?_⟩
    obtain ⟨q, hq, hlost⟩ := hcost hn hnone
    exact ⟨q, hq, hkeep q hlost⟩

/-- `unmap_pages` comes back for mapped pages only. -/
theorem step_unmap {va n : Nat} {doFree : Bool} (h : Laid x.ram x.caller ly)
    (hstep : Step x (.unmap pt va n doFree) y) :
    ∃ ly', Laid y.ram y.caller ly' ∧ (∀ q, Lost x.caller ly q → Lost y.caller ly' q) ∧
      (n ≠ 0 → x.caller.maps pt (va / pageSize) ≠ none) := by
  obtain ⟨⟨hpt, -, hva, hmay⟩, r, hrun, hafter⟩ := hstep
  obtain ⟨s', c'⟩ := y
  obtain rfl : c' = x.caller.unmapRange pt doFree n (va / pageSize) := hafter
  rw [Call.run] at hrun
  rcases h.unmapPages hpt hva hmay with ⟨s₁, hfull⟩ | ⟨s₁, ly', hok, hlaid, hkeep, hmapped⟩
  · rw [Prog.bind_err hfull] at hrun
    cases hrun
  · rw [Prog.bind_ok hok] at hrun
    cases hrun
    exact ⟨ly', hlaid, hkeep, hmapped⟩

theorem step_store (h : Laid x.ram x.caller ly) (hstep : Step x (.store a w) y) :
    Laid y.ram y.caller ly ∧ y.caller = x.caller := by
  obtain ⟨hwritable, r, hrun, hafter⟩ := hstep
  obtain ⟨s', c'⟩ := y
  obtain rfl : c' = x.caller := hafter
  cases hrun
  exact ⟨h.store hwritable w, rfl⟩

/-- A call keeps the layout when it takes clean pages for tables, and a lost page stays lost. -/
theorem step_laid (h : Laid x.ram x.caller ly) (hstep : Step x call y) (hclean : call.Clean x.ram) :
    ∃ ly', Laid y.ram y.caller ly' ∧ ∀ q, Lost x.caller ly q → Lost y.caller ly' q := by
  cases call with
  | kalloc => exact step_kalloc h hstep
  | kfree p => exact step_kfree h hstep
  | create => exact step_create h hstep hclean
  | map pt va pa n perm =>
      obtain ⟨ly', hlaid, hkeep, -⟩ := step_map h hstep hclean
      exact ⟨ly', hlaid, hkeep⟩
  | unmap pt va n doFree =>
      obtain ⟨ly', hlaid, hkeep, -⟩ := step_unmap h hstep
      exact ⟨ly', hlaid, hkeep⟩
  | destroy pt => exact step_destroy h hstep
  | store a w =>
      obtain ⟨hlaid, hsame⟩ := step_store h hstep
      exact ⟨ly, hlaid, fun q hq => hsame ▸ hq⟩

theorem Run.laid (hrun : Run (fun s call => call.Clean s) x calls y) (h : Laid x.ram x.caller ly) :
    ∃ ly', Laid y.ram y.caller ly' ∧ ∀ q, Lost x.caller ly q → Lost y.caller ly' q := by
  induction hrun generalizing ly with
  | nil x => exact ⟨ly, h, fun q hq => hq⟩
  | cons hgood hstep _ ih =>
      obtain ⟨ly₁, h₁, hkeep₁⟩ := step_laid h hstep hgood
      obtain ⟨ly', h', hkeep'⟩ := ih h₁
      exact ⟨ly', h', fun q hq => hkeep' q (hkeep₁ q hq)⟩

end Steps

end Trae

end OsAgentLab
