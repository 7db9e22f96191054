/-
Pages that change their owner: taken from the free list, given to a caller or a table, and given
back.
-/
import OsAgentLab.Trae.Layout

namespace OsAgentLab

namespace Trae

variable {s s' : Ram} {c c' : Caller} {ly ly' : Layout} {part : Part} {l : List Nat}
  {p q t pt : Nat}

section Owners

/-- A page that nobody has. -/
def Unowned (c : Caller) (ly : Layout) (t : Nat) : Prop := ∀ a, ¬Has c ly a t

theorem has_withFree (h : Has c { ly with free := l } part q) :
    part = .free ∧ q ∈ l ∨ part ≠ .free ∧ Has c ly part q := by
  cases part with
  | free => exact Or.inl ⟨rfl, h⟩
  | held => exact Or.inr ⟨Part.noConfusion, h⟩
  | root pt => exact Or.inr ⟨Part.noConfusion, h⟩
  | mid pt i => exact Or.inr ⟨Part.noConfusion, h⟩
  | low pt i j => exact Or.inr ⟨Part.noConfusion, h⟩

theorem entryAt_withFree (l : List Nat) (part : Part) (j : Nat) :
    entryAt c { ly with free := l } part j = entryAt c ly part j := by
  cases part <;> rfl

theorem Shape.withFree (h : Shape c ly) (l : List Nat) : Shape c { ly with free := l } :=
  ⟨h.low, h.maps⟩

/-- Owners change while memory does not. -/
theorem Laid.relabel (h : Laid s c ly) (hfree : ly'.free = ly.free)
    (hapart : Apart (Has c' ly')) (hshape : Shape c' ly')
    (hhas : ∀ a q, Has c' ly' a q → Has c ly a q ∨ InRange s q ∧ (a.IsTable → ∀ j, j < 512 →
      HoldsEntry s.mem (q + 8 * j) (entryAt c' ly' a j)))
    (hsame : ∀ a q, Has c ly a q → Has c' ly' a q → ∀ j, j < 512 →
      entryAt c' ly' a j = entryAt c ly a j) : Laid s c' ly' where
  start := h.start
  stop := h.stop
  chain := by
    rw [hfree]
    exact h.chain
  nodup := hfree ▸ h.nodup
  page a q hq := (hhas a q hq).elim (h.page a q) And.left
  apart := hapart
  shape := hshape
  words a q hq htable j hj := by
    rcases hhas a q hq with hold | ⟨-, hnew⟩
    · rw [hsame a q hold hq j hj]
      exact h.words a q hold htable j hj
    · exact hnew htable j hj

end Owners

section Free

theorem Laid.freelist_eq (h : Laid s c ly) (hfree : ly.free = t :: l) : s.freelist = t := by
  have hchain := h.chain
  rw [hfree] at hchain
  exact hchain.1

theorem Laid.freelist_zero (h : Laid s c ly) (hfree : ly.free = []) : s.freelist = 0 := by
  have hchain := h.chain
  rw [hfree] at hchain
  exact hchain

theorem Laid.head_page (h : Laid s c ly) (hfree : ly.free = t :: l) : InRange s t :=
  h.page .free t (by rw [Has, hfree]; exact List.mem_cons_self)

theorem InRange.pos (h : InRange s p) (hstart : 0 < s.allocStart) : p ≠ 0 := by
  have hle := h.start
  omega

/-- The first free page is taken off the list. -/
theorem Laid.take (h : Laid s c ly) (hfree : ly.free = t :: l) :
    Laid { s with freelist := s.mem t } c { ly with free := l } ∧
      Unowned c { ly with free := l } t := by
  have hmem : ∀ q ∈ l, q ∈ ly.free := fun q hq => hfree ▸ List.mem_cons_of_mem t hq
  have hnodup := h.nodup
  rw [hfree, List.nodup_cons] at hnodup
  have hhead : Has c ly .free t := by
    rw [Has, hfree]
    exact List.mem_cons_self
  have hold : ∀ a q, Has c { ly with free := l } a q → Has c ly a q := by
    intro a q hq
    rcases has_withFree hq with ⟨rfl, hin⟩ | ⟨-, hother⟩
    · exact hmem q hin
    · exact hother
  constructor
  · refine ⟨h.start, h.stop, ?_, hnodup.2, fun a q hq => ?_, h.apart.mono hold,
      h.shape.withFree l, fun a q hq htable j hj => ?_⟩
    · have hchain := h.chain
      rw [hfree] at hchain
      exact hchain.2
    · have hpage := h.page a q (hold a q hq)
      exact ⟨hpage.aligned, hpage.start, hpage.stop⟩
    · rw [entryAt_withFree]
      exact h.words a q (hold a q hq) htable j hj
  · intro a hq
    rcases has_withFree hq with ⟨-, hin⟩ | ⟨hne, hother⟩
    · exact hnodup.1 hin
    · exact hne (h.apart hother hhead)

theorem kalloc_nil (h : Laid s c ly) (hfree : ly.free = []) : kalloc s = (.ok 0, s) := by
  rw [kalloc, if_neg (not_not_intro (h.freelist_zero hfree))]

theorem kalloc_cons (h : Laid s c ly) (hfree : ly.free = t :: l) :
    kalloc s = (.ok t, { s with freelist := s.mem t }) := by
  have hne : s.freelist ≠ 0 := by
    rw [h.freelist_eq hfree]
    exact (h.head_page hfree).pos h.start
  rw [kalloc, if_pos hne, h.freelist_eq hfree]

/-- `kfree` of a page in its range. -/
theorem kfree_run (hp : InRange s p) :
    kfree p s = (.ok (), { s with mem := Function.update s.mem p s.freelist, freelist := p }) := by
  rw [kfree, Prog.get_bind, if_neg (not_not_intro hp.aligned),
    if_neg (not_or.2 ⟨Nat.not_lt.2 hp.start, Nat.not_le.2 hp.stop⟩)]
  rfl

/-- A page without owner becomes the first free one. -/
theorem Laid.giveBack (h : Laid s c ly) (hp : InRange s p) (hnone : Unowned c ly p) :
    Laid { s with mem := Function.update s.mem p s.freelist, freelist := p } c
      { ly with free := p :: ly.free } := by
  have hold : ∀ a q, Has c { ly with free := p :: ly.free } a q →
      Has c ly a q ∨ a = .free ∧ q = p := by
    intro a q hq
    rcases has_withFree hq with ⟨rfl, hin⟩ | ⟨-, hother⟩
    · rcases List.mem_cons.1 hin with rfl | hin
      · exact Or.inr ⟨rfl, rfl⟩
      · exact Or.inl hin
    · exact Or.inl hother
  have hother : ∀ a q, Has c ly a q → ∀ j, j < 512 →
      Function.update s.mem p s.freelist (q + 8 * j) = s.mem (q + 8 * j) := by
    intro a q hq j hj
    refine Function.update_of_ne (fun heq => ?_) _ _
    obtain ⟨rfl, -⟩ := @word_inj q p j 0 (h.page a q hq).aligned hp.aligned hj (by decide) heq
    exact hnone a hq
  refine ⟨h.start, h.stop, ⟨rfl, ?_⟩, List.nodup_cons.2 ⟨hnone .free, h.nodup⟩, fun a q hq => ?_,
    h.apart.add hnone hold, h.shape.withFree _, fun a q hq htable j hj => ?_⟩
  · dsimp only
    rw [Function.update_self]
    exact h.chain.congr fun q hq => hother .free q hq 0 (by decide)
  · rcases hold a q hq with hin | ⟨rfl, rfl⟩
    · exact ⟨(h.page a q hin).aligned, (h.page a q hin).start, (h.page a q hin).stop⟩
    · exact ⟨hp.aligned, hp.start, hp.stop⟩
  · rcases hold a q hq with hin | ⟨rfl, rfl⟩
    · rw [entryAt_withFree]
      exact (h.words a q hin htable j hj).of_eq (hother a q hin j hj)
    · exact htable.elim

end Free

section Callers

/-- The caller holds one page more, or none of some pages any more. -/
def Caller.hold (c : Caller) (p : Nat) : Caller := { c with held := p :: c.held }
def Caller.drop (c : Caller) (p : Nat) : Caller := { c with held := c.held.filter (· ≠ p) }

/-- A table that is new, and one that is destroyed. -/
def Caller.addRoot (c : Caller) (pt : Nat) : Caller :=
  { c with roots := pt :: c.roots, maps := Function.update c.maps pt fun _ => none }
def Caller.dropRoot (c : Caller) (pt : Nat) : Caller :=
  { c with roots := c.roots.filter (· ≠ pt), maps := Function.update c.maps pt fun _ => none }

/-- The tables below a root are forgotten. -/
def Layout.clear (ly : Layout) (pt : Nat) : Layout :=
  { ly with
    mid := Function.update ly.mid pt fun _ => none
    low := Function.update ly.low pt fun _ _ => none }

theorem clear_mid (i : Nat) : (ly.clear pt).mid pt i = none := by
  rw [Layout.clear]
  dsimp only
  rw [Function.update_self]

theorem clear_low (i j : Nat) : (ly.clear pt).low pt i j = none := by
  rw [Layout.clear]
  dsimp only
  rw [Function.update_self]

theorem clear_mid_of_ne (h : q ≠ pt) : (ly.clear pt).mid q = ly.mid q :=
  Function.update_of_ne h ..

theorem clear_low_of_ne (h : q ≠ pt) : (ly.clear pt).low q = ly.low q :=
  Function.update_of_ne h ..

theorem has_hold (h : Has (c.hold p) ly part q) : Has c ly part q ∨ part = .held ∧ q = p := by
  cases part with
  | held =>
      rcases List.mem_cons.1 h with rfl | hin
      · exact Or.inr ⟨rfl, rfl⟩
      · exact Or.inl hin
  | free => exact Or.inl h
  | root pt => exact Or.inl h
  | mid pt i => exact Or.inl h
  | low pt i j => exact Or.inl h

theorem Laid.hold (h : Laid s c ly) (hp : InRange s p) (hnone : Unowned c ly p) :
    Laid s (c.hold p) ly := by
  refine h.relabel rfl (h.apart.add hnone fun _ _ => has_hold) ⟨h.shape.low, h.shape.maps⟩
    (fun a q hq => ?_) fun a q _ _ j _ => by cases a <;> rfl
  rcases has_hold hq with hin | ⟨rfl, rfl⟩
  · exact Or.inl hin
  · exact Or.inr ⟨hp, False.elim⟩

theorem has_drop (h : Has (c.drop p) ly part q) : Has c ly part q ∧ (part = .held → q ≠ p) := by
  cases part with
  | held =>
      obtain ⟨hin, hne⟩ := List.mem_filter.1 h
      exact ⟨hin, fun _ => of_decide_eq_true hne⟩
  | free => exact ⟨h, fun heq => by cases heq⟩
  | root pt => exact ⟨h, fun heq => by cases heq⟩
  | mid pt i => exact ⟨h, fun heq => by cases heq⟩
  | low pt i j => exact ⟨h, fun heq => by cases heq⟩

/-- A page that its holder gives up is nobody's. -/
theorem Laid.drop (h : Laid s c ly) (hp : p ∈ c.held) :
    Laid s (c.drop p) ly ∧ Unowned (c.drop p) ly p := by
  constructor
  · exact h.relabel rfl (h.apart.mono fun a q hq => (has_drop hq).1) ⟨h.shape.low, h.shape.maps⟩
      (fun a q hq => Or.inl (has_drop hq).1) fun a q _ _ j _ => by cases a <;> rfl
  · intro a hq
    obtain ⟨hin, hne⟩ := has_drop hq
    have hheld : Has c ly .held p := hp
    exact hne (h.apart hin hheld) rfl

theorem has_addRoot (h : Has (c.addRoot pt) (ly.clear pt) part q) :
    Has c ly part q ∨ part = .root pt ∧ q = pt := by
  have hroot : ∀ {r : Nat}, r ∈ pt :: c.roots → r ≠ pt → r ∈ c.roots := fun hin hne =>
    (List.mem_cons.1 hin).resolve_left hne
  cases part with
  | free => exact Or.inl h
  | held => exact Or.inl h
  | root r =>
      obtain ⟨hin, rfl⟩ := h
      by_cases hr : q = pt
      · exact Or.inr ⟨congrArg Part.root hr, hr⟩
      · exact Or.inl ⟨hroot hin hr, rfl⟩
  | mid r i =>
      obtain ⟨hin, hsome⟩ := h
      by_cases hr : r = pt
      · rw [hr, clear_mid] at hsome
        contradiction
      · rw [clear_mid_of_ne hr] at hsome
        exact Or.inl ⟨hroot hin hr, hsome⟩
  | low r i j =>
      obtain ⟨hin, hsome⟩ := h
      by_cases hr : r = pt
      · rw [hr, clear_low] at hsome
        contradiction
      · rw [clear_low_of_ne hr] at hsome
        exact Or.inl ⟨hroot hin hr, hsome⟩

theorem has_dropRoot (h : Has (c.dropRoot pt) (ly.clear pt) part q) :
    Has c ly part q ∧ part ≠ .root pt := by
  have hroot : ∀ {r : Nat}, r ∈ c.roots.filter (· ≠ pt) → r ∈ c.roots ∧ r ≠ pt := fun hin =>
    ⟨(List.mem_filter.1 hin).1, of_decide_eq_true (List.mem_filter.1 hin).2⟩
  cases part with
  | free => exact ⟨h, Part.noConfusion⟩
  | held => exact ⟨h, Part.noConfusion⟩
  | root r =>
      obtain ⟨hin, rfl⟩ := h
      exact ⟨⟨(hroot hin).1, rfl⟩, fun heq => (hroot hin).2 (Part.root.inj heq)⟩
  | mid r i =>
      obtain ⟨hin, hsome⟩ := h
      rw [clear_mid_of_ne (hroot hin).2] at hsome
      exact ⟨⟨(hroot hin).1, hsome⟩, Part.noConfusion⟩
  | low r i j =>
      obtain ⟨hin, hsome⟩ := h
      rw [clear_low_of_ne (hroot hin).2] at hsome
      exact ⟨⟨(hroot hin).1, hsome⟩, Part.noConfusion⟩

/-- The table that a part belongs to. -/
def Part.table : Part → Option Nat
  | .free => none
  | .held => none
  | .root pt => some pt
  | .mid pt _ => some pt
  | .low pt _ _ => some pt

theorem Has.table_mem (h : Has c ly part q) (htable : part.table = some pt) : pt ∈ c.roots := by
  cases part with
  | free => cases htable
  | held => cases htable
  | root r => exact Option.some.inj htable ▸ h.1
  | mid r i => exact Option.some.inj htable ▸ h.1
  | low r i j => exact Option.some.inj htable ▸ h.1

theorem entryAt_clear (h : part.table ≠ some pt)
    (hmaps : c'.maps = Function.update c.maps pt fun _ => none) (j : Nat) :
    entryAt c' (ly.clear pt) part j = entryAt c ly part j := by
  have hne : ∀ {r : Nat}, some r ≠ some pt → r ≠ pt := fun hsome heq => hsome (congrArg some heq)
  cases part with
  | free => rfl
  | held => rfl
  | root r => rw [entryAt, entryAt, clear_mid_of_ne (hne h)]
  | mid r i => rw [entryAt, entryAt, clear_low_of_ne (hne h)]
  | low r i k => rw [entryAt, entryAt, hmaps, Function.update_of_ne (hne h)]

theorem Shape.clear (h : Shape c ly) (hroots : ∀ r ∈ c'.roots, r ≠ pt → r ∈ c.roots)
    (hmaps : c'.maps = Function.update c.maps pt fun _ => none) : Shape c' (ly.clear pt) := by
  constructor
  · intro r hr i j hlow
    by_cases hrpt : r = pt
    · rw [hrpt, clear_low] at hlow
      contradiction
    · rw [clear_low_of_ne hrpt] at hlow
      rw [clear_mid_of_ne hrpt]
      exact h.low r (hroots r hr hrpt) i j hlow
  · intro r hr v e he
    rw [hmaps] at he
    by_cases hrpt : r = pt
    · rw [hrpt, Function.update_self] at he
      contradiction
    · rw [Function.update_of_ne hrpt] at he
      rw [clear_low_of_ne hrpt]
      exact h.maps r (hroots r hr hrpt) v e he

/-- A clean page becomes an empty table. -/
theorem Laid.addRoot (h : Laid s c ly) (hp : InRange s pt) (hnone : Unowned c ly pt)
    (hclean : Clean s.mem pt) : Laid s (c.addRoot pt) (ly.clear pt) := by
  have hnew : pt ∉ c.roots := fun hin => hnone (.root pt) ⟨hin, rfl⟩
  refine h.relabel rfl (h.apart.add hnone fun _ _ => has_addRoot)
    (h.shape.clear (fun r hr hne => (List.mem_cons.1 hr).resolve_left hne) rfl)
    (fun a q hq => ?_) fun a q hq _ j _ => entryAt_clear (fun htable => ?_) rfl j
  · rcases has_addRoot hq with hin | ⟨rfl, rfl⟩
    · exact Or.inl hin
    · refine Or.inr ⟨hp, fun _ j hj => ?_⟩
      rw [entryAt, clear_mid]
      exact hclean j hj
  · exact hnew (hq.table_mem htable)

/-- The root of a table that is destroyed is nobody's; the tables below it are forgotten. -/
theorem Laid.dropRoot (h : Laid s c ly) (hpt : pt ∈ c.roots) :
    Laid s (c.dropRoot pt) (ly.clear pt) ∧ Unowned (c.dropRoot pt) (ly.clear pt) pt := by
  constructor
  · refine h.relabel rfl (h.apart.mono fun a q hq => (has_dropRoot hq).1)
      (h.shape.clear (fun r hr _ => (List.mem_filter.1 hr).1) rfl)
      (fun a q hq => Or.inl (has_dropRoot hq).1)
      fun a q _ hq j _ => entryAt_clear (fun htable => ?_) rfl j
    exact of_decide_eq_true (List.mem_filter.1 (hq.table_mem htable)).2 rfl
  · intro a hq
    obtain ⟨hin, hne⟩ := has_dropRoot hq
    have hroot : Has c ly (.root pt) pt := ⟨hpt, rfl⟩
    exact hne (h.apart hin hroot)

end Callers

end Trae

end OsAgentLab
