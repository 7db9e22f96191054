/-
Growing an address space by new pages: one page of `uvm_alloc`, and the whole
loop with the point at which it may stop.
-/
import OsAgentLab.Vm.MapSpec

namespace OsAgentLab

variable {kt pt p t va perm : Nat} {s s' s₂ : Mm} {sp sp' : Space} {l l' : List Nat}
  {u : UserPage}

section Local

theorem localPage_cons {q : Nat} :
    LocalPage pt sp (q :: l) p ↔ LocalPage pt sp l p ∨ p = q := by
  unfold LocalPage
  rw [List.mem_cons]
  constructor
  · rintro ((hp | hp) | hp)
    · exact Or.inr hp
    · exact Or.inl (Or.inl hp)
    · exact Or.inl (Or.inr hp)
  · rintro ((hp | hp) | hp)
    · exact Or.inl (Or.inr hp)
    · exact Or.inr hp
    · exact Or.inl (Or.inl hp)

theorem localPage_withPage {n : Nat} (hnone : sp.page n = none) :
    LocalPage pt (sp.withPage n u) l p ↔ LocalPage pt sp l p ∨ p = u.pa := by
  constructor
  · rintro (hp | ⟨q, hp⟩)
    · exact Or.inl (Or.inl hp)
    · rcases Space.has_withPage hp with ⟨_, hp⟩ | hp
      · exact Or.inr hp
      · exact Or.inl (Or.inr ⟨q, hp⟩)
  · rintro ((hp | ⟨q, hp⟩) | rfl)
    · exact Or.inl hp
    · exact Or.inr ⟨q, hp.withPage hnone⟩
    · exact Or.inr ⟨.page n, u, sp.withPage_self, rfl⟩

theorem localPage_withTable {i : Nat} (hnone : sp.table i = none) :
    LocalPage pt (sp.withTable i t) l p ↔ LocalPage pt sp l p ∨ p = t := by
  constructor
  · rintro (hp | ⟨q, hp⟩)
    · exact Or.inl (Or.inl hp)
    · rcases Space.has_withTable hp with ⟨_, hp⟩ | hp
      · exact Or.inr hp
      · exact Or.inl (Or.inr ⟨q, hp⟩)
  · rintro ((hp | ⟨q, hp⟩) | rfl)
    · exact Or.inl hp
    · exact Or.inr ⟨q, hp.withTable hnone⟩
    · exact Or.inr ⟨.table i, sp.withTable_self⟩

/-- The page in front of the free list belongs to nothing else. -/
theorem Held.head_not_local (h : Held kt s pt sp (p :: l)) : ¬ LocalPage pt sp l p := by
  rintro (hp | ⟨q, hp⟩)
  · exact (List.nodup_cons.mp h.free.nodup).1 hp
  · exact h.apart q p hp List.mem_cons_self

end Local

section Pages

/-- `kalloc` beside an address space. -/
theorem Held.kalloc (h : Held kt s pt sp (p :: l)) :
    ∃ s', OsAgentLab.kalloc s = (.ok (some p), s') ∧ Held kt s' pt sp l ∧
      s'.mem = putPage s.mem p (fun _ => 0) ∧ s'.satp = s.satp := by
  have hp : IsPage p := h.free.page p List.mem_cons_self
  obtain ⟨s', hrun, hfree, hmem, hsatp⟩ := kalloc_cons h.free
  refine ⟨s', hrun, ⟨hfree, ?_, h.wf, ?_⟩, hmem, hsatp⟩
  · refine h.space.frame fun q x hx y hy => ?_
    rw [hmem]
    have hne : p ≠ x := fun heq => h.apart q x hx (heq ▸ List.mem_cons_self)
    exact putPage_of_not_mem (hp.not_inPage (h.wf.isPage q x hx) hne hy)
  · exact fun q x hx hmem => h.apart q x hx (List.mem_cons_of_mem p hmem)

/-- `kfree` of a page beside an address space. -/
theorem Held.kfree (h : Held kt s pt sp l) (hp : IsPage p) (hnot : ¬ LocalPage pt sp l p) :
    ∃ s', OsAgentLab.kfree p s = (.ok (), s') ∧ Held kt s' pt sp (p :: l) ∧
      (∀ x, ¬ InPage p x → s'.mem x = s.mem x) ∧ s'.satp = s.satp := by
  obtain ⟨s', hrun, hfree, hframe, hsatp⟩ := kfree_spec h.free hp fun hmem => hnot (Or.inl hmem)
  refine ⟨s', hrun, ⟨hfree, ?_, h.wf, ?_⟩, hframe, hsatp⟩
  · refine h.space.frame fun q x hx y hy => hframe y ?_
    have hne : p ≠ x := fun heq => hnot (Or.inr ⟨q, heq ▸ hx⟩)
    exact hp.not_inPage (h.wf.isPage q x hx) hne hy
  · intro q x hx hmem
    rcases List.mem_cons.mp hmem with rfl | hmem
    · exact hnot (Or.inr ⟨q, hx⟩)
    · exact h.apart q x hx hmem

/-- Why a new page cannot be mapped at page number `n`, when `l` are the free
pages behind it: there is a page already, or no page is left for a table. -/
def Space.Blocked (sp : Space) (l : List Nat) (n : Nat) : Prop :=
  (∃ v, sp.page n = some v) ∨ sp.table (n / 512) = none ∧ l = []

/-- How mapping a page just allocated ends; `l` are the free pages behind it. -/
inductive NewEnds (sp : Space) (l : List Nat) (n : Nat) (u : UserPage) :
    Outcome Errno Unit → Space → List Nat → Prop
  | mapped {t : Nat} : sp.page n = none → sp.table (n / 512) = some t →
      NewEnds sp l n u (.ok ()) (sp.withPage n u) l
  | mappedTable {t : Nat} {l' : List Nat} : sp.page n = none → sp.table (n / 512) = none →
      l = t :: l' → NewEnds sp l n u (.ok ()) ((sp.withTable (n / 512) t).withPage n u) l'
  | failed : sp.Blocked l n → NewEnds sp l n u (.err .nomem) sp (u.pa :: l)

/-- `uvm_map` of a page that was just allocated and filled. -/
theorem uvmMapNew_spec (h : Held kt s pt sp (u.pa :: l)) (hva : UserVa va)
    (hperm : IsUserPerm u.perm) (hmid : Held kt s₂ pt sp l) (hsatp : s₂.satp = s.satp)
    (hframe : ∀ x, ¬ InPage u.pa x → s₂.mem x = s.mem x)
    (hbytes : ∀ i, i < 4096 → s₂.mem (u.pa + i) = u.bytes i) :
    ∃ r s' sp' l', uvmMapNew pt va u.pa u.perm s₂ = (r, s') ∧
      NewEnds sp l (va / 4096) u r sp' l' ∧ SpaceStep kt s pt sp (u.pa :: l) s' sp' l' := by
  have hpa : IsPage u.pa := h.free.page _ List.mem_cons_self
  have hnot := h.head_not_local
  obtain ⟨r, s', sp', l', hrun, hends, hheld, hsatp', hframe'⟩ :=
    uvmMap_spec hmid hva hpa hperm hbytes hnot
  have houtside : ∀ x, (∀ q, LocalPage pt sp (u.pa :: l) q → ¬ InPage q x) →
      s'.mem x = s.mem x := by
    intro x hx
    rw [hframe' x fun q hq => hx q (localPage_cons.mpr (Or.inl hq))]
    exact hframe x (hx u.pa (Or.inl List.mem_cons_self))
  have hundo : r = .err .nomem ∨ r = .err .exist → sp' = sp → l' = l → sp.Blocked l (va / 4096) →
      ∃ r s' sp' l', uvmMapNew pt va u.pa u.perm s₂ = (r, s') ∧
        NewEnds sp l (va / 4096) u r sp' l' ∧ SpaceStep kt s pt sp (u.pa :: l) s' sp' l' := by
    intro hr hsp hl hblocked
    subst hsp hl
    obtain ⟨s₃, hfree, hheld₃, hframe₃, hsatp₃⟩ := hheld.kfree hpa hnot
    refine ⟨_, s₃, sp', u.pa :: l', ?_, .failed hblocked, hheld₃, fun _ => Iff.rfl, ?_,
      hsatp₃.trans (hsatp'.trans hsatp)⟩
    · rcases hr with rfl | rfl
      all_goals rw [uvmMapNew, Prog.onErr_err hrun, Prog.bind_ok hfree, Prog.fail_apply]
    · intro x hx
      rw [hframe₃ x (hx u.pa (Or.inl List.mem_cons_self))]
      exact houtside x hx
  cases hends with
  | mapped hpage htable =>
      refine ⟨_, s', _, _, Prog.onErr_ok hrun _, .mapped hpage htable, hheld, ?_, houtside,
        hsatp'.trans hsatp⟩
      intro q
      rw [localPage_withPage hpage, localPage_cons]
  | @mappedTable t l' hpage htable hl =>
      subst hl
      refine ⟨_, s', _, _, Prog.onErr_ok hrun _, .mappedTable hpage htable rfl, hheld, ?_,
        houtside, hsatp'.trans hsatp⟩
      intro q
      have hpage' : (sp.withTable (va / 4096 / 512) t).page (va / 4096) = none := hpage
      rw [localPage_withPage hpage', localPage_withTable htable,
        localPage_cons, localPage_cons]
  | present hpage => exact hundo (Or.inr rfl) rfl rfl (Or.inl ⟨_, hpage⟩)
  | full hpage htable hl => exact hundo (Or.inl rfl) rfl rfl (Or.inr ⟨htable, hl⟩)

end Pages

section Alloc

/-- The address space gained the zero-filled pages at the page numbers from `n`
up to `n + k`, and perhaps tables for them. -/
structure PagesAdded (sp sp' : Space) (n k perm : Nat) : Prop where
  low : sp'.low = sp.low
  table : ∀ i t, sp.table i = some t → sp'.table i = some t
  fresh : ∀ j, n ≤ j → j < n + k → sp.page j = none
  inside : ∀ j, n ≤ j → j < n + k → ∃ pa, sp'.page j = some ⟨pa, perm, fun _ => 0⟩
  outside : ∀ j, ¬ (n ≤ j ∧ j < n + k) → sp'.page j = sp.page j

theorem PagesAdded.refl (sp : Space) (n perm : Nat) : PagesAdded sp sp n 0 perm where
  low := rfl
  table _ _ h := h
  fresh j hle hlt := absurd hlt (by omega)
  inside j hle hlt := absurd hlt (by omega)
  outside _ _ := rfl

/-- One page first, then the pages behind it. -/
theorem PagesAdded.cons {sp₁ : Space} {n k : Nat} (h : PagesAdded sp sp₁ n 1 perm)
    (h' : PagesAdded sp₁ sp' (n + 1) k perm) : PagesAdded sp sp' n (k + 1) perm where
  low := h'.low.trans h.low
  table i t ht := h'.table i t (h.table i t ht)
  fresh j hle hlt := by
    by_cases hj : j = n
    · exact h.fresh j hle (by omega)
    · rw [← h.outside j (by omega)]
      exact h'.fresh j (by omega) (by omega)
  inside j hle hlt := by
    by_cases hj : j = n
    · rw [h'.outside j (by omega)]
      exact h.inside j hle (by omega)
    · exact h'.inside j (by omega) (by omega)
  outside j hj := by
    rw [h'.outside j (by omega)]
    exact h.outside j (by omega)

/-- The zero-filled page that `kalloc` delivers. -/
def UserPage.zero (pa perm : Nat) : UserPage := ⟨pa, perm, fun _ => 0⟩

theorem NewEnds.added {n pa : Nat} {r : Outcome Errno Unit}
    (h : NewEnds sp l n (.zero pa perm) r sp' l') (hr : r = .ok ()) :
    PagesAdded sp sp' n 1 perm := by
  cases h with
  | mapped hnone htable =>
      refine ⟨rfl, fun _ _ ht => ht, ?_, ?_, ?_⟩
      · intro j hle hlt
        obtain rfl : j = n := by omega
        exact hnone
      · intro j hle hlt
        obtain rfl : j = n := by omega
        exact ⟨pa, sp.withPage_self⟩
      · exact fun j hj => sp.withPage_of_ne (by omega)
  | @mappedTable t l' hnone htable hl =>
      refine ⟨rfl, ?_, ?_, ?_, ?_⟩
      · intro i y hy
        have hi : i ≠ n / 512 := by
          rintro rfl
          rw [htable] at hy
          cases hy
        exact (sp.withTable_of_ne hi).trans hy
      · intro j hle hlt
        obtain rfl : j = n := by omega
        exact hnone
      · intro j hle hlt
        obtain rfl : j = n := by omega
        exact ⟨pa, Space.withPage_self ..⟩
      · exact fun j hj => Space.withPage_of_ne _ (by omega)
  | failed _ => cases hr

/-- Why no page can be added at page number `n`, when `l` are the free pages. -/
def Space.Stuck (sp : Space) (l : List Nat) (n : Nat) : Prop :=
  l = [] ∨ ∃ p l', l = p :: l' ∧ sp.Blocked l' n

/-- One pass of `uvm_alloc`: a new page of zeros, or no change. -/
theorem uvmAllocPage_spec (h : Held kt s pt sp l) (hva : UserVa va) (hperm : IsUserPerm perm) :
    ∃ r s' sp' l', uvmAllocPage pt va perm s = (r, s') ∧ SpaceStep kt s pt sp l s' sp' l' ∧
      ((r = .ok () ∧ PagesAdded sp sp' (va / 4096) 1 perm ∧ ¬ sp.Stuck l (va / 4096)) ∨
        (r = .err .nomem ∧ sp' = sp ∧ l' = l ∧ sp.Stuck l (va / 4096))) := by
  cases l with
  | nil =>
      refine ⟨_, s, sp, [], ?_, .refl h, Or.inr ⟨rfl, rfl, rfl, Or.inl rfl⟩⟩
      rw [uvmAllocPage, Prog.bind_ok (kalloc_nil h.free), Option.elim_none, Prog.fail_apply]
  | cons p l =>
      obtain ⟨s₁, halloc, hheld₁, hmem₁, hsatp₁⟩ := h.kalloc
      have hframe₁ : ∀ x, ¬ InPage p x → s₁.mem x = s.mem x := fun x hx => by
        rw [hmem₁, putPage_of_not_mem hx]
      have hzero₁ : ∀ i, i < 4096 → s₁.mem (p + i) = 0 := fun i hi => by
        rw [hmem₁, putPage_of_mem ⟨Nat.le_add_right _ _, Nat.add_lt_add_left hi _⟩]
      obtain ⟨r, s', sp', l', hrun, hends, hstep⟩ :=
        uvmMapNew_spec (u := .zero p perm) h hva hperm hheld₁ hsatp₁ hframe₁ hzero₁
      refine ⟨r, s', sp', l', ?_, hstep, ?_⟩
      · rw [uvmAllocPage, Prog.bind_ok halloc, Option.elim_some]
        exact hrun
      · have hstuck : sp.Stuck (p :: l) (va / 4096) → sp.Blocked l (va / 4096) := by
          rintro (hnil | ⟨q, l₁, hl, hblocked⟩)
          · cases hnil
          · cases hl
            exact hblocked
        have hadded := hends.added
        cases hends with
        | mapped hpage htable =>
            refine Or.inl ⟨rfl, hadded rfl, fun hs => ?_⟩
            rcases hstuck hs with ⟨v, hv⟩ | ⟨ht, _⟩
            · rw [hpage] at hv
              cases hv
            · rw [htable] at ht
              cases ht
        | mappedTable hpage htable hl =>
            refine Or.inl ⟨rfl, hadded rfl, fun hs => ?_⟩
            rcases hstuck hs with ⟨v, hv⟩ | ⟨_, hnil⟩
            · rw [hpage] at hv
              cases hv
            · rw [hl] at hnil
              cases hnil
        | failed hblocked => exact Or.inr ⟨rfl, rfl, rfl, Or.inr ⟨p, l, rfl, hblocked⟩⟩

/-- The address of user page `n`. -/
theorem UserVa.page {n : Nat} (h : n < 5120) : UserVa (n * pageSize) := by
  constructor
  · unfold pageSize userLimit
    omega
  · exact Nat.mul_mod_left n 4096

theorem page_number (n : Nat) : n * pageSize / 4096 = n := Nat.mul_div_left n (by decide)

/-- The loop of `uvm_alloc` adds the pages one by one and stops at the first one
for which there is no memory, or which is there already. -/
theorem uvmAllocPages_spec (h : Held kt s pt sp l) {n npages : Nat} (hle : n + npages ≤ 5120)
    (hperm : IsUserPerm perm) :
    ∃ r s' sp' l' k,
      Prog.forCount (fun n => uvmAllocPage pt (n * pageSize) perm) npages n s = (r, s') ∧
      SpaceStep kt s pt sp l s' sp' l' ∧ PagesAdded sp sp' n k perm ∧
      ((r = .ok () ∧ k = npages) ∨
        (r = .err .nomem ∧ k < npages ∧ sp'.Stuck l' (n + k))) := by
  let body := fun n => uvmAllocPage pt (n * pageSize) perm
  induction npages generalizing n s sp l with
  | zero => exact ⟨_, s, sp, l, 0, rfl, .refl h, .refl sp _ perm, Or.inl ⟨rfl, rfl⟩⟩
  | succ npages ih =>
      obtain ⟨r, s₁, sp₁, l₁, hrun, hstep, hends⟩ :=
        uvmAllocPage_spec h (.page (show n < 5120 by omega)) hperm
      rw [page_number] at hends
      rcases hends with ⟨rfl, hadded, _⟩ | ⟨rfl, rfl, rfl, hstuck⟩
      · obtain ⟨r, s', sp', l', k, hloop, hstep', hadded', hends⟩ :=
          ih (n := n + 1) hstep.held (by omega)
        refine ⟨r, s', sp', l', k + 1, Prog.forCount_ok body hrun hloop, hstep.trans hstep',
          hadded.cons hadded', ?_⟩
        rcases hends with ⟨hr, hk⟩ | ⟨hr, hk, hs⟩
        · exact Or.inl ⟨hr, congrArg (· + 1) hk⟩
        · refine Or.inr ⟨hr, Nat.succ_lt_succ hk, ?_⟩
          rw [Nat.add_assoc, Nat.add_comm 1 k] at hs
          exact hs
      · exact ⟨.err .nomem, s₁, sp₁, l₁, 0, Prog.forCount_err body hrun npages, hstep,
          .refl sp₁ _ perm, Or.inr ⟨rfl, Nat.succ_pos _, hstuck⟩⟩

end Alloc

end OsAgentLab
