/-
Copying an address space page by page into another one: `uvm_copy` and
`uvm_copy_range`.
-/
import OsAgentLab.Vm.UnmapSpec

namespace OsAgentLab

variable {kt pt ps va n k : Nat} {s s' : Mm} {src sp sp' sp'' : Space} {l l' : List Nat}

/-- The page table at `ps` describes `src`, and shares no page with the address
space at `pt` or the free list. -/
structure Beside (kt : Nat) (s : Mm) (ps : Nat) (src : Space) (pt : Nat) (sp : Space)
    (l : List Nat) : Prop where
  wf : src.WellFormed ps
  space : src.At ps kt s.mem
  apart : ∀ q p, src.Has ps q p → ¬ LocalPage pt sp l p

/-- Changes of one address space leave the other ones alone. -/
theorem SpaceStep.beside (h : SpaceStep kt s pt sp l s' sp' l')
    (hsrc : Beside kt s ps src pt sp l) (hpage : ∀ p, LocalPage pt sp l p → IsPage p) :
    Beside kt s' ps src pt sp' l' where
  wf := hsrc.wf
  space := by
    refine hsrc.space.frame fun q p hp x hx => h.frame x fun y hy => ?_
    have hne : y ≠ p := by
      rintro rfl
      exact hsrc.apart q y hp hy
    exact (hpage y hy).not_inPage (hsrc.wf.isPage q p hp) hne hx
  apart q p hp hlocal := hsrc.apart q p hp ((h.pages p).mp hlocal)

/-- Copies of the pages of `src` at the page numbers from `n` up to `n + k` were
added. -/
structure PagesCopied (src sp sp' : Space) (n k : Nat) : Prop where
  low : sp'.low = sp.low
  table : ∀ i t, sp.table i = some t → sp'.table i = some t
  fresh : ∀ j u, n ≤ j → j < n + k → src.page j = some u → sp.page j = none
  inside : ∀ j u, n ≤ j → j < n + k → src.page j = some u →
    ∃ pa, sp'.page j = some ⟨pa, u.perm, u.bytes⟩
  absent : ∀ j, n ≤ j → j < n + k → src.page j = none → sp'.page j = sp.page j
  outside : ∀ j, ¬ (n ≤ j ∧ j < n + k) → sp'.page j = sp.page j

theorem PagesCopied.refl (src sp : Space) (n : Nat) : PagesCopied src sp sp n 0 where
  low := rfl
  table _ _ h := h
  fresh j _ hle hlt := absurd hlt (by omega)
  inside j _ hle hlt := absurd hlt (by omega)
  absent _ _ _ _ := rfl
  outside _ _ := rfl

theorem PagesCopied.cons (h : PagesCopied src sp sp' n 1)
    (h' : PagesCopied src sp' sp'' (n + 1) k) : PagesCopied src sp sp'' n (k + 1) where
  low := h'.low.trans h.low
  table i t ht := h'.table i t (h.table i t ht)
  fresh j u hle hlt hu := by
    by_cases hj : j = n
    · exact h.fresh j u hle (by omega) hu
    · rw [← h.outside j (by omega)]
      exact h'.fresh j u (by omega) (by omega) hu
  inside j u hle hlt hu := by
    by_cases hj : j = n
    · rw [h'.outside j (by omega)]
      exact h.inside j u hle (by omega) hu
    · exact h'.inside j u (by omega) (by omega) hu
  absent j hle hlt hu := by
    by_cases hj : j = n
    · rw [h'.outside j (by omega)]
      exact h.absent j hle (by omega) hu
    · rw [h'.absent j (by omega) (by omega) hu]
      exact h.outside j (by omega)
  outside j hj := by
    rw [h'.outside j (by omega)]
    exact h.outside j (by omega)

theorem PagesCopied.hole (hnone : src.page n = none) : PagesCopied src sp sp n 1 where
  low := rfl
  table _ _ h := h
  fresh j u hle hlt hu := by
    obtain rfl : j = n := by omega
    rw [hnone] at hu
    cases hu
  inside j u hle hlt hu := by
    obtain rfl : j = n := by omega
    rw [hnone] at hu
    cases hu
  absent _ _ _ _ := rfl
  outside _ _ := rfl

/-- A page that was mapped successfully counts as copied. -/
theorem NewEnds.copied {pa : Nat} {u : UserPage} {r : Outcome Errno Unit}
    (h : NewEnds sp l n ⟨pa, u.perm, u.bytes⟩ r sp' l') (hr : r = .ok ())
    (hu : src.page n = some u) : PagesCopied src sp sp' n 1 := by
  have hone : ∀ j v, n ≤ j → j < n + 1 → src.page j = some v → j = n ∧ v = u := by
    intro j v hle hlt hv
    obtain rfl : j = n := by omega
    exact ⟨rfl, Option.some.inj (hv.symm.trans hu)⟩
  have hsome : ∀ j, n ≤ j → j < n + 1 → src.page j = none → False := by
    intro j hle hlt hnone
    obtain rfl : j = n := by omega
    rw [hu] at hnone
    cases hnone
  cases h with
  | mapped hnone htable =>
      refine ⟨rfl, fun _ _ ht => ht, ?_, ?_, ?_, ?_⟩
      · intro j v hle hlt hv
        obtain ⟨rfl, rfl⟩ := hone j v hle hlt hv
        exact hnone
      · intro j v hle hlt hv
        obtain ⟨rfl, rfl⟩ := hone j v hle hlt hv
        exact ⟨pa, sp.withPage_self⟩
      · exact fun j hle hlt hv => (hsome j hle hlt hv).elim
      · exact fun j hj => sp.withPage_of_ne (by omega)
  | mappedTable hnone htable hl =>
      refine ⟨rfl, ?_, ?_, ?_, ?_, ?_⟩
      · intro i y hy
        have hi : i ≠ n / 512 := by
          rintro rfl
          rw [htable] at hy
          cases hy
        exact (sp.withTable_of_ne hi).trans hy
      · intro j v hle hlt hv
        obtain ⟨rfl, rfl⟩ := hone j v hle hlt hv
        exact hnone
      · intro j v hle hlt hv
        obtain ⟨rfl, rfl⟩ := hone j v hle hlt hv
        exact ⟨pa, Space.withPage_self ..⟩
      · exact fun j hle hlt hv => (hsome j hle hlt hv).elim
      · exact fun j hj => Space.withPage_of_ne _ (by omega)
  | failed _ => cases hr

/-- One pass of `uvm_copy`: the page is copied, or there is none, or memory ran
out and nothing changed. -/
theorem uvmCopyPage_spec (h : Held kt s pt sp l) (hsrc : Beside kt s ps src pt sp l)
    (hva : UserVa va) :
    ∃ r s' sp' l', uvmCopyPage ps pt va s = (r, s') ∧ SpaceStep kt s pt sp l s' sp' l' ∧
      ((r = .ok () ∧ PagesCopied src sp sp' (va / 4096) 1) ∨
        (r = .err .nomem ∧ sp' = sp ∧ l' = l)) := by
  cases hu : src.page (va / 4096) with
  | none =>
      refine ⟨.ok (), s, sp, l, ?_, .refl h, Or.inl ⟨rfl, .hole hu⟩⟩
      rw [uvmCopyPage, Prog.bind_ok (walkPte_none hsrc.wf hsrc.space hva.low hu),
        Option.elim_none, Prog.pure_apply]
  | some u =>
      obtain ⟨t, htable, hwalk⟩ := walkPte_some hsrc.wf hsrc.space hva.low hu
      have hhas : src.Has ps (.page (va / 4096)) u.pa := ⟨u, hu, rfl⟩
      have hpage : IsPage u.pa := hsrc.wf.isPage _ _ hhas
      have hperm := hsrc.wf.perm _ u hu
      cases l with
      | nil =>
          refine ⟨.err .nomem, s, sp, [], ?_, .refl h, Or.inr ⟨rfl, rfl, rfl⟩⟩
          rw [uvmCopyPage, Prog.bind_ok hwalk, Option.elim_some, Prog.bind_ok (kalloc_nil h.free),
            Option.elim_none, Prog.fail_apply]
      | cons p l =>
          have hp : IsPage p := h.free.page p List.mem_cons_self
          have hpu : p ≠ u.pa := by
            rintro rfl
            exact hsrc.apart _ _ hhas (Or.inl List.mem_cons_self)
          obtain ⟨s₁, halloc, hheld₁, hmem₁, hsatp₁⟩ := h.kalloc
          obtain ⟨s₂, hs₂⟩ : ∃ s₂ : Mm,
              s₂ = { s₁ with mem := putPage s₁.mem p fun i => s₁.mem (u.pa + i) } := ⟨_, rfl⟩
          have hmem₂ : s₂.mem = putPage s₁.mem p fun i => s₁.mem (u.pa + i) := by rw [hs₂]
          have hcopy : copyPage p u.pa s₁ = (.ok (), s₂) := by
            rw [hs₂]
            rfl
          have hframe₂ : ∀ x, ¬ InPage p x → s₂.mem x = s.mem x := by
            intro x hx
            rw [hmem₂, putPage_of_not_mem hx, hmem₁, putPage_of_not_mem hx]
          have hheld₂ : Held kt s₂ pt sp l := by
            refine hheld₁.frame (by rw [hs₂]) fun q hq x hx => ?_
            rw [hmem₂]
            refine putPage_of_not_mem (hp.not_inPage (hheld₁.isPage hq) ?_ hx)
            rintro rfl
            exact h.head_not_local hq
          have hbytes₂ : ∀ i, i < 4096 → s₂.mem (p + i) = u.bytes i := by
            intro i hi
            have hin : InPage u.pa (u.pa + i) := ⟨Nat.le_add_right _ _, by omega⟩
            rw [hmem₂, putPage_of_mem ⟨Nat.le_add_right _ _, Nat.add_lt_add_left hi _⟩,
              Nat.add_sub_cancel_left, hmem₁, putPage_of_not_mem (hp.not_inPage hpage hpu hin)]
            exact hsrc.space.bytes _ u hu i hi
          obtain ⟨r, s', sp', l', hrun, hends, hstep⟩ :=
            uvmMapNew_spec (u := ⟨p, u.perm, u.bytes⟩) h hva hperm hheld₂
              (by rw [hs₂]; exact hsatp₁) hframe₂ hbytes₂
          refine ⟨r, s', sp', l', ?_, hstep, ?_⟩
          · rw [uvmCopyPage, Prog.bind_ok hwalk, Option.elim_some, Prog.bind_ok halloc,
              Option.elim_some, pte2pa_leafWord hpage hperm, leafWord_perm hpage hperm,
              Prog.bind_ok hcopy]
            exact hrun
          · have hcopied : r = .ok () → PagesCopied src sp sp' (va / 4096) 1 := fun hr =>
              hends.copied hr hu
            cases hends with
            | mapped _ _ => exact Or.inl ⟨rfl, hcopied rfl⟩
            | mappedTable _ _ _ => exact Or.inl ⟨rfl, hcopied rfl⟩
            | failed _ => exact Or.inr ⟨rfl, rfl, rfl⟩

/-- The loop of `uvm_copy`: all pages are copied, or memory ran out. -/
theorem uvmCopyPages_spec (h : Held kt s pt sp l) (hsrc : Beside kt s ps src pt sp l)
    {npages : Nat} (hle : n + npages ≤ 5120) :
    ∃ r s' sp' l',
      Prog.forCount (fun n => uvmCopyPage ps pt (n * pageSize)) npages n s = (r, s') ∧
      SpaceStep kt s pt sp l s' sp' l' ∧
      (r = .ok () ∧ PagesCopied src sp sp' n npages ∨ r = .err .nomem) := by
  let body := fun n => uvmCopyPage ps pt (n * pageSize)
  induction npages generalizing n s sp l with
  | zero => exact ⟨_, s, sp, l, rfl, .refl h, Or.inl ⟨rfl, .refl src sp n⟩⟩
  | succ npages ih =>
      obtain ⟨r, s₁, sp₁, l₁, hrun, hstep, hends⟩ :=
        uvmCopyPage_spec h hsrc (.page (show n < 5120 by omega))
      rw [page_number] at hends
      rcases hends with ⟨rfl, hone⟩ | ⟨rfl, _, _⟩
      · obtain ⟨r, s', sp', l', hloop, hstep', hends⟩ :=
          ih (n := n + 1) hstep.held (hstep.beside hsrc fun p hp => h.isPage hp) (by omega)
        refine ⟨r, s', sp', l', Prog.forCount_ok body hrun hloop, hstep.trans hstep', ?_⟩
        rcases hends with ⟨hr, hrest⟩ | hr
        · exact Or.inl ⟨hr, hone.cons hrest⟩
        · exact Or.inr hr
      · exact ⟨.err .nomem, s₁, sp₁, l₁, Prog.forCount_err body hrun npages, hstep, Or.inr rfl⟩

end OsAgentLab
