/-
Shrinking an address space: `uvm_unmap` and `uvm_dealloc` give user pages back.
-/
import OsAgentLab.Vm.AllocSpec

namespace OsAgentLab

variable {kt pt p t va n : Nat} {s s' : Mm} {sp sp' sp'' : Space} {l l' : List Nat}
  {m m' : Nat → UInt8} {u : UserPage}

section Remove

theorem Space.has_withoutPage {q : Part} (h : (sp.withoutPage n).Has pt q p) :
    sp.Has pt q p ∧ q ≠ .page n := by
  cases q with
  | root => exact ⟨h, Part.noConfusion⟩
  | low => exact ⟨h, Part.noConfusion⟩
  | table i => exact ⟨h, Part.noConfusion⟩
  | page k =>
      obtain ⟨v, hv, rfl⟩ := h
      have hk : k ≠ n := by
        rintro rfl
        rw [Space.withoutPage_self] at hv
        cases hv
      exact ⟨⟨v, (sp.withoutPage_of_ne hk).symm.trans hv, rfl⟩, by simpa using hk⟩

theorem Space.Has.withoutPage {q : Part} (h : sp.Has pt q p) (hq : q ≠ .page n) :
    (sp.withoutPage n).Has pt q p := by
  cases q with
  | root => exact h
  | low => exact h
  | table i => exact h
  | page k =>
      obtain ⟨v, hv, rfl⟩ := h
      have hk : k ≠ n := fun heq => hq (heq ▸ rfl)
      exact ⟨v, (sp.withoutPage_of_ne hk).trans hv, rfl⟩

theorem Space.WellFormed.removePage (h : sp.WellFormed pt) : (sp.withoutPage n).WellFormed pt where
  isPage q x hx := h.isPage q x (Space.has_withoutPage hx).1
  apart := h.apart.mono fun _ _ hx => (Space.has_withoutPage hx).1
  table_lt := h.table_lt
  page_table k v hv := by
    have hhas : (sp.withoutPage n).Has pt (.page k) v.pa := ⟨v, hv, rfl⟩
    obtain ⟨⟨w, hw, _⟩, _⟩ := Space.has_withoutPage hhas
    exact h.page_table k w hw
  perm k v hv := by
    have hk : k ≠ n := by
      rintro rfl
      rw [Space.withoutPage_self] at hv
      cases hv
    rw [Space.withoutPage_of_ne _ hk] at hv
    exact h.perm k v hv

/-- The page `u` was freed, and its entry was cleared. -/
theorem Space.At.removePage (hwf : sp.WellFormed pt) (h : sp.At pt kt m) {i j : Nat}
    (hj : j < 512) (htable : sp.table i = some t) (hu : sp.page (512 * i + j) = some u)
    (hframe : ∀ x, ¬ InPage u.pa x → m' x = m x) :
    (sp.withoutPage (512 * i + j)).At pt kt (put64 m' (t + 8 * j) 0) := by
  have hhas : sp.Has pt (.page (512 * i + j)) u.pa := ⟨u, hu, rfl⟩
  have ht : IsPage t := hwf.isPage (.table i) t htable
  have hpage : IsPage u.pa := hwf.isPage _ _ hhas
  -- memory as it was, in the pages that stay
  have hsame : ∀ q y, sp.Has pt q y → q ≠ .page (512 * i + j) → ∀ x, InPage y x → m' x = m x := by
    intro q y hq hne x hx
    refine hframe x (hpage.not_inPage (hwf.isPage q y hq) ?_ hx)
    rintro rfl
    exact hne (hwf.apart hq hhas)
  have hother : ∀ q y, sp.Has pt q y → q ≠ .page (512 * i + j) → q ≠ .table i →
      ∀ x, InPage y x → put64 m' (t + 8 * j) 0 x = m x := by
    intro q y hq hne hnet x hx
    have hty : t ≠ y := by
      rintro rfl
      exact hnet (hwf.apart hq htable)
    rw [put64_of_not_inPage hj (ht.not_inPage (hwf.isPage q y hq) hty hx)]
    exact hsame q y hq hne x hx
  constructor
  · intro k hpos hk
    rw [le64_page_congr hk (hother .root pt rfl (by simp) (by simp))]
    exact h.root k hpos hk
  · exact (le64_page_congr (i := 0) (by decide) (hother .root pt rfl (by simp) (by simp))).trans
      h.rootLow
  · intro k hk
    change le64 _ (sp.low + 8 * k) = sp.lowWord k
    rw [le64_page_congr hk (hother .low sp.low rfl (by simp) (by simp))]
    exact h.lows k hk
  · intro k y hy r hr
    by_cases hki : k = i
    · subst hki
      have hyt : y = t := Option.some.inj (hy.symm.trans htable)
      subst hyt
      by_cases hrj : j = r
      · subst hrj
        rw [le64_put64_self (by decide), Space.entry_none _ (Space.withoutPage_self ..)]
      · have hne : 512 * k + r ≠ 512 * k + j := by omega
        rw [le64_put64_word hrj, Space.entry, Space.withoutPage_of_ne _ hne,
          le64_page_congr hr (hsame (.table k) y hy (by simp))]
        exact h.entries k y hy r hr
    · have hne : 512 * k + r ≠ 512 * i + j := by omega
      rw [le64_page_congr hr (hother (.table k) y hy (by simp) (by simpa using hki)), Space.entry,
        Space.withoutPage_of_ne _ hne]
      exact h.entries k y hy r hr
  · intro k v hv r hr
    have hk : k ≠ 512 * i + j := by
      rintro rfl
      rw [Space.withoutPage_self] at hv
      cases hv
    rw [Space.withoutPage_of_ne _ hk] at hv
    rw [hother (.page k) v.pa ⟨v, hv, rfl⟩ (by simpa using hk) (by simp) _
      ⟨Nat.le_add_right _ _, by omega⟩]
    exact h.bytes k v hv r hr

end Remove

section Unmap

/-- The address space lost its user pages at the page numbers from `n` up to
`n + k`. -/
structure PagesRemoved (sp sp' : Space) (n k : Nat) : Prop where
  low : sp'.low = sp.low
  table : sp'.table = sp.table
  inside : ∀ j, n ≤ j → j < n + k → sp'.page j = none
  outside : ∀ j, ¬ (n ≤ j ∧ j < n + k) → sp'.page j = sp.page j

theorem PagesRemoved.cons {k : Nat} (h : PagesRemoved sp sp' n 1)
    (h' : PagesRemoved sp' sp'' (n + 1) k) : PagesRemoved sp sp'' n (k + 1) where
  low := h'.low.trans h.low
  table := h'.table.trans h.table
  inside j hle hlt := by
    by_cases hj : j = n
    · rw [h'.outside j (by omega)]
      exact h.inside j hle (by omega)
    · exact h'.inside j (by omega) (by omega)
  outside j hj := by
    rw [h'.outside j (by omega)]
    exact h.outside j (by omega)

theorem PagesRemoved.withoutPage (sp : Space) (n : Nat) :
    PagesRemoved sp (sp.withoutPage n) n 1 where
  low := rfl
  table := rfl
  inside j hle hlt := by
    obtain rfl : j = n := by omega
    exact sp.withoutPage_self
  outside j hj := sp.withoutPage_of_ne (by omega)

theorem PagesRemoved.absent (hnone : sp.page n = none) : PagesRemoved sp sp n 1 where
  low := rfl
  table := rfl
  inside j hle hlt := by
    obtain rfl : j = n := by omega
    exact hnone
  outside _ _ := rfl

/-- One pass of `uvm_unmap`. -/
theorem uvmUnmapPage_spec (h : Held kt s pt sp l) (hva : LowVa va) :
    ∃ s' sp' l', uvmUnmapPage pt va s = (.ok (), s') ∧ SpaceStep kt s pt sp l s' sp' l' ∧
      PagesRemoved sp sp' (va / 4096) 1 := by
  cases hu : sp.page (va / 4096) with
  | none =>
      refine ⟨s, sp, l, ?_, .refl h, .absent hu⟩
      rw [uvmUnmapPage, Prog.bind_ok (walkPte_none h.wf h.space hva hu), Option.elim_none,
        Prog.pure_apply]
  | some u =>
      obtain ⟨t, htable, hwalk⟩ := walkPte_some h.wf h.space hva hu
      have hhas : sp.Has pt (.page (va / 4096)) u.pa := ⟨u, hu, rfl⟩
      have hpage : IsPage u.pa := h.wf.isPage _ _ hhas
      have hperm := h.wf.perm _ u hu
      have ht : IsPage t := h.wf.isPage (.table _) t htable
      have htu : t ≠ u.pa := by
        rintro rfl
        exact Part.noConfusion (h.wf.apart (a := .table _) htable hhas)
      obtain ⟨s₁, hfree, hfree₁, hframe₁, hsatp₁⟩ :=
        kfree_spec h.free hpage (h.apart _ _ hhas)
      have hframe : ∀ x, ¬ InPage u.pa x → ¬ InPage t x →
          put64 s₁.mem (t + 8 * vpn0 va) 0 x = s.mem x := by
        intro x hxu hxt
        rw [put64_of_not_inPage (vpn0_lt va) hxt]
        exact hframe₁ x hxu
      refine ⟨{ s₁ with mem := put64 s₁.mem (t + 8 * vpn0 va) 0 }, sp.withoutPage (va / 4096),
        u.pa :: l, ?_, ⟨⟨?_, ?_, h.wf.removePage, ?_⟩, ?_, ?_, hsatp₁⟩, .withoutPage sp _⟩
      · rw [uvmUnmapPage, Prog.bind_ok hwalk, Option.elim_some,
          if_pos (leafWord_user hpage hperm), pte2pa_leafWord hpage hperm, Prog.bind_ok hfree]
        rfl
      · refine hfree₁.frame rfl fun q hq x hx => ?_
        refine put64_of_not_inPage (vpn0_lt va) (ht.not_inPage (hfree₁.page q hq) ?_ hx)
        rintro rfl
        rcases List.mem_cons.mp hq with heq | hq
        · exact htu heq
        · exact h.apart (.table _) t htable hq
      · rw [← hva.pageNumber]
        exact h.space.removePage h.wf (vpn0_lt va) htable (hva.pageNumber ▸ hu) hframe₁
      · intro q x hx hmem
        obtain ⟨hx, hq⟩ := Space.has_withoutPage hx
        rcases List.mem_cons.mp hmem with rfl | hmem
        · exact hq (h.wf.apart hx hhas)
        · exact h.apart q x hx hmem
      · intro x
        rw [localPage_cons]
        constructor
        · rintro ((hx | ⟨q, hx⟩) | rfl)
          · exact Or.inl hx
          · exact Or.inr ⟨q, (Space.has_withoutPage hx).1⟩
          · exact Or.inr ⟨_, hhas⟩
        · rintro (hx | ⟨q, hx⟩)
          · exact Or.inl (Or.inl hx)
          · by_cases hq : q = .page (va / 4096)
            · subst hq
              obtain ⟨v, hv, rfl⟩ := hx
              exact Or.inr (congrArg UserPage.pa (Option.some.inj (hv.symm.trans hu)))
            · exact Or.inl (Or.inr ⟨q, hx.withoutPage hq⟩)
      · exact fun x hx => hframe x (hx u.pa (Or.inr ⟨_, hhas⟩)) (hx t (Or.inr ⟨.table _, htable⟩))

/-- The loop of `uvm_unmap`. -/
theorem uvmUnmapPages_spec (h : Held kt s pt sp l) {npages : Nat} (hle : n + npages ≤ 5120) :
    ∃ s' sp' l',
      Prog.forCount (fun n => uvmUnmapPage pt (n * pageSize)) npages n s = (.ok (), s') ∧
      SpaceStep kt s pt sp l s' sp' l' ∧ PagesRemoved sp sp' n npages := by
  let body := fun n => uvmUnmapPage pt (n * pageSize)
  induction npages generalizing n s sp l with
  | zero =>
      refine ⟨s, sp, l, rfl, .refl h, rfl, rfl, ?_, fun _ _ => rfl⟩
      exact fun j hle hlt => absurd hlt (by omega)
  | succ npages ih =>
      obtain ⟨s₁, sp₁, l₁, hrun, hstep, hone⟩ :=
        uvmUnmapPage_spec h (UserVa.page (show n < 5120 by omega)).low
      rw [page_number] at hone
      obtain ⟨s', sp', l', hloop, hstep', hrest⟩ := ih (n := n + 1) hstep.held (by omega)
      exact ⟨s', sp', l', Prog.forCount_ok body hrun hloop, hstep.trans hstep', hone.cons hrest⟩

end Unmap

end OsAgentLab
