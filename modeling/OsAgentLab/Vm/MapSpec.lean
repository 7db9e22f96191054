/-
Mapping pages: the tables that a walk adds, and the entries that `uvm_map`
stores.
-/
import OsAgentLab.Vm.Space

namespace OsAgentLab

variable {kt pt p t va : Nat} {s s' : Mm} {sp : Space} {l : List Nat} {m : Nat → UInt8}
  {u : UserPage}

theorem IsPage.not_inPage {q x : Nat} (hp : IsPage p) (hq : IsPage q) (hne : p ≠ q)
    (h : InPage q x) : ¬ InPage p x :=
  fun h' => hne (hp.inPage_unique hq h' h)

section Roles

theorem Space.has_withTable {i : Nat} {q : Part} (h : (sp.withTable i t).Has pt q p) :
    q = .table i ∧ p = t ∨ sp.Has pt q p := by
  cases q with
  | root => exact Or.inr h
  | low => exact Or.inr h
  | page n => exact Or.inr h
  | table j =>
      by_cases hj : j = i
      · subst hj
        simp only [Space.Has, Space.withTable, Function.update_self, Option.some.injEq] at h
        exact Or.inl ⟨rfl, h.symm⟩
      · simp only [Space.Has, Space.withTable, Function.update_of_ne hj] at h
        exact Or.inr h

theorem Space.Has.withTable {i : Nat} {q : Part} (h : sp.Has pt q p) (hnone : sp.table i = none) :
    (sp.withTable i t).Has pt q p := by
  cases q with
  | root => exact h
  | low => exact h
  | page n => exact h
  | table j =>
      have hj : j ≠ i := by
        rintro rfl
        rw [Space.Has, hnone] at h
        cases h
      simp only [Space.Has, Space.withTable, Function.update_of_ne hj]
      exact h

theorem Space.has_withPage {n : Nat} {q : Part} (h : (sp.withPage n u).Has pt q p) :
    q = .page n ∧ p = u.pa ∨ sp.Has pt q p := by
  cases q with
  | root => exact Or.inr h
  | low => exact Or.inr h
  | table i => exact Or.inr h
  | page k =>
      obtain ⟨v, hv, rfl⟩ := h
      by_cases hk : k = n
      · subst hk
        simp only [Space.withPage, Function.update_self, Option.some.injEq] at hv
        exact Or.inl ⟨rfl, hv ▸ rfl⟩
      · simp only [Space.withPage, Function.update_of_ne hk] at hv
        exact Or.inr ⟨v, hv, rfl⟩

theorem Space.Has.withPage {n : Nat} {q : Part} (h : sp.Has pt q p) (hnone : sp.page n = none) :
    (sp.withPage n u).Has pt q p := by
  cases q with
  | root => exact h
  | low => exact h
  | table i => exact h
  | page k =>
      obtain ⟨v, hv, rfl⟩ := h
      have hk : k ≠ n := by
        rintro rfl
        rw [hnone] at hv
        cases hv
      exact ⟨v, (sp.withPage_of_ne hk).trans hv, rfl⟩

/-- A role that takes a page of nobody's keeps the roles apart. -/
theorem Space.apart_insert {sp' : Space} (hapart : Apart (sp.Has pt)) {r : Part}
    (hnew : ∀ q x, sp.Has pt q x → x ≠ p)
    (hhas : ∀ q x, sp'.Has pt q x → q = r ∧ x = p ∨ sp.Has pt q x) : Apart (sp'.Has pt) := by
  intro a b x ha hb
  rcases hhas a x ha with ⟨rfl, rfl⟩ | ha
  · rcases hhas b x hb with ⟨rfl, _⟩ | hb
    · rfl
    · exact absurd rfl (hnew b x hb)
  · rcases hhas b x hb with ⟨rfl, rfl⟩ | hb
    · exact absurd rfl (hnew a x ha)
    · exact hapart ha hb

end Roles

section NewTable

/-- The walk stored the new last-level table `t` at index `i`. -/
theorem Space.At.addTable (hwf : sp.WellFormed pt) (h : sp.At pt kt m) {i : Nat} (hi : i < 10)
    (hnone : sp.table i = none) (ht : IsPage t) (hnew : ∀ q x, sp.Has pt q x → x ≠ t) :
    (sp.withTable i t).At pt kt
      (put64 (putPage m t fun _ => 0) (sp.low + 8 * i) (tableWord t)) := by
  have hlow : IsPage sp.low := hwf.isPage .low _ rfl
  have hother : ∀ q y, sp.Has pt q y → y ≠ sp.low → ∀ x, InPage y x →
      put64 (putPage m t fun _ => 0) (sp.low + 8 * i) (tableWord t) x = m x := by
    intro q y hq hne x hx
    rw [put64_of_not_inPage (Nat.lt_trans hi (by decide))
      (hlow.not_inPage (hwf.isPage q y hq) hne.symm hx)]
    exact putPage_of_not_mem (ht.not_inPage (hwf.isPage q y hq) (hnew q y hq).symm hx)
  have hroot : pt ≠ sp.low := fun heq => Part.noConfusion (hwf.apart (a := .root) (b := .low) rfl heq)
  have htLow : t ≠ sp.low := (hnew .low _ rfl).symm
  have hlowWord : ∀ j, j < 512 → le64 (putPage m t fun _ => 0) (sp.low + 8 * j) = sp.lowWord j := by
    intro j hj
    rw [le64_page_congr hj fun x hx => putPage_of_not_mem (ht.not_inPage hlow htLow hx)]
    exact h.lows j hj
  constructor
  · intro j hpos hj
    rw [le64_page_congr hj (hother .root pt rfl hroot)]
    exact h.root j hpos hj
  · exact (le64_page_congr (i := 0) (by decide) (hother .root pt rfl hroot)).trans h.rootLow
  · intro j hj
    change le64 _ (sp.low + 8 * j) = _
    by_cases hij : i = j
    · subst hij
      rw [le64_put64_self (tableWord_lt ht), Space.lowWord_of_lt (Nat.lt_trans hi (by decide))]
      simp only [Space.withTable, Function.update_self]
    · rw [le64_put64_word hij, hlowWord j hj]
      simp only [Space.lowWord, Space.withTable, Function.update_of_ne (Ne.symm hij)]
  · intro j y hy k hk
    by_cases hij : j = i
    · subst hij
      simp only [Space.withTable, Function.update_self, Option.some.injEq] at hy
      subst hy
      have hzero : le64 (put64 (putPage m t fun _ => 0) (sp.low + 8 * j) (tableWord t))
          (t + 8 * k) = 0 := by
        rw [le64_page_congr hk fun x hx => put64_of_not_inPage (Nat.lt_trans hi (by decide))
          (hlow.not_inPage ht htLow.symm hx), le64_putPage hk]
        exact le64_eq_zero fun _ _ => rfl
      rw [hzero]
      -- no user page uses a table that did not exist
      cases hpage : sp.page (512 * j + k) with
      | none => simp only [Space.entry, Space.withTable, hpage]
      | some v =>
          obtain ⟨z, hz⟩ := hwf.page_table _ v hpage
          rw [show (512 * j + k) / 512 = j by omega, hnone] at hz
          cases hz
    · simp only [Space.withTable, Function.update_of_ne hij] at hy
      have hne : y ≠ sp.low := fun heq =>
        Part.noConfusion (hwf.apart (a := .table j) (b := .low) hy heq)
      rw [le64_page_congr hk (hother (.table j) y hy hne)]
      exact h.entries j y hy k hk
  · intro n v hv k hk
    have hne : v.pa ≠ sp.low := fun heq =>
      Part.noConfusion (hwf.apart (a := .page n) (b := .low) ⟨v, hv, rfl⟩ heq)
    rw [hother (.page n) v.pa ⟨v, hv, rfl⟩ hne _ ⟨Nat.le_add_right _ _, by omega⟩]
    exact h.bytes n v hv k hk

theorem Space.WellFormed.addTable (h : sp.WellFormed pt) {i : Nat} (hi : i < 10)
    (ht : IsPage t) (hnew : ∀ q x, sp.Has pt q x → x ≠ t) :
    (sp.withTable i t).WellFormed pt where
  isPage q x hx := by
    rcases Space.has_withTable hx with ⟨_, rfl⟩ | hx
    · exact ht
    · exact h.isPage q x hx
  apart := Space.apart_insert h.apart hnew fun _ _ => Space.has_withTable
  table_lt j y hy := by
    have hhas : (sp.withTable i t).Has pt (.table j) y := hy
    rcases Space.has_withTable hhas with ⟨heq, _⟩ | hy
    · cases heq
      exact hi
    · exact h.table_lt j y hy
  page_table n v hv := by
    obtain ⟨z, hz⟩ := h.page_table n v hv
    by_cases hn : n / 512 = i
    · exact ⟨t, hn ▸ sp.withTable_self⟩
    · exact ⟨z, (sp.withTable_of_ne hn).trans hz⟩
  perm := h.perm

end NewTable

section NewPage

/-- The entry of a new user page was stored in its last-level table. -/
theorem Space.At.addPage (hwf : sp.WellFormed pt) (h : sp.At pt kt m) {i j : Nat} (hj : j < 512)
    (htable : sp.table i = some t) (hpa : IsPage u.pa) (hperm : IsUserPerm u.perm)
    (hbytes : ∀ k, k < 4096 → m (u.pa + k) = u.bytes k)
    (hnew : ∀ q x, sp.Has pt q x → x ≠ u.pa) :
    (sp.withPage (512 * i + j) u).At pt kt (put64 m (t + 8 * j) (leafWord u.pa u.perm)) := by
  have ht : IsPage t := hwf.isPage (.table i) t htable
  have hframe : ∀ y, IsPage y → y ≠ t → ∀ x, InPage y x →
      put64 m (t + 8 * j) (leafWord u.pa u.perm) x = m x := fun y hy hne x hx =>
    put64_of_not_inPage hj (ht.not_inPage hy hne.symm hx)
  have hother : ∀ q y, sp.Has pt q y → q ≠ .table i → ∀ x, InPage y x →
      put64 m (t + 8 * j) (leafWord u.pa u.perm) x = m x := by
    intro q y hq hne
    apply hframe y (hwf.isPage q y hq)
    rintro rfl
    exact hne (hwf.apart hq htable)
  constructor
  · intro k hpos hk
    rw [le64_page_congr hk (hother .root pt rfl (by simp))]
    exact h.root k hpos hk
  · exact (le64_page_congr (i := 0) (by decide) (hother .root pt rfl (by simp))).trans h.rootLow
  · intro k hk
    change le64 _ (sp.low + 8 * k) = sp.lowWord k
    rw [le64_page_congr hk (hother .low sp.low rfl (by simp))]
    exact h.lows k hk
  · intro k y hy r hr
    by_cases hki : k = i
    · subst hki
      have hyt : y = t := Option.some.inj (hy.symm.trans htable)
      subst hyt
      by_cases hrj : j = r
      · subst hrj
        rw [le64_put64_self (leafWord_lt hpa hperm), Space.entry_some _ (Space.withPage_self ..)]
      · have hne : 512 * k + r ≠ 512 * k + j := by omega
        rw [le64_put64_word hrj, Space.entry, Space.withPage_of_ne _ hne]
        exact h.entries k y hy r hr
    · have hne : 512 * k + r ≠ 512 * i + j := by omega
      rw [le64_page_congr hr (hother (.table k) y hy (by simpa using hki)), Space.entry,
        Space.withPage_of_ne _ hne]
      exact h.entries k y hy r hr
  · intro n v hv k hk
    have hin : ∀ z, InPage z (z + k) := fun z => ⟨Nat.le_add_right _ _, by omega⟩
    by_cases hn : n = 512 * i + j
    · subst hn
      rw [Space.withPage_self, Option.some.injEq] at hv
      subst hv
      rw [hframe u.pa hpa (fun heq => hnew (.table i) t htable heq.symm) _ (hin _)]
      exact hbytes k hk
    · rw [Space.withPage_of_ne _ hn] at hv
      rw [hother (.page n) v.pa ⟨v, hv, rfl⟩ (by simp) _ (hin _)]
      exact h.bytes n v hv k hk

theorem Space.WellFormed.addPage (h : sp.WellFormed pt) {n : Nat}
    (htable : sp.table (n / 512) = some t) (hpa : IsPage u.pa) (hperm : IsUserPerm u.perm)
    (hnew : ∀ q x, sp.Has pt q x → x ≠ u.pa) : (sp.withPage n u).WellFormed pt where
  isPage q x hx := by
    rcases Space.has_withPage hx with ⟨_, rfl⟩ | hx
    · exact hpa
    · exact h.isPage q x hx
  apart := Space.apart_insert h.apart hnew fun _ _ => Space.has_withPage
  table_lt := h.table_lt
  page_table k v hv := by
    by_cases hk : k = n
    · subst hk
      exact ⟨t, htable⟩
    · rw [Space.withPage_of_ne _ hk] at hv
      exact h.page_table k v hv
  perm k v hv := by
    by_cases hk : k = n
    · subst hk
      rw [Space.withPage_self, Option.some.injEq] at hv
      exact hv ▸ hperm
    · rw [Space.withPage_of_ne _ hk] at hv
      exact h.perm k v hv

end NewPage

section Map

/-- Addresses of user pages. -/
structure UserVa (va : Nat) : Prop where
  lt : va < userLimit
  aligned : va % 4096 = 0

theorem UserVa.low (h : UserVa va) : LowVa va :=
  Nat.lt_trans h.lt (by decide)

theorem UserVa.index_lt (h : UserVa va) : vpn1 va < 10 := by
  have hlt := h.lt
  rw [h.low.vpn1]
  unfold userLimit at hlt
  omega

/-- `memset` of a page that `kalloc` has cleared already. -/
theorem putPage_zero_twice (m : Nat → UInt8) (p : Nat) :
    putPage (putPage m p fun _ => 0) p (fun _ => 0) = putPage m p fun _ => 0 := by
  funext x
  by_cases hx : InPage p x
  · rw [putPage_of_mem hx, putPage_of_mem hx]
  · rw [putPage_of_not_mem hx]

/-- A walk that may create tables does so at an empty entry. -/
theorem walkLevel_new {idx : Nat} (hword : le64 s.mem (p + 8 * idx) = 0)
    (halloc : kalloc s = (.ok (some t), s')) :
    ∃ s₂, walkLevel p idx true s = (.ok (some t), s₂) ∧
      s₂.mem = put64 (putPage s'.mem t fun _ => 0) (p + 8 * idx) (tableWord t) ∧
      s₂.freelist = s'.freelist ∧ s₂.satp = s'.satp := by
  have hinvalid : ¬ 0 &&& pteV ≠ 0 := not_not.mpr (Nat.zero_and _)
  have hrun : walkLevel p idx true s = (do
      zeroPage t
      store64 (p + 8 * idx) (pa2pte t ||| pteV)
      pure (some t) : Vm (Option Nat)) s' := by
    rw [walkLevel, load64_bind, hword, if_neg hinvalid, if_pos rfl, Prog.bind_ok halloc,
      Option.elim_some]
  exact ⟨_, hrun, rfl, rfl, rfl⟩

theorem walkLevel_full {idx : Nat} (hword : le64 s.mem (p + 8 * idx) = 0)
    (halloc : kalloc s = (.ok none, s)) : walkLevel p idx true s = (.ok none, s) := by
  have hinvalid : ¬ 0 &&& pteV ≠ 0 := not_not.mpr (Nat.zero_and _)
  rw [walkLevel, load64_bind, hword, if_neg hinvalid, if_pos rfl, Prog.bind_ok halloc,
    Option.elim_none, Prog.pure_apply]

theorem Space.At.lowWord_none (h : sp.At pt kt m) (hva : UserVa va)
    (hnone : sp.table (vpn1 va) = none) : le64 m (sp.low + 8 * vpn1 va) = 0 := by
  rw [h.lows _ (Nat.lt_trans hva.index_lt (by decide)), Space.lowWord_of_lt hva.low.vpn1_lt,
    hnone]

/-- The walk creates the last-level table that is missing. -/
theorem walk_newTable (h : Held kt s pt sp (t :: l)) (hva : UserVa va)
    (hnone : sp.table (vpn1 va) = none) :
    ∃ s', walk pt va true s = (.ok (some (t + 8 * vpn0 va)), s') ∧
      SpaceStep kt s pt sp (t :: l) s' (sp.withTable (vpn1 va) t) l ∧
      ∀ x, ¬ InPage sp.low x → ¬ InPage t x → s'.mem x = s.mem x := by
  have ht : IsPage t := h.free.page t List.mem_cons_self
  have hlow : IsPage sp.low := h.wf.isPage .low _ rfl
  have hnew : ∀ q x, sp.Has pt q x → x ≠ t := fun q x hx heq =>
    h.apart q x hx (heq ▸ List.mem_cons_self)
  obtain ⟨s₁, halloc, hfree₁, hmem₁, hsatp₁⟩ := kalloc_cons h.free
  obtain ⟨s₂, hrun, hmem₂, hhead₂, hsatp₂⟩ :=
    walkLevel_new (h.space.lowWord_none hva hnone) halloc
  rw [hmem₁, putPage_zero_twice] at hmem₂
  have hframe : ∀ x, ¬ InPage sp.low x → ¬ InPage t x → s₂.mem x = s.mem x := by
    intro x hxlow hxt
    rw [hmem₂, put64_of_not_inPage (Nat.lt_trans hva.index_lt (by decide)) hxlow]
    exact putPage_of_not_mem hxt
  refine ⟨s₂, ?_, ⟨⟨?_, ?_, ?_, ?_⟩, ?_, ?_, ?_⟩, hframe⟩
  · rw [walk, Prog.bind_ok (walkLevel_root h.wf h.space hva.low true), Option.elim_some,
      Prog.bind_ok hrun, Option.elim_some, Prog.pure_apply]
  · -- the free pages lie apart from both pages that were written to
    refine hfree₁.frame hhead₂ fun q hq x hx => ?_
    have hqt : t ≠ q := fun heq => (List.nodup_cons.mp h.free.nodup).1 (heq ▸ hq)
    have hqlow : sp.low ≠ q := fun heq =>
      h.apart .low _ rfl (heq ▸ List.mem_cons_of_mem t hq)
    have hqpage := h.free.page q (List.mem_cons_of_mem t hq)
    rw [hmem₁, hframe x (hlow.not_inPage hqpage hqlow hx) (ht.not_inPage hqpage hqt hx),
      putPage_of_not_mem (ht.not_inPage hqpage hqt hx)]
  · rw [hmem₂]
    exact h.space.addTable h.wf hva.index_lt hnone ht hnew
  · exact h.wf.addTable hva.index_lt ht hnew
  · intro q x hx hmem
    rcases Space.has_withTable hx with ⟨_, rfl⟩ | hx
    · exact (List.nodup_cons.mp h.free.nodup).1 hmem
    · exact h.apart q x hx (List.mem_cons_of_mem t hmem)
  · intro x
    constructor
    · rintro (hx | ⟨q, hx⟩)
      · exact Or.inl (List.mem_cons_of_mem t hx)
      · rcases Space.has_withTable hx with ⟨_, rfl⟩ | hx
        · exact Or.inl List.mem_cons_self
        · exact Or.inr ⟨q, hx⟩
    · rintro (hx | ⟨q, hx⟩)
      · rcases List.mem_cons.mp hx with rfl | hx
        · exact Or.inr ⟨.table (vpn1 va), sp.withTable_self⟩
        · exact Or.inl hx
      · exact Or.inr ⟨q, hx.withTable hnone⟩
  · intro x hx
    exact hframe x (hx sp.low (Or.inr ⟨.low, rfl⟩)) (hx t (Or.inl List.mem_cons_self))
  · exact hsatp₂.trans hsatp₁

/-- The walk fails when no page is left for the table that is missing. -/
theorem walk_noPage (h : Held kt s pt sp []) (hva : UserVa va)
    (hnone : sp.table (vpn1 va) = none) : walk pt va true s = (.ok none, s) := by
  have hrun := walkLevel_full (h.space.lowWord_none hva hnone) (kalloc_nil h.free)
  rw [walk, Prog.bind_ok (walkLevel_root h.wf h.space hva.low true), Option.elim_some,
    Prog.bind_ok hrun, Option.elim_none, Prog.pure_apply]

/-- How mapping the page `u` at page number `n` ends, with the address space
and the free list that it leaves behind. -/
inductive MapEnds (sp : Space) (l : List Nat) (n : Nat) (u : UserPage) :
    Outcome Errno Unit → Space → List Nat → Prop
  | mapped {t : Nat} : sp.page n = none → sp.table (n / 512) = some t →
      MapEnds sp l n u (.ok ()) (sp.withPage n u) l
  | mappedTable {t : Nat} {l' : List Nat} : sp.page n = none → sp.table (n / 512) = none →
      l = t :: l' → MapEnds sp l n u (.ok ()) ((sp.withTable (n / 512) t).withPage n u) l'
  | present {v : UserPage} : sp.page n = some v → MapEnds sp l n u (.err .exist) sp l
  | full : sp.page n = none → sp.table (n / 512) = none → l = [] →
      MapEnds sp l n u (.err .nomem) sp l

theorem UserVa.roundDown (hva : UserVa va) : pgRoundDown va = va := by
  have haligned := hva.aligned
  unfold pgRoundDown pageSize
  omega

theorem UserVa.mapPasses (hva : UserVa va) : mapPasses va pageSize = 0 := by
  have hlt := hva.lt
  have haligned := hva.aligned
  unfold userLimit at hlt
  have hlast : pgRoundDown (u64 (va + pageSize + 18446744073709551615)) = va := by
    unfold pgRoundDown u64 pageSize
    omega
  rw [OsAgentLab.mapPasses, hlast, hva.roundDown, Nat.add_sub_cancel_left, u64, Nat.mod_self,
    Nat.zero_div]

theorem uvmMapLoop_zero (a pa perm : Nat) :
    uvmMapLoop pt perm 0 a pa = uvmMapPage pt a pa perm := rfl

theorem uvmMap_page (hva : UserVa va) (pa perm : Nat) :
    uvmMap pt va pa pageSize perm = uvmMapPage pt va pa perm := by
  rw [uvmMap, hva.mapPasses, hva.roundDown, uvmMapLoop_zero]

/-- The store of an entry in the table that holds it. -/
theorem Held.storeEntry (h : Held kt s pt sp l) (hva : UserVa va)
    (htable : sp.table (vpn1 va) = some t) (hpa : IsPage u.pa) (hperm : IsUserPerm u.perm)
    (hbytes : ∀ i, i < 4096 → s.mem (u.pa + i) = u.bytes i) (hnot : ¬ LocalPage pt sp l u.pa) :
    ∃ s', store64 (t + 8 * vpn0 va) (leafWord u.pa u.perm) s = (.ok (), s') ∧
      Held kt s' pt (sp.withPage (va / 4096) u) l ∧ s'.satp = s.satp ∧
      ∀ x, ¬ InPage t x → s'.mem x = s.mem x := by
  have hnew : ∀ q x, sp.Has pt q x → x ≠ u.pa := fun q x hx heq => hnot (Or.inr ⟨q, heq ▸ hx⟩)
  have ht : IsPage t := h.wf.isPage (.table _) t htable
  have hframe : ∀ x, ¬ InPage t x →
      put64 s.mem (t + 8 * vpn0 va) (leafWord u.pa u.perm) x = s.mem x := fun x hx =>
    put64_of_not_inPage (vpn0_lt va) hx
  refine ⟨{ s with mem := put64 s.mem (t + 8 * vpn0 va) (leafWord u.pa u.perm) }, rfl,
    ⟨?_, ?_, ?_, ?_⟩, rfl, hframe⟩
  · refine h.free.frame rfl fun q hq x hx => hframe x ?_
    exact ht.not_inPage (h.free.page q hq) (fun heq => h.apart (.table _) t htable (heq ▸ hq)) hx
  · rw [← hva.low.pageNumber]
    exact h.space.addPage h.wf (vpn0_lt va) htable hpa hperm hbytes hnew
  · rw [hva.low.vpn1] at htable
    exact h.wf.addPage htable hpa hperm hnew
  · intro q x hx
    rcases Space.has_withPage hx with ⟨_, rfl⟩ | hx
    · exact fun hmem => hnot (Or.inl hmem)
    · exact h.apart q x hx

/-- `uvm_map` of one page, in four outcomes. -/
theorem uvmMap_spec (h : Held kt s pt sp l) (hva : UserVa va) (hpa : IsPage u.pa)
    (hperm : IsUserPerm u.perm) (hbytes : ∀ i, i < 4096 → s.mem (u.pa + i) = u.bytes i)
    (hnot : ¬ LocalPage pt sp l u.pa) :
    ∃ r s' sp' l', uvmMap pt va u.pa pageSize u.perm s = (r, s') ∧
      MapEnds sp l (va / 4096) u r sp' l' ∧ Held kt s' pt sp' l' ∧ s'.satp = s.satp ∧
      ∀ x, (∀ p, LocalPage pt sp l p → ¬ InPage p x) → s'.mem x = s.mem x := by
  rw [uvmMap_page hva, uvmMapPage]
  have hindex := hva.low.vpn1
  cases htable : sp.table (vpn1 va) with
  | some t =>
      have hword := h.space.entry_of_table hva.low htable
      rw [Prog.bind_ok (walk_table h.wf h.space hva.low htable true), Option.elim_some,
        load64_bind, hword]
      cases hpage : sp.page (va / 4096) with
      | some v =>
          have hv : IsPage v.pa := h.wf.isPage (.page _) _ ⟨v, hpage, rfl⟩
          rw [Space.entry_some _ hpage, if_pos (leafWord_valid hv (h.wf.perm _ v hpage)), Prog.fail_apply]
          exact ⟨_, _, sp, l, rfl, .present hpage, h, rfl, fun _ _ => rfl⟩
      | none =>
          have hinvalid : ¬ 0 &&& pteV ≠ 0 := not_not.mpr (Nat.zero_and _)
          obtain ⟨s', hrun, hheld, hsatp, hframe⟩ :=
            h.storeEntry hva htable hpa hperm hbytes hnot
          rw [Space.entry_none _ hpage, if_neg hinvalid]
          refine ⟨_, s', _, l, hrun, .mapped hpage (hindex ▸ htable), hheld, hsatp, ?_⟩
          exact fun x hx => hframe x (hx t (Or.inr ⟨.table _, htable⟩))
  | none =>
      have hpage : sp.page (va / 4096) = none := by
        cases hpage : sp.page (va / 4096) with
        | none => rfl
        | some v =>
            obtain ⟨t, ht⟩ := h.wf.page_table _ v hpage
            rw [← hindex, htable] at ht
            cases ht
      cases l with
      | nil =>
          rw [Prog.bind_ok (walk_noPage h hva htable), Option.elim_none, Prog.fail_apply]
          exact ⟨_, _, sp, [], rfl, .full hpage (hindex ▸ htable) rfl, h, rfl, fun _ _ => rfl⟩
      | cons t l =>
          obtain ⟨s₁, hwalk, hstep, _⟩ := walk_newTable h hva htable
          have htable₁ : (sp.withTable (vpn1 va) t).table (vpn1 va) = some t := sp.withTable_self
          have hnot₁ := fun hp => hnot ((hstep.pages u.pa).mp hp)
          have hbytes₁ : ∀ i, i < 4096 → s₁.mem (u.pa + i) = u.bytes i := by
            intro i hi
            rw [hstep.frame _ fun p hp => ?_]
            · exact hbytes i hi
            · apply (h.isPage hp).not_inPage hpa (fun heq => hnot (heq ▸ hp))
              exact ⟨Nat.le_add_right _ _, by omega⟩
          have hword : le64 s₁.mem (t + 8 * vpn0 va) = 0 := by
            rw [hstep.held.space.entry_of_table hva.low htable₁]
            exact Space.entry_none _ hpage
          have hinvalid : ¬ 0 &&& pteV ≠ 0 := not_not.mpr (Nat.zero_and _)
          obtain ⟨s', hrun, hheld, hsatp, hframe⟩ :=
            hstep.held.storeEntry hva htable₁ hpa hperm hbytes₁ hnot₁
          rw [Prog.bind_ok hwalk, Option.elim_some, load64_bind, hword, if_neg hinvalid]
          refine ⟨_, s', _, l, hrun, ?_, hheld, hsatp.trans hstep.satp, ?_⟩
          · rw [hindex]
            exact .mappedTable hpage (hindex ▸ htable) rfl
          · intro x hx
            rw [hframe x (hx t (Or.inl List.mem_cons_self))]
            exact hstep.frame x hx

end Map

end OsAgentLab
