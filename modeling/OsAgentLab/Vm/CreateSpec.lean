/-
`uvm_create`: a root table that shares the kernel entries of the current one,
and a table of the low 1 GiB that maps the devices.
-/
import OsAgentLab.Vm.FreeSpec

namespace OsAgentLab

variable {kt pt p q : Nat} {s s' : Mm} {l : List Nat} {m : Nat → UInt8}

/-- An address space without user pages. -/
def Space.empty (low : Nat) : Space := ⟨low, fun _ => none, fun _ => none⟩

/-- `satp` names a root table with the kernel entries of the boot table. -/
structure SatpRoot (kt : Nat) (s : Mm) (l : List Nat) : Prop where
  isPage : IsPage s.satp
  root : ∀ i, 0 < i → i < 512 → le64 s.mem (s.satp + 8 * i) = bootRoot kt i
  notFree : s.satp ∉ l

/-- The entries of the devices in a table of the low 1 GiB. -/
def putDevices (m : Nat → UInt8) (low : Nat) : Nat → UInt8 :=
  put64 (put64 (put64 m (low + 8 * vpn1 uart0Base) (pteMake uart0Base mmioFlags))
    (low + 8 * vpn1 clintBase) (pteMake clintBase mmioFlags))
    (low + 8 * vpn1 plicBase) (pteMake plicBase mmioFlags)

theorem le64_putDevices (hzero : ∀ i, i < 512 → le64 m (q + 8 * i) = 0) {i : Nat} (hi : i < 512) :
    le64 (putDevices m q) (q + 8 * i) = (Space.empty q).lowWord i := by
  rw [putDevices, Space.lowWord]
  by_cases hclint : i = vpn1 clintBase
  · subst hclint
    rw [le64_put64_word (by decide), le64_put64_self (by decide), if_pos rfl]
  rw [if_neg hclint]
  by_cases hplic : i = vpn1 plicBase
  · subst hplic
    rw [le64_put64_self (by decide), if_pos rfl]
  rw [if_neg hplic, le64_put64_word (Ne.symm hplic), le64_put64_word (Ne.symm hclint)]
  by_cases huart : i = vpn1 uart0Base
  · subst huart
    rw [le64_put64_self (by decide), if_pos rfl]
  rw [if_neg huart, le64_put64_word (Ne.symm huart)]
  exact hzero i hi

theorem putDevices_of_not_inPage {x : Nat} (h : ¬ InPage q x) : putDevices m q x = m x := by
  rw [putDevices, put64_of_not_inPage (by decide) h, put64_of_not_inPage (by decide) h,
    put64_of_not_inPage (by decide) h]

theorem Space.empty_wellFormed (hp : IsPage p) (hq : IsPage q) (hne : p ≠ q) :
    (Space.empty q).WellFormed p where
  isPage part x hx := by
    cases part with
    | root => exact hx ▸ hp
    | low => exact hx ▸ hq
    | table i => cases hx
    | page n =>
        obtain ⟨_, hu, _⟩ := hx
        cases hu
  apart a b x ha hb := by
    cases a with
    | table i => cases ha
    | page n =>
        obtain ⟨_, hu, _⟩ := ha
        cases hu
    | root =>
        cases b with
        | root => rfl
        | low => exact absurd (ha.symm.trans hb) hne
        | table i => cases hb
        | page n =>
            obtain ⟨_, hu, _⟩ := hb
            cases hu
    | low =>
        cases b with
        | root => exact absurd (hb.symm.trans ha) hne
        | low => rfl
        | table i => cases hb
        | page n =>
            obtain ⟨_, hu, _⟩ := hb
            cases hu
  table_lt i t ht := by cases ht
  page_table n u hu := by cases hu
  perm n u hu := by cases hu

/-- No page is left. -/
theorem uvmCreate_nil (h : FreePages s []) : uvmCreate s = (.ok none, s) := by
  rw [uvmCreate, Prog.bind_ok (kalloc_nil h), Option.elim_none, Prog.pure_apply]

/-- The first page is filled from the current root table. -/
theorem uvmCreate_root (h : FreePages s (p :: l)) :
    ∃ s₁ s₂, kalloc s = (.ok (some p), s₁) ∧ zeroPage p s₁ = (.ok (), s₂) ∧
      ∃ s₃, copyPage p s₂.satp s₂ = (.ok (), s₃) ∧ s₃.satp = s.satp ∧ FreePages s₃ l ∧
        (∀ x, ¬ InPage p x → s₃.mem x = s.mem x) ∧
        (∀ i, i < 4096 → ¬ InPage p (s.satp + i) → s₃.mem (p + i) = s.mem (s.satp + i)) := by
  have hp : IsPage p := h.page p List.mem_cons_self
  obtain ⟨s₁, halloc, hfree₁, hmem₁, hsatp₁⟩ := kalloc_cons h
  let m₂ := putPage s₁.mem p fun _ => 0
  let m₃ := putPage m₂ p fun i => m₂ (s₁.satp + i)
  have hframe : ∀ x, ¬ InPage p x → m₃ x = s₁.mem x := fun x hx =>
    (putPage_of_not_mem hx).trans (putPage_of_not_mem hx)
  have hframe₁ : ∀ x, ¬ InPage p x → s₁.mem x = s.mem x := fun x hx => by
    rw [hmem₁, putPage_of_not_mem hx]
  refine ⟨s₁, { s₁ with mem := m₂ }, halloc, rfl, { s₁ with mem := m₃ }, rfl, hsatp₁, ?_, ?_, ?_⟩
  · refine hfree₁.frame rfl fun q hq x hx => hframe x ?_
    refine hp.not_inPage (hfree₁.page q hq) ?_ hx
    rintro rfl
    exact (List.nodup_cons.mp h.nodup).1 hq
  · exact fun x hx => (hframe x hx).trans (hframe₁ x hx)
  · intro i hi hout
    change putPage m₂ p (fun i => m₂ (s₁.satp + i)) (p + i) = _
    rw [putPage_of_mem ⟨Nat.le_add_right _ _, Nat.add_lt_add_left hi _⟩, Nat.add_sub_cancel_left,
      hsatp₁]
    exact (putPage_of_not_mem hout).trans (hframe₁ _ hout)

/-- Only one page is left: it is given back. -/
theorem uvmCreate_single (h : FreePages s [p]) :
    ∃ s', uvmCreate s = (.ok none, s') ∧ FreePages s' [p] ∧
      (∀ x, ¬ InPage p x → s'.mem x = s.mem x) ∧ s'.satp = s.satp := by
  have hp : IsPage p := h.page p List.mem_cons_self
  obtain ⟨s₁, s₂, halloc, hzero, s₃, hcopy, hsatp₃, hfree₃, hframe₃, _⟩ := uvmCreate_root h
  obtain ⟨s', hkfree, hfree', hframe', hsatp'⟩ := kfree_spec hfree₃ hp List.not_mem_nil
  refine ⟨s', ?_, hfree', ?_, hsatp'.trans hsatp₃⟩
  · rw [uvmCreate, Prog.bind_ok halloc, Option.elim_some, Prog.bind_ok hzero, Prog.get_bind,
      Prog.bind_ok hcopy, Prog.bind_ok (kalloc_nil hfree₃), Option.elim_none,
      Prog.bind_ok hkfree, Prog.pure_apply]
  · exact fun x hx => (hframe' x hx).trans (hframe₃ x hx)

/-- Two pages make an empty address space. -/
theorem uvmCreate_spec (h : FreePages s (p :: q :: l)) (hsatp : SatpRoot kt s (p :: q :: l)) :
    ∃ s', uvmCreate s = (.ok (some p), s') ∧ Held kt s' p (Space.empty q) l ∧
      (∀ x, LocalPage p (Space.empty q) l x ↔ x ∈ p :: q :: l) ∧
      (∀ x, ¬ InPage p x → ¬ InPage q x → s'.mem x = s.mem x) ∧ s'.satp = s.satp := by
  have hp : IsPage p := h.page p List.mem_cons_self
  have hq : IsPage q := h.page q (by simp)
  have hpq : p ≠ q := by
    rintro rfl
    exact (List.nodup_cons.mp h.nodup).1 List.mem_cons_self
  have hpl : p ∉ l := fun hin => (List.nodup_cons.mp h.nodup).1 (List.mem_cons_of_mem q hin)
  obtain ⟨s₁, s₂, halloc, hzero, s₃, hcopy, hsatp₃, hfree₃, hframe₃, hcopied⟩ := uvmCreate_root h
  have hql : q ∉ l := (List.nodup_cons.mp hfree₃.nodup).1
  obtain ⟨s₄, halloc₄, hfree₄, hmem₄, hsatp₄⟩ := kalloc_cons hfree₃
  let m₅ := putDevices (putPage s₄.mem q fun _ => 0) q
  let m₆ := put64 m₅ (p + 8 * vpn2 0) (tableWord q)
  have hframe₆ : ∀ x, ¬ InPage p x → ¬ InPage q x → m₆ x = s.mem x := by
    intro x hxp hxq
    change put64 m₅ (p + 8 * vpn2 0) (tableWord q) x = _
    rw [put64_of_not_inPage (by decide) hxp]
    change putDevices (putPage s₄.mem q fun _ => 0) q x = _
    rw [putDevices_of_not_inPage hxq, putPage_of_not_mem hxq, hmem₄, putPage_of_not_mem hxq]
    exact hframe₃ x hxp
  have hroot₅ : ∀ x, InPage p x → m₅ x = s₃.mem x := by
    intro x hx
    have hxq := hq.not_inPage hp hpq.symm hx
    change putDevices (putPage s₄.mem q fun _ => 0) q x = _
    rw [putDevices_of_not_inPage hxq, putPage_of_not_mem hxq, hmem₄, putPage_of_not_mem hxq]
  have hwf := Space.empty_wellFormed hp hq hpq
  refine ⟨{ s₄ with mem := m₆ }, ?_, ⟨?_, ?_, hwf, ?_⟩, ?_, hframe₆, hsatp₄.trans hsatp₃⟩
  · rw [uvmCreate, Prog.bind_ok halloc, Option.elim_some, Prog.bind_ok hzero, Prog.get_bind,
      Prog.bind_ok hcopy, Prog.bind_ok halloc₄, Option.elim_some]
    rfl
  · refine hfree₄.frame rfl fun r hr x hx => ?_
    have hrp := hfree₄.page r hr
    have hxp := hp.not_inPage hrp (fun heq => hpl (heq ▸ hr)) hx
    have hxq := hq.not_inPage hrp (fun heq => hql (heq ▸ hr)) hx
    change m₆ x = s₄.mem x
    rw [hframe₆ x hxp hxq, hmem₄, putPage_of_not_mem hxq, hframe₃ x hxp]
  · constructor
    · intro i hpos hi
      change le64 (put64 m₅ (p + 8 * vpn2 0) (tableWord q)) (p + 8 * i) = _
      have hne : vpn2 0 ≠ i := Nat.ne_of_lt hpos
      rw [le64_put64_word hne, ← hsatp.root i hpos hi]
      refine le64_congr fun j hj => ?_
      have hout : ¬ InPage p (s.satp + (8 * i + j)) := by
        refine hp.not_inPage hsatp.isPage ?_ ⟨Nat.le_add_right _ _, by omega⟩
        rintro heq
        exact hsatp.notFree (heq ▸ List.mem_cons_self)
      rw [hroot₅ _ (InPage.word hi hj), Nat.add_assoc, Nat.add_assoc]
      exact hcopied (8 * i + j) (by omega) hout
    · change le64 (put64 m₅ p (tableWord q)) p = tableWord q
      exact le64_put64_self (tableWord_lt hq)
    · intro i hi
      change le64 (put64 m₅ (p + 8 * vpn2 0) (tableWord q)) (q + 8 * i) = _
      rw [le64_page_congr hi fun x hx =>
        put64_of_not_inPage (by decide) (hp.not_inPage hq hpq hx)]
      refine le64_putDevices (fun j hj => ?_) hi
      rw [le64_putPage hj]
      exact le64_eq_zero fun _ _ => rfl
    · intro i t ht
      cases ht
    · intro n u hu
      cases hu
  · intro part x hx hmem
    cases part with
    | root =>
        have hpage : x = p := hx
        exact hpl (hpage ▸ hmem)
    | low =>
        have hpage : x = q := hx
        exact hql (hpage ▸ hmem)
    | table i => cases hx
    | page n =>
        obtain ⟨_, hu, _⟩ := hx
        cases hu
  · intro x
    rw [List.mem_cons, List.mem_cons]
    constructor
    · rintro (hx | ⟨part, hx⟩)
      · exact Or.inr (Or.inr hx)
      · cases part with
        | root => exact Or.inl hx
        | low => exact Or.inr (Or.inl hx)
        | table i => cases hx
        | page n =>
            obtain ⟨_, hu, _⟩ := hx
            cases hu
    · rintro (rfl | rfl | hx)
      · exact Or.inr ⟨.root, rfl⟩
      · exact Or.inr ⟨.low, rfl⟩
      · exact Or.inl hx

end OsAgentLab
