/-
What `walk` reads, for every address that a program can pass: its own tables and the boot
table of the kernel, except where it takes a leaf for a table.
-/
import OsAgentLab.Vm.BootTable
import OsAgentLab.Vm.UserWrites

namespace OsAgentLab

variable {kt pt va n : Nat} {m : Nat → UInt8} {mm : Mm} {sp : Space}

section Loads

/-- The addresses of the words that the caller of `walk(pt, va, 0)` loads, with those that
`walk` loads itself. -/
def walkLoads (m : Nat → UInt8) (pt va : Nat) : List Nat :=
  let entry2 := pt + 8 * vpn2 va
  let entry1 := pte2pa (le64 m entry2) + 8 * vpn1 va
  let entry0 := pte2pa (le64 m entry1) + 8 * vpn0 va
  if le64 m entry2 &&& pteV = 0 then [entry2]
  else if le64 m entry1 &&& pteV = 0 then [entry2, entry1]
  else [entry2, entry1, entry0]

theorem walkLevel_run (mm : Mm) (pt idx : Nat) : walkLevel pt idx false mm =
    (.ok (if le64 mm.mem (pt + 8 * idx) &&& pteV = 0 then none
      else some (pte2pa (le64 mm.mem (pt + 8 * idx)))), mm) := by
  rw [walkLevel, load64_bind]
  by_cases hvalid : le64 mm.mem (pt + 8 * idx) &&& pteV = 0
  · rw [if_neg (not_not.mpr hvalid), if_pos hvalid, if_neg Bool.false_ne_true, Prog.pure_apply]
  · rw [if_pos hvalid, if_neg hvalid, Prog.pure_apply]

/-- An entry of the root table that is not valid ends the walk. -/
theorem userPa_root (h : le64 mm.mem (pt + 8 * vpn2 va) &&& pteV = 0) : userPa mm pt va = 0 := by
  have hwalk : walk pt va false mm = (.ok none, mm) := by
    rw [walk, Prog.bind_ok (walkLevel_run mm pt _), if_pos h, Option.elim_none, Prog.pure_apply]
  have hpte : walkPte pt va mm = (.ok none, mm) := by
    rw [walkPte, Prog.bind_ok hwalk, Option.elim_none, Prog.pure_apply]
  apply @userPa_of_run mm pt va _ mm
  rw [walkaddr, Prog.bind_ok hpte, Option.elim_none, Prog.pure_apply]

/-- So does one of the table behind it. -/
theorem userPa_second (h2 : le64 mm.mem (pt + 8 * vpn2 va) &&& pteV ≠ 0)
    (h1 : le64 mm.mem (pte2pa (le64 mm.mem (pt + 8 * vpn2 va)) + 8 * vpn1 va) &&& pteV = 0) :
    userPa mm pt va = 0 := by
  have hwalk : walk pt va false mm = (.ok none, mm) := by
    rw [walk, Prog.bind_ok (walkLevel_run mm pt _), if_neg h2, Option.elim_some,
      Prog.bind_ok (walkLevel_run mm _ _), if_pos h1, Option.elim_none, Prog.pure_apply]
  have hpte : walkPte pt va mm = (.ok none, mm) := by
    rw [walkPte, Prog.bind_ok hwalk, Option.elim_none, Prog.pure_apply]
  apply @userPa_of_run mm pt va _ mm
  rw [walkaddr, Prog.bind_ok hpte, Option.elim_none, Prog.pure_apply]

/-- The bits from 39 on are not looked at. -/
theorem userPa_mod (mm : Mm) (pt va : Nat) :
    userPa mm pt (va % 0x8000000000) = userPa mm pt va := by
  have h2 : vpn2 (va % 0x8000000000) = vpn2 va := by
    unfold vpn2
    omega
  have h1 : vpn1 (va % 0x8000000000) = vpn1 va := by
    unfold vpn1
    omega
  have h0 : vpn0 (va % 0x8000000000) = vpn0 va := by
    unfold vpn0
    omega
  have hoff : va % 0x8000000000 % pageSize = va % pageSize := by
    unfold pageSize
    omega
  have hwalk : walkPte pt (va % 0x8000000000) mm = walkPte pt va mm := by
    rw [walkPte, walkPte, walk, walk, h2, h1, h0]
  obtain ⟨found, hrun⟩ := walkPte_eq mm pt va
  rw [userPa, userPa, walkaddr, Prog.bind_ok (hwalk.trans hrun), walkaddr, Prog.bind_ok hrun, hoff]

end Loads

section Leaves

/-- A valid entry that maps memory. -/
def IsLeaf (pte : Nat) : Prop := pte &&& pteV ≠ 0 ∧ pte &&& (pteR ||| pteW ||| pteX) ≠ 0

instance (pte : Nat) : Decidable (IsLeaf pte) := inferInstanceAs (Decidable (_ ∧ _))

/-- `walk` goes on behind a leaf as if it were a table. -/
def MistakesLeaf (m : Nat → UInt8) (pt va : Nat) : Prop :=
  let pte2 := le64 m (pt + 8 * vpn2 va)
  IsLeaf pte2 ∨ pte2 &&& pteV ≠ 0 ∧ IsLeaf (le64 m (pte2pa pte2 + 8 * vpn1 va))

/-- An index of a device in the table of the low 1 GiB. -/
def IsDevice (i : Nat) : Prop := i = vpn1 clintBase ∨ i = vpn1 plicBase ∨ i = vpn1 uart0Base

/-- The addresses behind the leaves of 1 GiB, those at which the kernel is linked, and those of
the devices. -/
def LeafVa (va : Nat) : Prop :=
  vpn2 va = vpn2 dramBase ∨ vpn2 va = vpn2 pageOffset ∨
    vpn2 va = vpn2 kernelVirtBase ∧ vpn1 va < 32 ∨ vpn2 va = 0 ∧ IsDevice (vpn1 va)

/-- The page is a table of the address space, or the kernel's table. -/
def IsTable (kt pt : Nat) (sp : Space) (p : Nat) : Prop :=
  p = kt ∨ p = pt ∨ p = sp.low ∨ ∃ i, sp.table i = some p

theorem not_isLeaf_zero : ¬ IsLeaf 0 := fun h => h.1 (Nat.zero_and _)

theorem not_isLeaf_table {p : Nat} (hp : IsPage p) : ¬ IsLeaf (tableWord p) :=
  fun h => h.2 (tableWord_not_leaf hp)

theorem isLeaf_bootKernel (hn : n < 32) : IsLeaf (bootKernel n) := by
  have hall : ∀ k, k < 32 → IsLeaf (bootKernel k) := by decide
  exact hall n hn

/-- The words of the table of the low 1 GiB: devices, last-level tables, and nothing. -/
theorem Space.lowWord_cases (sp : Space) (i : Nat) :
    IsDevice i ∧ IsLeaf (sp.lowWord i) ∨
      ¬ IsDevice i ∧ (sp.table i = none ∧ sp.lowWord i = 0 ∨
        ∃ t, sp.table i = some t ∧ sp.lowWord i = tableWord t) := by
  unfold Space.lowWord
  by_cases hclint : i = vpn1 clintBase
  · rw [if_pos hclint]
    exact Or.inl ⟨Or.inl hclint, by decide⟩
  rw [if_neg hclint]
  by_cases hplic : i = vpn1 plicBase
  · rw [if_pos hplic]
    exact Or.inl ⟨Or.inr (Or.inl hplic), by decide⟩
  rw [if_neg hplic]
  by_cases huart : i = vpn1 uart0Base
  · rw [if_pos huart]
    exact Or.inl ⟨Or.inr (Or.inr huart), by decide⟩
  rw [if_neg huart]
  have hnone : ¬ IsDevice i := by
    rintro (h | h | h)
    · exact hclint h
    · exact hplic h
    · exact huart h
  cases ht : sp.table i with
  | none => exact Or.inr ⟨hnone, Or.inl ⟨rfl, rfl⟩⟩
  | some t => exact Or.inr ⟨hnone, Or.inr ⟨t, rfl, rfl⟩⟩

/-- How a walk goes: it finds a leaf above the last level or an empty entry, in the root table
or behind it, or it comes to a last-level table. -/
inductive WalkEnds (m : Nat → UInt8) (kt pt : Nat) (sp : Space) (va : Nat) : Prop
  | rootLeaf (hleaf : IsLeaf (le64 m (pt + 8 * vpn2 va))) (hva : LeafVa va)
  | rootEmpty (hzero : le64 m (pt + 8 * vpn2 va) = 0) (hva : ¬ LeafVa va)
  | leaf {p : Nat} (hpage : IsPage p) (hword : le64 m (pt + 8 * vpn2 va) = tableWord p)
      (hleaf : IsLeaf (le64 m (p + 8 * vpn1 va))) (hva : LeafVa va)
  | empty {p : Nat} (hpage : IsPage p) (hword : le64 m (pt + 8 * vpn2 va) = tableWord p)
      (htable : IsTable kt pt sp p) (hzero : le64 m (p + 8 * vpn1 va) = 0) (hva : ¬ LeafVa va)
  | table {t : Nat} (hlow : vpn2 va = 0) (hword : le64 m (pt + 8 * vpn2 va) = tableWord sp.low)
      (htable : sp.table (vpn1 va) = some t)
      (hword' : le64 m (sp.low + 8 * vpn1 va) = tableWord t) (hva : ¬ LeafVa va)

/-- Behind the first entry of the root table. -/
theorem walkEnds_low (hwf : sp.WellFormed pt) (h : sp.At pt kt m) (hlow : vpn2 va = 0) :
    WalkEnds m kt pt sp va := by
  have hroot : le64 m (pt + 8 * vpn2 va) = tableWord sp.low := by
    rw [hlow]
    exact h.rootLow
  have hpage : IsPage sp.low := hwf.isPage .low _ rfl
  have hword := h.lows (vpn1 va) (Nat.mod_lt _ (by decide))
  have hva : ∀ {P : Prop}, LeafVa va → (IsDevice (vpn1 va) → P) → P := by
    rintro P (h2 | h2 | ⟨h2, _⟩ | ⟨_, hdevice⟩) hP
    · rw [hlow] at h2
      cases h2
    · rw [hlow] at h2
      cases h2
    · rw [hlow] at h2
      cases h2
    · exact hP hdevice
  rcases sp.lowWord_cases (vpn1 va) with ⟨hdevice, hleaf⟩ | ⟨hdevice, hrest⟩
  · rw [← hword] at hleaf
    exact .leaf hpage hroot hleaf (Or.inr (Or.inr (Or.inr ⟨hlow, hdevice⟩)))
  have hnot : ¬ LeafVa va := fun hleaf => hva hleaf hdevice
  rcases hrest with ⟨_, hzero⟩ | ⟨t, ht, htable⟩
  · exact .empty hpage hroot (Or.inr (Or.inr (Or.inl rfl))) (hword.trans hzero) hnot
  · exact .table hlow hroot ht (hword.trans htable) hnot

/-- Every walk through the table of a process goes in one of these ways. -/
theorem walkEnds (hwf : sp.WellFormed pt) (h : sp.At pt kt m) (hkt : IsPage kt)
    (hkernel : ∀ i, i < 512 → le64 m (kt + 8 * i) = bootKernel i) (va : Nat) :
    WalkEnds m kt pt sp va := by
  by_cases hlow : vpn2 va = 0
  · exact walkEnds_low hwf h hlow
  have hroot := h.root (vpn2 va) (by omega) (Nat.mod_lt _ (by decide))
  have hlow' : ¬ vpn2 va = vpn2 0 := hlow
  rw [bootRoot, if_neg hlow'] at hroot
  by_cases hdram : vpn2 va = vpn2 dramBase
  · rw [if_pos (show vpn2 va = vpn2 0x80000000 from hdram)] at hroot
    refine .rootLeaf ?_ (Or.inl hdram)
    rw [hroot]
    decide
  rw [if_neg (show ¬ vpn2 va = vpn2 0x80000000 from hdram)] at hroot
  by_cases hoffset : vpn2 va = vpn2 pageOffset
  · rw [if_pos (show vpn2 va = vpn2 0xffffffc000000000 from hoffset)] at hroot
    refine .rootLeaf ?_ (Or.inr (Or.inl hoffset))
    rw [hroot]
    decide
  rw [if_neg (show ¬ vpn2 va = vpn2 0xffffffc000000000 from hoffset)] at hroot
  by_cases hkern : vpn2 va = vpn2 kernelVirtBase
  · rw [if_pos hkern] at hroot
    have hword := hkernel (vpn1 va) (Nat.mod_lt _ (by decide))
    by_cases hlt : vpn1 va < 32
    · refine .leaf hkt hroot ?_ (Or.inr (Or.inr (Or.inl ⟨hkern, hlt⟩)))
      rw [hword]
      exact isLeaf_bootKernel hlt
    · refine .empty hkt hroot (Or.inl rfl) (hword.trans (if_neg hlt)) ?_
      rintro (h2 | h2 | ⟨_, h2⟩ | ⟨h2, _⟩)
      · exact hdram h2
      · exact hoffset h2
      · exact hlt h2
      · exact hlow h2
  · rw [if_neg hkern] at hroot
    refine .rootEmpty hroot ?_
    rintro (h2 | h2 | ⟨h2, _⟩ | ⟨h2, _⟩)
    · exact hdram h2
    · exact hoffset h2
    · exact hkern h2
    · exact hlow h2

/-- `walk` takes a leaf for a table at these addresses, and at no others. -/
theorem WalkEnds.mistakes_iff (h : WalkEnds m kt pt sp va) (hwf : sp.WellFormed pt) :
    MistakesLeaf m pt va ↔ LeafVa va := by
  have hlowPage : IsPage sp.low := hwf.isPage .low _ rfl
  unfold MistakesLeaf
  dsimp only
  cases h with
  | rootLeaf hleaf hva => exact iff_of_true (Or.inl hleaf) hva
  | rootEmpty hzero hva =>
      refine iff_of_false ?_ hva
      rw [hzero]
      rintro (hleaf | ⟨hvalid, _⟩)
      · exact not_isLeaf_zero hleaf
      · exact hvalid (Nat.zero_and _)
  | leaf hpage hword hleaf hva =>
      refine iff_of_true (Or.inr ?_) hva
      rw [hword, pte2pa_tableWord hpage]
      exact ⟨tableWord_valid hpage, hleaf⟩
  | empty hpage hword htable hzero hva =>
      refine iff_of_false ?_ hva
      rw [hword, pte2pa_tableWord hpage, hzero]
      rintro (hleaf | ⟨_, hleaf⟩)
      · exact not_isLeaf_table hpage hleaf
      · exact not_isLeaf_zero hleaf
  | table hlow hword htable hword' hva =>
      refine iff_of_false ?_ hva
      rw [hword, pte2pa_tableWord hlowPage, hword']
      rintro (hleaf | ⟨_, hleaf⟩)
      · exact not_isLeaf_table hlowPage hleaf
      · exact not_isLeaf_table (hwf.isPage (.table _) _ htable) hleaf

/-- Elsewhere it reads tables only. -/
theorem WalkEnds.inside (h : WalkEnds m kt pt sp va) (hwf : sp.WellFormed pt) (hva : ¬ LeafVa va)
    {a : Nat} (ha : a ∈ walkLoads m pt va) :
    ∃ p j, IsTable kt pt sp p ∧ j < 512 ∧ a = p + 8 * j := by
  have hlt2 : vpn2 va < 512 := Nat.mod_lt _ (by decide)
  have hlt1 : vpn1 va < 512 := Nat.mod_lt _ (by decide)
  have hlt0 : vpn0 va < 512 := Nat.mod_lt _ (by decide)
  have hlowPage : IsPage sp.low := hwf.isPage .low _ rfl
  have hroot : IsTable kt pt sp pt := Or.inr (Or.inl rfl)
  unfold walkLoads at ha
  dsimp only at ha
  cases h with
  | rootLeaf _ hleaf => exact absurd hleaf hva
  | leaf _ _ _ hleaf => exact absurd hleaf hva
  | rootEmpty hzero _ =>
      rw [hzero, if_pos (Nat.zero_and _), List.mem_singleton] at ha
      exact ⟨pt, _, hroot, hlt2, ha⟩
  | empty hpage hword htable hzero _ =>
      rw [hword, if_neg (tableWord_valid hpage), pte2pa_tableWord hpage, hzero,
        if_pos (Nat.zero_and _), List.mem_pair] at ha
      rcases ha with ha | ha
      · exact ⟨pt, _, hroot, hlt2, ha⟩
      · exact ⟨_, _, htable, hlt1, ha⟩
  | table _ hword htable hword' _ =>
      have hpage := hwf.isPage (.table _) _ htable
      rw [hword, if_neg (tableWord_valid hlowPage), pte2pa_tableWord hlowPage, hword',
        if_neg (tableWord_valid hpage), pte2pa_tableWord hpage, List.mem_cons, List.mem_pair] at ha
      rcases ha with ha | ha | ha
      · exact ⟨pt, _, hroot, hlt2, ha⟩
      · exact ⟨sp.low, _, Or.inr (Or.inr (Or.inl rfl)), hlt1, ha⟩
      · exact ⟨_, _, Or.inr (Or.inr (Or.inr ⟨_, htable⟩)), hlt0, ha⟩

/-- And it finds user memory at low addresses only. -/
theorem WalkEnds.low (h : WalkEnds mm.mem kt pt sp va) (hwf : sp.WellFormed pt) (hva : ¬ LeafVa va)
    (hpa : userPa mm pt va ≠ 0) : va % 0x8000000000 < userLimit := by
  cases h with
  | rootLeaf _ hleaf => exact absurd hleaf hva
  | leaf _ _ _ hleaf => exact absurd hleaf hva
  | rootEmpty hzero _ =>
      refine absurd (userPa_root ?_) hpa
      rw [hzero, Nat.zero_and]
  | empty hpage hword htable hzero _ =>
      refine absurd (userPa_second ?_ ?_) hpa
      · rw [hword]
        exact tableWord_valid hpage
      · rw [hword, pte2pa_tableWord hpage, hzero, Nat.zero_and]
  | table hlow hword htable hword' _ =>
      have hlt := hwf.table_lt _ _ htable
      have hlimit : userLimit = 0x1400000 := rfl
      unfold vpn2 at hlow
      unfold vpn1 at hlt
      omega

/-- Behind a leaf of the kernel's table the last entry is a word of ordinary memory, and that
word decides. -/
theorem userPa_kernel (hkern : vpn2 va = vpn2 kernelVirtBase) (hlt : vpn1 va < 32)
    (h : sp.At pt kt mm.mem) (hkt : IsPage kt)
    (hkernel : ∀ i, i < 512 → le64 mm.mem (kt + 8 * i) = bootKernel i) {pte : Nat}
    (hpte : le64 mm.mem (kernelPhysBase + vpn1 va * sz2M + 8 * vpn0 va) = pte)
    (hvalid : pte &&& pteV ≠ 0) (huser : pte &&& pteU ≠ 0) :
    userPa mm pt va = u64 (pte2pa pte + va % pageSize) := by
  have hroot : le64 mm.mem (pt + 8 * vpn2 va) = tableWord kt := by
    rw [hkern]
    exact h.root _ (by decide) (by decide)
  have hpage : IsPage (kernelPhysBase + vpn1 va * sz2M) := by
    simp only [kernelPhysBase, sz2M]
    constructor
    · simp only [PageAligned]
      omega
    · omega
    · omega
  have hword := hkernel (vpn1 va) (Nat.mod_lt _ (by decide))
  have hleaf := isLeaf_bootKernel hlt
  rw [← hword] at hleaf
  rw [bootKernel, if_pos hlt] at hword
  have hnext : pte2pa (le64 mm.mem (kt + 8 * vpn1 va)) = kernelPhysBase + vpn1 va * sz2M := by
    rw [hword]
    exact pte2pa_or hpage (by decide)
  have hwalk : walk pt va false mm =
      (.ok (some (kernelPhysBase + vpn1 va * sz2M + 8 * vpn0 va)), mm) := by
    rw [walk, Prog.bind_ok (walkLevel_run mm pt _), hroot, if_neg (tableWord_valid hkt),
      Option.elim_some, pte2pa_tableWord hkt, Prog.bind_ok (walkLevel_run mm _ _),
      if_neg hleaf.1, hnext, Option.elim_some, Prog.pure_apply]
  have hfound : walkPte pt va mm =
      (.ok (some (kernelPhysBase + vpn1 va * sz2M + 8 * vpn0 va, pte)), mm) := by
    rw [walkPte, Prog.bind_ok hwalk, Option.elim_some, load64_bind, hpte, if_neg hvalid,
      Prog.pure_apply]
  apply @userPa_of_run mm pt va _ mm
  rw [walkaddr, Prog.bind_ok hfound, Option.elim_some, if_neg huser, Prog.pure_apply]

end Leaves

end OsAgentLab
