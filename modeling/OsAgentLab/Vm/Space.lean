/-
Address spaces: what the page table of a user process says, as a partial map
from page numbers to user pages, and the pages of physical memory that hold it.
-/
import Mathlib.Logic.Function.Basic
import OsAgentLab.Ownership
import OsAgentLab.Vm.FreeList

namespace OsAgentLab

/-- A page of user memory: where it lies, what the process may do with it, and
its contents. -/
structure UserPage where
  pa : Nat
  perm : Nat
  bytes : Nat → UInt8

/-- The part of a page table that belongs to one process: the table of the low
1 GiB, the last-level tables by their index in it, and the user pages by page
number. -/
structure Space where
  low : Nat
  table : Nat → Option Nat
  page : Nat → Option UserPage

/-- The roles in which an address space holds physical pages. -/
inductive Part where
  | root
  | low
  | table (i : Nat)
  | page (n : Nat)
deriving DecidableEq

/-- Word `i` of the root table that `boot_pagetable_init` fills in; `kernelTable`
is the address of `boot_pgtbl_l1_kernel`. -/
def bootRoot (kernelTable i : Nat) : Nat :=
  let flags := pteV ||| pteR ||| pteW ||| pteX ||| pteG ||| pteA ||| pteD
  if i = vpn2 0 then pteMake 0 flags
  else if i = vpn2 0x80000000 then pteMake 0x80000000 flags
  else if i = vpn2 0xffffffc000000000 then pteMake 0x80000000 flags
  else if i = vpn2 kernelVirtBase then pteMake kernelTable pteV
  else 0

namespace Space

variable (sp : Space) (pt : Nat)

/-- The physical pages of an address space with the root table `pt`. -/
def Has : Part → Nat → Prop
  | .root, p => p = pt
  | .low, p => p = sp.low
  | .table i, p => sp.table i = some p
  | .page n, p => ∃ u, sp.page n = some u ∧ u.pa = p

/-- Word `i` of the table of the low 1 GiB. -/
def lowWord (i : Nat) : Nat :=
  if i = vpn1 clintBase then pteMake clintBase mmioFlags
  else if i = vpn1 plicBase then pteMake plicBase mmioFlags
  else if i = vpn1 uart0Base then pteMake uart0Base mmioFlags
  else match sp.table i with
    | none => 0
    | some t => tableWord t

/-- The last-level entry of page `n`. -/
def entry (n : Nat) : Nat :=
  match sp.page n with
  | none => 0
  | some u => leafWord u.pa u.perm

/-- No page serves twice, and user pages lie below `USER_LIMIT`. -/
structure WellFormed : Prop where
  isPage : ∀ q p, sp.Has pt q p → IsPage p
  apart : Apart (sp.Has pt)
  table_lt : ∀ i t, sp.table i = some t → i < 10
  page_table : ∀ n u, sp.page n = some u → ∃ t, sp.table (n / 512) = some t
  perm : ∀ n u, sp.page n = some u → IsUserPerm u.perm

/-- The page table at `pt` in memory `m` describes the address space. -/
structure At (kernelTable : Nat) (m : Nat → UInt8) : Prop where
  root : ∀ i, 0 < i → i < 512 → le64 m (pt + 8 * i) = bootRoot kernelTable i
  rootLow : le64 m pt = tableWord sp.low
  lows : ∀ i, i < 512 → le64 m (sp.low + 8 * i) = sp.lowWord i
  entries : ∀ i t, sp.table i = some t → ∀ j, j < 512 →
    le64 m (t + 8 * j) = sp.entry (512 * i + j)
  bytes : ∀ n u, sp.page n = some u → ∀ i, i < 4096 → m (u.pa + i) = u.bytes i

/-- A new last-level table. -/
def withTable (i t : Nat) : Space := { sp with table := Function.update sp.table i (some t) }

/-- A new user page. -/
def withPage (n : Nat) (u : UserPage) : Space :=
  { sp with page := Function.update sp.page n (some u) }

/-- One user page less. -/
def withoutPage (n : Nat) : Space := { sp with page := Function.update sp.page n none }

variable {i j t n k : Nat} {u : UserPage}

theorem entry_none (h : sp.page n = none) : sp.entry n = 0 := by
  rw [entry, h]

theorem entry_some (h : sp.page n = some u) : sp.entry n = leafWord u.pa u.perm := by
  rw [entry, h]

@[simp] theorem withTable_self : (sp.withTable i t).table i = some t := Function.update_self ..

theorem withTable_of_ne (h : j ≠ i) : (sp.withTable i t).table j = sp.table j :=
  Function.update_of_ne h ..

@[simp] theorem withPage_self : (sp.withPage n u).page n = some u := Function.update_self ..

theorem withPage_of_ne (h : k ≠ n) : (sp.withPage n u).page k = sp.page k :=
  Function.update_of_ne h ..

@[simp] theorem withoutPage_self : (sp.withoutPage n).page n = none := Function.update_self ..

theorem withoutPage_of_ne (h : k ≠ n) : (sp.withoutPage n).page k = sp.page k :=
  Function.update_of_ne h ..

end Space

/-- The pages of an address space, and those of the free list beside it. -/
def LocalPage (pt : Nat) (sp : Space) (l : List Nat) (p : Nat) : Prop :=
  p ∈ l ∨ ∃ q, sp.Has pt q p

/-- The page table at `pt` describes the address space `sp`, and the free list,
which shares no page with it, holds the pages of `l`. -/
structure Held (kernelTable : Nat) (s : Mm) (pt : Nat) (sp : Space) (l : List Nat) : Prop where
  free : FreePages s l
  space : sp.At pt kernelTable s.mem
  wf : sp.WellFormed pt
  apart : ∀ q p, sp.Has pt q p → p ∉ l

/-- A change of an address space and the free list: no page gets lost or is
taken from elsewhere, and memory elsewhere keeps its contents. -/
structure SpaceStep (kernelTable : Nat) (s : Mm) (pt : Nat) (sp : Space) (l : List Nat)
    (s' : Mm) (sp' : Space) (l' : List Nat) : Prop where
  held : Held kernelTable s' pt sp' l'
  pages : ∀ p, LocalPage pt sp' l' p ↔ LocalPage pt sp l p
  frame : ∀ x, (∀ p, LocalPage pt sp l p → ¬ InPage p x) → s'.mem x = s.mem x
  satp : s'.satp = s.satp

variable {kt pt p : Nat} {s s' s'' : Mm} {sp sp' sp'' : Space} {l l' l'' : List Nat}
  {m m' : Nat → UInt8}

section Frames

/-- Address spaces do not notice what happens outside of their pages. -/
theorem Space.At.frame (h : sp.At pt kt m)
    (hmem : ∀ q p, sp.Has pt q p → ∀ x, InPage p x → m' x = m x) : sp.At pt kt m' where
  root i hpos hi := by
    rw [le64_page_congr hi (hmem .root pt rfl)]
    exact h.root i hpos hi
  rootLow := by
    have hword := le64_page_congr (i := 0) (by decide) (hmem .root pt rfl)
    exact hword.trans h.rootLow
  lows i hi := by
    rw [le64_page_congr hi (hmem .low sp.low rfl)]
    exact h.lows i hi
  entries i t ht j hj := by
    rw [le64_page_congr hj (hmem (.table i) t ht)]
    exact h.entries i t ht j hj
  bytes n u hu i hi := by
    rw [hmem (.page n) u.pa ⟨u, hu, rfl⟩ _ ⟨Nat.le_add_right _ _, by omega⟩]
    exact h.bytes n u hu i hi

theorem Held.isPage (h : Held kt s pt sp l) (hp : LocalPage pt sp l p) : IsPage p := by
  rcases hp with hp | ⟨q, hp⟩
  · exact h.free.page p hp
  · exact h.wf.isPage q p hp

/-- A write to a page that is neither free nor part of the address space. -/
theorem Held.frame (h : Held kt s pt sp l) (hhead : s'.freelist = s.freelist)
    (hmem : ∀ p, LocalPage pt sp l p → ∀ x, InPage p x → s'.mem x = s.mem x) :
    Held kt s' pt sp l where
  free := h.free.frame hhead fun p hp => hmem p (Or.inl hp)
  space := h.space.frame fun q p hp => hmem p (Or.inr ⟨q, hp⟩)
  wf := h.wf
  apart := h.apart

theorem SpaceStep.refl (h : Held kt s pt sp l) : SpaceStep kt s pt sp l s sp l :=
  ⟨h, fun _ => Iff.rfl, fun _ _ => rfl, rfl⟩

theorem SpaceStep.trans (h : SpaceStep kt s pt sp l s' sp' l')
    (h' : SpaceStep kt s' pt sp' l' s'' sp'' l'') : SpaceStep kt s pt sp l s'' sp'' l'' where
  held := h'.held
  pages p := (h'.pages p).trans (h.pages p)
  frame x hx := by
    rw [h'.frame x fun p hp => hx p ((h.pages p).mp hp)]
    exact h.frame x hx
  satp := h'.satp.trans h.satp

end Frames

section Walk

/-- Addresses whose last-level entries user tables hold, the ones below the
device mappings of the low 1 GiB. -/
def LowVa (va : Nat) : Prop := va < 0x2000000

theorem LowVa.vpn2 {va : Nat} (h : LowVa va) : vpn2 va = 0 := by
  unfold LowVa at h
  unfold OsAgentLab.vpn2
  omega

theorem LowVa.vpn1 {va : Nat} (h : LowVa va) : vpn1 va = va / 4096 / 512 := by
  unfold LowVa at h
  unfold OsAgentLab.vpn1
  omega

theorem LowVa.vpn1_lt {va : Nat} (h : LowVa va) : OsAgentLab.vpn1 va < 16 := by
  rw [h.vpn1]
  unfold LowVa at h
  omega

theorem vpn0_lt (va : Nat) : vpn0 va < 512 := Nat.mod_lt _ (by decide)

theorem LowVa.pageNumber {va : Nat} (h : LowVa va) :
    512 * OsAgentLab.vpn1 va + vpn0 va = va / 4096 := by
  rw [h.vpn1, vpn0]
  omega

theorem Space.lowWord_of_lt {i : Nat} (h : i < 16) :
    sp.lowWord i = match sp.table i with | none => 0 | some t => tableWord t := by
  have hclint : i ≠ OsAgentLab.vpn1 clintBase := Nat.ne_of_lt h
  have hplic : i ≠ OsAgentLab.vpn1 plicBase := Nat.ne_of_lt (Nat.lt_trans h (by decide))
  have huart : i ≠ OsAgentLab.vpn1 uart0Base := Nat.ne_of_lt (Nat.lt_trans h (by decide))
  rw [Space.lowWord, if_neg hclint, if_neg hplic, if_neg huart]

theorem load64_bind {α : Type} (a : Nat) (f : Nat → Vm α) (s : Mm) :
    (load64 a >>= f) s = f (le64 s.mem a) s := rfl

/-- A valid entry is followed. -/
theorem walkLevel_valid {t idx : Nat} (alloc : Bool) (ht : IsPage t)
    (hword : le64 s.mem (p + 8 * idx) = tableWord t) :
    walkLevel p idx alloc s = (.ok (some t), s) := by
  rw [walkLevel, load64_bind, hword, if_pos (tableWord_valid ht), pte2pa_tableWord ht,
    Prog.pure_apply]

/-- An empty entry ends a walk that may not create tables. -/
theorem walkLevel_empty {idx : Nat} (hword : le64 s.mem (p + 8 * idx) = 0) :
    walkLevel p idx false s = (.ok none, s) := by
  have hinvalid : ¬ 0 &&& pteV ≠ 0 := not_not.mpr (Nat.zero_and _)
  rw [walkLevel, load64_bind, hword, if_neg hinvalid, if_neg Bool.false_ne_true, Prog.pure_apply]

variable {va : Nat}

theorem walkLevel_root (hwf : sp.WellFormed pt) (h : sp.At pt kt s.mem) (hva : LowVa va)
    (alloc : Bool) : walkLevel pt (vpn2 va) alloc s = (.ok (some sp.low), s) := by
  rw [hva.vpn2]
  exact walkLevel_valid alloc (hwf.isPage .low _ rfl) h.rootLow

theorem walk_table (hwf : sp.WellFormed pt) (h : sp.At pt kt s.mem) (hva : LowVa va) {t : Nat}
    (ht : sp.table (vpn1 va) = some t) (alloc : Bool) :
    walk pt va alloc s = (.ok (some (t + 8 * vpn0 va)), s) := by
  have hword : le64 s.mem (sp.low + 8 * vpn1 va) = tableWord t := by
    rw [h.lows _ (Nat.lt_trans hva.vpn1_lt (by decide)), Space.lowWord_of_lt hva.vpn1_lt, ht]
  rw [walk, Prog.bind_ok (walkLevel_root hwf h hva alloc)]
  rw [Option.elim_some, Prog.bind_ok (walkLevel_valid alloc (hwf.isPage (.table _) t ht) hword), Option.elim_some,
    Prog.pure_apply]

theorem walk_noTable (hwf : sp.WellFormed pt) (h : sp.At pt kt s.mem) (hva : LowVa va)
    (ht : sp.table (vpn1 va) = none) : walk pt va false s = (.ok none, s) := by
  have hword : le64 s.mem (sp.low + 8 * vpn1 va) = 0 := by
    rw [h.lows _ (Nat.lt_trans hva.vpn1_lt (by decide)), Space.lowWord_of_lt hva.vpn1_lt, ht]
  rw [walk, Prog.bind_ok (walkLevel_root hwf h hva false)]
  rw [Option.elim_some, Prog.bind_ok (walkLevel_empty hword), Option.elim_none, Prog.pure_apply]

theorem Space.At.entry_of_table (h : sp.At pt kt m) (hva : LowVa va) {t : Nat}
    (ht : sp.table (vpn1 va) = some t) :
    le64 m (t + 8 * vpn0 va) = sp.entry (va / 4096) := by
  rw [h.entries _ t ht _ (vpn0_lt va), hva.pageNumber]

/-- The walk finds the user page of an address. -/
theorem walkPte_some (hwf : sp.WellFormed pt) (h : sp.At pt kt s.mem) (hva : LowVa va)
    {u : UserPage} (hu : sp.page (va / 4096) = some u) :
    ∃ t, sp.table (vpn1 va) = some t ∧
      walkPte pt va s = (.ok (some (t + 8 * vpn0 va, leafWord u.pa u.perm)), s) := by
  obtain ⟨t, ht⟩ := hwf.page_table _ u hu
  rw [← hva.vpn1] at ht
  have hpage : IsPage u.pa := hwf.isPage (.page _) _ ⟨u, hu, rfl⟩
  have hword : le64 s.mem (t + 8 * vpn0 va) = leafWord u.pa u.perm := by
    rw [h.entry_of_table hva ht, Space.entry_some _ hu]
  refine ⟨t, ht, ?_⟩
  rw [walkPte, Prog.bind_ok (walk_table hwf h hva ht false), Option.elim_some, load64_bind, hword,
    if_neg (leafWord_valid hpage (hwf.perm _ u hu)), Prog.pure_apply]

/-- The walk finds nothing where there is no user page. -/
theorem walkPte_none (hwf : sp.WellFormed pt) (h : sp.At pt kt s.mem) (hva : LowVa va)
    (hu : sp.page (va / 4096) = none) : walkPte pt va s = (.ok none, s) := by
  cases ht : sp.table (vpn1 va) with
  | none =>
      rw [walkPte, Prog.bind_ok (walk_noTable hwf h hva ht), Option.elim_none, Prog.pure_apply]
  | some t =>
      have hword : le64 s.mem (t + 8 * vpn0 va) = 0 := by
        rw [h.entry_of_table hva ht, Space.entry_none _ hu]
      rw [walkPte, Prog.bind_ok (walk_table hwf h hva ht false), Option.elim_some, load64_bind,
        hword, if_pos (Nat.zero_and _), Prog.pure_apply]

end Walk

end OsAgentLab
