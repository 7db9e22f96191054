/-
The translation that a page table stands for, with leaves of every size, as the memory
unit carries it out; `walk` of `vm.c` follows it where all leaves are pages.
-/
import OsAgentLab.Vm.PageTable

namespace OsAgentLab

/-- The entry at which a translation ends. -/
structure Sv39Leaf where
  entry : Nat
  pte : Nat
  level : Nat
deriving DecidableEq, Repr

/-- The entry of `va` in a table of the given level. -/
def sv39Entry (level table va : Nat) : Nat := table + 8 * (va / 4096 / 512 ^ level % 512)

/-- The leaf of `va`, from a table of the given level on. -/
def sv39Leaf (m : Nat → UInt8) (va : Nat) : Nat → Nat → Option Sv39Leaf
  | 0, table =>
      let pte := le64 m (sv39Entry 0 table va)
      if pte &&& pteV = 0 then none else some ⟨sv39Entry 0 table va, pte, 0⟩
  | level + 1, table =>
      let pte := le64 m (sv39Entry (level + 1) table va)
      if pte &&& pteV = 0 then none
      else if pte &&& (pteR ||| pteW ||| pteX) ≠ 0 then
        some ⟨sv39Entry (level + 1) table va, pte, level + 1⟩
      else sv39Leaf m va level (pte2pa pte)

/-- The physical address of `va`, in a leaf of 4 KiB, 2 MiB or 1 GiB. -/
def Sv39Leaf.pa (leaf : Sv39Leaf) (va : Nat) : Nat :=
  pte2pa leaf.pte + va % (4096 * 512 ^ leaf.level)

/-- The entries that the translation of `va` looks at. -/
def sv39Entries (m : Nat → UInt8) (va : Nat) : Nat → Nat → List Nat
  | 0, table => [sv39Entry 0 table va]
  | level + 1, table =>
      sv39Entry (level + 1) table va ::
        sv39Entries m va level (pte2pa (le64 m (sv39Entry (level + 1) table va)))

/-- The upper bits of an address repeat bit 38. -/
def Sv39Canonical (va : Nat) : Prop :=
  va < 274877906944 ∨ (18446743798831644672 ≤ va ∧ va < 18446744073709551616)

/-- The kernel can store at `va`, and does so at the same physical address. -/
def IdentityWritable (m : Nat → UInt8) (root va : Nat) : Prop :=
  Sv39Canonical va ∧ ∃ leaf, sv39Leaf m va 2 root = some leaf ∧ leaf.pa va = va ∧
    leaf.pte &&& (pteW ||| pteU ||| pteA ||| pteD) = pteW ||| pteA ||| pteD

variable {m m' : Nat → UInt8} {va va' level table : Nat}

theorem sv39Entry_two (va : Nat) : sv39Entry 2 table va = table + 8 * vpn2 va := by
  have hsize : 4096 * 512 ^ 2 = 1073741824 := rfl
  rw [sv39Entry, vpn2, Nat.div_div_eq_div_mul, hsize]

theorem sv39Entry_one (va : Nat) : sv39Entry 1 table va = table + 8 * vpn1 va := by
  have hsize : 4096 * 512 ^ 1 = 2097152 := rfl
  rw [sv39Entry, vpn1, Nat.div_div_eq_div_mul, hsize]

theorem sv39Entry_zero (va : Nat) : sv39Entry 0 table va = table + 8 * vpn0 va := by
  rw [sv39Entry, vpn0, Nat.pow_zero, Nat.div_one]

theorem sv39Leaf_invalid (h : le64 m (sv39Entry level table va) &&& pteV = 0) :
    sv39Leaf m va level table = none := by
  cases level with
  | zero => exact if_pos h
  | succ level => exact if_pos h

theorem sv39Leaf_page (h : le64 m (sv39Entry 0 table va) &&& pteV ≠ 0) :
    sv39Leaf m va 0 table = some ⟨sv39Entry 0 table va, le64 m (sv39Entry 0 table va), 0⟩ :=
  if_neg h

theorem sv39Leaf_super (h : le64 m (sv39Entry (level + 1) table va) &&& pteV ≠ 0)
    (hleaf : le64 m (sv39Entry (level + 1) table va) &&& (pteR ||| pteW ||| pteX) ≠ 0) :
    sv39Leaf m va (level + 1) table = some ⟨sv39Entry (level + 1) table va,
      le64 m (sv39Entry (level + 1) table va), level + 1⟩ :=
  (if_neg h).trans (if_pos hleaf)

theorem sv39Leaf_table (h : le64 m (sv39Entry (level + 1) table va) &&& pteV ≠ 0)
    (hleaf : le64 m (sv39Entry (level + 1) table va) &&& (pteR ||| pteW ||| pteX) = 0) :
    sv39Leaf m va (level + 1) table =
      sv39Leaf m va level (pte2pa (le64 m (sv39Entry (level + 1) table va))) :=
  (if_neg h).trans (if_neg (not_not.mpr hleaf))

/-- Where the leaf is a page, a valid entry of a table leads to the next table. -/
theorem sv39Leaf_of_pages (h : le64 m (sv39Entry (level + 1) table va) &&& pteV ≠ 0)
    (hpages : ∀ leaf, sv39Leaf m va (level + 1) table = some leaf → leaf.level = 0) :
    sv39Leaf m va (level + 1) table =
      sv39Leaf m va level (pte2pa (le64 m (sv39Entry (level + 1) table va))) := by
  by_cases hleaf : le64 m (sv39Entry (level + 1) table va) &&& (pteR ||| pteW ||| pteX) = 0
  · exact sv39Leaf_table h hleaf
  · have hlevel := hpages _ (sv39Leaf_super h hleaf)
    cases hlevel

theorem sv39Entry_page (h : va / 4096 = va' / 4096) :
    sv39Entry level table va = sv39Entry level table va' := by
  rw [sv39Entry, sv39Entry, h]

/-- Addresses in one page have the same leaf. -/
theorem sv39Leaf_page_congr (h : va / 4096 = va' / 4096) :
    sv39Leaf m va level table = sv39Leaf m va' level table := by
  induction level generalizing table with
  | zero => rw [sv39Leaf, sv39Leaf, sv39Entry_page h]
  | succ level ih =>
      rw [sv39Leaf, sv39Leaf, sv39Entry_page h]
      simp only [ih]

/-- Memory in which the entries that are looked at have not changed. -/
def SameEntries (m m' : Nat → UInt8) (va level table : Nat) : Prop :=
  ∀ e ∈ sv39Entries m va level table, ∀ b, b < 8 → m' (e + b) = m (e + b)

theorem SameEntries.word (h : SameEntries m m' va level table) :
    le64 m' (sv39Entry level table va) = le64 m (sv39Entry level table va) := by
  apply le64_congr
  intro b hb
  apply h _ _ b hb
  cases level with
  | zero => exact List.mem_cons_self
  | succ level => exact List.mem_cons_self

theorem SameEntries.next (h : SameEntries m m' va (level + 1) table) :
    SameEntries m m' va level (pte2pa (le64 m (sv39Entry (level + 1) table va))) :=
  fun e he => h e (List.mem_cons_of_mem _ he)

/-- The leaf depends on the entries that are looked at only. -/
theorem SameEntries.leaf_eq (h : SameEntries m m' va level table) :
    sv39Leaf m' va level table = sv39Leaf m va level table := by
  induction level generalizing table with
  | zero => rw [sv39Leaf, sv39Leaf, h.word]
  | succ level ih =>
      rw [sv39Leaf, sv39Leaf, h.word]
      simp only [ih h.next]

end OsAgentLab
