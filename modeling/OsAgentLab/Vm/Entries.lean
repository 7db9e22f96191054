/-
Entries of page tables taken apart: what `PTE2PA` and the flag tests find in the
words that `walk`, `uvm_map` and `uvm_create` store.
-/
import OsAgentLab.Vm.PageTable

namespace OsAgentLab

/-- The address of a page that the kernel can hand out. -/
structure IsPage (p : Nat) : Prop where
  aligned : PageAligned p
  pos : 0 < p
  lt : p < 18446744073709551616

/-- The permissions of a user page: a choice of R, W and X, and U. -/
structure IsUserPerm (perm : Nat) : Prop where
  low : 16 ≤ perm
  high : perm < 32
  even : perm % 2 = 0

/-- The entry of a user page. -/
def leafWord (pa perm : Nat) : Nat := pa2pte pa ||| perm ||| pteV

/-- The entry of a table. -/
def tableWord (pa : Nat) : Nat := pa2pte pa ||| pteV

section Words

variable {pa perm flags mask : Nat}

theorem pa2pte_eq (hpa : pa < 18446744073709551616) : pa2pte pa = 2 ^ 10 * (pa / 4096) := by
  rw [pa2pte, Nat.shiftRight_eq_div_pow, Nat.shiftLeft_eq]
  rw [u64_of_lt (by omega)]
  omega

/-- The flags of an entry stand below its page number. -/
theorem pa2pte_or (hpa : pa < 18446744073709551616) (hflags : flags < 1024) :
    pa2pte pa ||| flags = 2 ^ 10 * (pa / 4096) + flags := by
  rw [pa2pte_eq hpa]
  exact (Nat.two_pow_add_eq_or_of_lt hflags (pa / 4096)).symm

theorem pte2pa_or (hpa : IsPage pa) (hflags : flags < 1024) :
    pte2pa (pa2pte pa ||| flags) = pa := by
  have haligned := hpa.aligned
  have hlt := hpa.lt
  unfold PageAligned at haligned
  rw [pa2pte_or hlt hflags, pte2pa, Nat.shiftRight_eq_div_pow, Nat.shiftLeft_eq]
  have hdiv : (2 ^ 10 * (pa / 4096) + flags) / 2 ^ 10 * 2 ^ 12 = pa := by omega
  rw [hdiv, u64_of_lt hlt]

theorem pa2pte_or_lt (hpa : pa < 18446744073709551616) (hflags : flags < 1024) :
    pa2pte pa ||| flags < 18446744073709551616 := by
  rw [pa2pte_or hpa hflags]
  omega

/-- Tests of the flag bits see the flags only. -/
theorem pa2pte_or_and (hpa : pa < 18446744073709551616) (hmask : mask < 1024) :
    (pa2pte pa ||| flags) &&& mask = flags &&& mask := by
  have hnone : pa2pte pa &&& mask = 0 := by
    rw [pa2pte_eq hpa]
    apply Nat.eq_of_testBit_eq
    intro i
    rw [Nat.testBit_and, Nat.testBit_two_pow_mul, Nat.zero_testBit]
    by_cases hi : 10 ≤ i
    · have hbit : mask.testBit i = false :=
        Nat.testBit_lt_two_pow (Nat.lt_of_lt_of_le hmask (Nat.pow_le_pow_right (n := 2) (by decide) hi))
      rw [hbit, Bool.and_false]
    · simp [hi]
  rw [Nat.and_or_distrib_right, hnone, Nat.zero_or]

end Words

section Leaves

variable {pa perm : Nat}

theorem IsUserPerm.cases {motive : Nat → Prop} (h : IsUserPerm perm)
    (hall : ∀ k, k < 8 → motive (16 + 2 * k)) : motive perm := by
  have hlow := h.low
  have hhigh := h.high
  have heven := h.even
  have heq : perm = 16 + 2 * ((perm - 16) / 2) := by omega
  rw [heq]
  exact hall _ (by omega)

theorem IsUserPerm.flags_lt (h : IsUserPerm perm) : perm ||| pteV < 1024 :=
  @IsUserPerm.cases perm (fun q => q ||| pteV < 1024) h (by decide)

theorem leafWord_lt (hpa : IsPage pa) (h : IsUserPerm perm) :
    leafWord pa perm < 18446744073709551616 := by
  rw [leafWord, Nat.or_assoc]
  exact pa2pte_or_lt hpa.lt h.flags_lt

theorem leafWord_valid (hpa : IsPage pa) (h : IsUserPerm perm) :
    leafWord pa perm &&& pteV ≠ 0 := by
  rw [leafWord, Nat.or_assoc, pa2pte_or_and hpa.lt (by decide)]
  exact @IsUserPerm.cases perm (fun q => (q ||| pteV) &&& pteV ≠ 0) h (by decide)

theorem leafWord_user (hpa : IsPage pa) (h : IsUserPerm perm) :
    leafWord pa perm &&& pteU ≠ 0 := by
  rw [leafWord, Nat.or_assoc, pa2pte_or_and hpa.lt (by decide)]
  exact @IsUserPerm.cases perm (fun q => (q ||| pteV) &&& pteU ≠ 0) h (by decide)

theorem leafWord_perm (hpa : IsPage pa) (h : IsUserPerm perm) :
    leafWord pa perm &&& (pteR ||| pteW ||| pteX ||| pteU) = perm := by
  rw [leafWord, Nat.or_assoc, pa2pte_or_and hpa.lt (by decide)]
  exact @IsUserPerm.cases perm
    (fun q => (q ||| pteV) &&& (pteR ||| pteW ||| pteX ||| pteU) = q) h (by decide)

theorem pte2pa_leafWord (hpa : IsPage pa) (h : IsUserPerm perm) :
    pte2pa (leafWord pa perm) = pa := by
  rw [leafWord, Nat.or_assoc]
  exact pte2pa_or hpa h.flags_lt

end Leaves

section Tables

variable {pa : Nat}

theorem tableWord_lt (hpa : IsPage pa) : tableWord pa < 18446744073709551616 :=
  pa2pte_or_lt hpa.lt (by decide)

theorem tableWord_valid (hpa : IsPage pa) : tableWord pa &&& pteV ≠ 0 := by
  rw [tableWord, pa2pte_or_and hpa.lt (by decide)]
  decide

theorem tableWord_not_leaf (hpa : IsPage pa) :
    tableWord pa &&& (pteR ||| pteW ||| pteX) = 0 := by
  rw [tableWord, pa2pte_or_and hpa.lt (by decide)]
  decide

theorem pte2pa_tableWord (hpa : IsPage pa) : pte2pa (tableWord pa) = pa :=
  pte2pa_or hpa (by decide)

end Tables

end OsAgentLab
