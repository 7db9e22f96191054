/-
`boot_pagetable_init`: the page table with which the kernel starts, and the addresses
that it maps to themselves.
-/
import OsAgentLab.Vm.Sv39
import OsAgentLab.Vm.Space

namespace OsAgentLab

/-- `DRAM_BASE`, `KERNEL_PHYS_BASE`, `PAGE_OFFSET`, `SZ_2M` and `BOOT_KMAP_SIZE`. -/
def dramBase : Nat := 0x80000000
def kernelPhysBase : Nat := 0x80200000
def pageOffset : Nat := 0xffffffc000000000
def sz2M : Nat := 0x200000
def bootKmapSize : Nat := 0x4000000

/-- `flags` in `boot_pagetable_init`. -/
def bootFlags : Nat := pteV ||| pteR ||| pteW ||| pteX ||| pteG ||| pteA ||| pteD

/-- `boot_pagetable_init`; `l0` and `l1` are the addresses of its two tables. -/
def bootPagetableInit (l0 l1 : Nat) : Vm Nat := do
  Prog.forCount (fun i => do
    store64 (l0 + 8 * i) 0
    store64 (l1 + 8 * i) 0) 512 0
  store64 (l0 + 8 * vpn2 0) (pteMake 0 bootFlags)
  store64 (l0 + 8 * vpn2 dramBase) (pteMake dramBase bootFlags)
  store64 (l0 + 8 * vpn2 pageOffset) (pteMake dramBase bootFlags)
  store64 (l0 + 8 * vpn2 kernelVirtBase) (pteMake l1 pteV)
  Prog.forCount (fun n =>
    store64 (l1 + 8 * vpn1 (kernelVirtBase + n * sz2M))
      (pteMake (kernelPhysBase + n * sz2M) bootFlags)) (bootKmapSize / sz2M) 0
  pure l0

/-- Word `i` of `boot_pgtbl_l1_kernel`. -/
def bootKernel (i : Nat) : Nat :=
  if i < 32 then pteMake (kernelPhysBase + i * sz2M) bootFlags else 0

/-- Both tables are pages, and lie apart. -/
structure BootTables (l0 l1 : Nat) : Prop where
  root : IsPage l0
  kernel : IsPage l1
  ne : l0 ≠ l1

variable {l0 l1 va : Nat} {s : Mm} {m : Nat → UInt8}

theorem BootTables.apart (h : BootTables l0 l1) : l0 + 4096 ≤ l1 ∨ l1 + 4096 ≤ l0 := by
  have hroot := h.root.aligned
  have hkernel := h.kernel.aligned
  have hne := h.ne
  simp only [PageAligned] at hroot hkernel
  omega

/-- The tables that are filled in. -/
structure BootFilled (l0 l1 : Nat) (m : Nat → UInt8) : Prop where
  root : ∀ i, i < 512 → le64 m (l0 + 8 * i) = bootRoot l1 i
  kernel : ∀ i, i < 512 → le64 m (l1 + 8 * i) = bootKernel i

section Fill

theorem store64_bind {α : Type} (a w : Nat) (f : Unit → Vm α) (s : Mm) :
    (store64 a w >>= f) s = f () { s with mem := put64 s.mem a w } := rfl

/-- The first loop clears both tables. -/
theorem bootPagetableInit_clear (h : BootTables l0 l1) (s : Mm) :
    ∃ s', Prog.forCount (ε := Errno) (fun i => do
        store64 (l0 + 8 * i) 0
        store64 (l1 + 8 * i) 0) 512 0 s = (.ok (), s') ∧ s'.freelist = s.freelist ∧
      (∀ i, i < 512 → le64 s'.mem (l0 + 8 * i) = 0) ∧
      ∀ i, i < 512 → le64 s'.mem (l1 + 8 * i) = 0 := by
  have hapart := h.apart
  obtain ⟨s', hrun, hlist, hroot, hkernel⟩ := Prog.forCount_inv (ε := Errno)
    (fun i => do
      store64 (l0 + 8 * i) 0
      store64 (l1 + 8 * i) 0)
    (fun n s' => s'.freelist = s.freelist ∧ (∀ i, i < n → le64 s'.mem (l0 + 8 * i) = 0) ∧
      ∀ i, i < n → le64 s'.mem (l1 + 8 * i) = 0) 512 0 s
    ⟨rfl, fun _ hi => absurd hi (Nat.not_lt_zero _), fun _ hi => absurd hi (Nat.not_lt_zero _)⟩
    fun n s' _ hn hinv => by
      refine ⟨{ s' with mem := put64 (put64 s'.mem (l0 + 8 * n) 0) (l1 + 8 * n) 0 }, rfl,
        hinv.1, fun i hi => ?_, fun i hi => ?_⟩
      · rw [le64_put64_of_apart (by omega)]
        by_cases hlast : i = n
        · rw [hlast, le64_put64_self (by decide)]
        · rw [le64_put64_word (Ne.symm hlast)]
          exact hinv.2.1 i (by omega)
      · by_cases hlast : i = n
        · rw [hlast, le64_put64_self (by decide)]
        · rw [le64_put64_word (Ne.symm hlast), le64_put64_of_apart (by omega)]
          exact hinv.2.2 i (by omega)
  exact ⟨s', hrun, hlist, fun i hi => hroot i (by omega), fun i hi => hkernel i (by omega)⟩

/-- The words of the root table behind its four stores. -/
theorem bootRoot_stores (h : BootTables l0 l1) (hzero : ∀ i, i < 512 → le64 m (l0 + 8 * i) = 0)
    {i : Nat} (hi : i < 512) :
    le64 (put64 (put64 (put64 (put64 m (l0 + 8 * vpn2 0) (pteMake 0 bootFlags))
      (l0 + 8 * vpn2 dramBase) (pteMake dramBase bootFlags))
      (l0 + 8 * vpn2 pageOffset) (pteMake dramBase bootFlags))
      (l0 + 8 * vpn2 kernelVirtBase) (pteMake l1 pteV)) (l0 + 8 * i) = bootRoot l1 i := by
  have hword : pteMake l1 pteV < 18446744073709551616 := tableWord_lt h.kernel
  by_cases hkernel : i = vpn2 kernelVirtBase
  · subst hkernel
    rw [le64_put64_self hword]
    rfl
  rw [le64_put64_word (Ne.symm hkernel)]
  by_cases hoffset : i = vpn2 pageOffset
  · subst hoffset
    rw [le64_put64_self (by decide)]
    rfl
  rw [le64_put64_word (Ne.symm hoffset)]
  by_cases hdram : i = vpn2 dramBase
  · subst hdram
    rw [le64_put64_self (by decide)]
    rfl
  rw [le64_put64_word (Ne.symm hdram)]
  by_cases hlow : i = vpn2 0
  · subst hlow
    rw [le64_put64_self (by decide)]
    rfl
  rw [le64_put64_word (Ne.symm hlow), hzero i hi, bootRoot]
  exact ((if_neg hlow).trans ((if_neg hdram).trans ((if_neg hoffset).trans (if_neg hkernel)))).symm

theorem vpn1_kernel {n : Nat} (hn : n < 32) : vpn1 (kernelVirtBase + n * sz2M) = n := by
  simp only [vpn1, kernelVirtBase, sz2M]
  omega

theorem pteMake_kernel_lt {n : Nat} (hn : n < 32) :
    pteMake (kernelPhysBase + n * sz2M) bootFlags < 18446744073709551616 := by
  have hpa : kernelPhysBase + n * sz2M < 18446744073709551616 := by
    simp only [kernelPhysBase, sz2M]
    omega
  exact pa2pte_or_lt hpa (by decide)

/-- The tables hold what they should, and no page has become free. -/
theorem bootPagetableInit_filled (h : BootTables l0 l1) (s : Mm) :
    ∃ s', bootPagetableInit l0 l1 s = (.ok l0, s') ∧ s'.freelist = s.freelist ∧
      BootFilled l0 l1 s'.mem := by
  have hapart := h.apart
  obtain ⟨s₁, hclear, hlist, hroot, hkernel⟩ := bootPagetableInit_clear h s
  let m₂ := put64 (put64 (put64 (put64 s₁.mem (l0 + 8 * vpn2 0) (pteMake 0 bootFlags))
      (l0 + 8 * vpn2 dramBase) (pteMake dramBase bootFlags))
      (l0 + 8 * vpn2 pageOffset) (pteMake dramBase bootFlags))
      (l0 + 8 * vpn2 kernelVirtBase) (pteMake l1 pteV)
  have hroot₂ : ∀ i, i < 512 → le64 m₂ (l0 + 8 * i) = bootRoot l1 i := fun i hi =>
    bootRoot_stores h hroot hi
  have hkernel₂ : ∀ i, i < 512 → le64 m₂ (l1 + 8 * i) = 0 := by
    intro i hi
    have hlow : ∀ va, vpn2 va < 512 := fun va => Nat.mod_lt _ (by decide)
    have h₁ := hlow 0
    have h₂ := hlow dramBase
    have h₃ := hlow pageOffset
    have h₄ := hlow kernelVirtBase
    rw [le64_put64_of_apart (by omega), le64_put64_of_apart (by omega),
      le64_put64_of_apart (by omega), le64_put64_of_apart (by omega)]
    exact hkernel i hi
  obtain ⟨s₃, hrun, hlist₃, hroot₃, hkernel₃⟩ := Prog.forCount_inv (ε := Errno)
    (fun n => store64 (l1 + 8 * vpn1 (kernelVirtBase + n * sz2M))
      (pteMake (kernelPhysBase + n * sz2M) bootFlags))
    (fun n s' => s'.freelist = s.freelist ∧
      (∀ i, i < 512 → le64 s'.mem (l0 + 8 * i) = bootRoot l1 i) ∧
      ∀ i, i < 512 → le64 s'.mem (l1 + 8 * i) = if i < n then bootKernel i else 0)
    (bootKmapSize / sz2M) 0 { s₁ with mem := m₂ } ⟨hlist, hroot₂, hkernel₂⟩
    fun n s' _ hn hinv => by
      have hn : n < 32 := by
        rwa [Nat.zero_add, show bootKmapSize / sz2M = 32 from by decide] at hn
      refine ⟨_, rfl, hinv.1, fun i hi => ?_, fun i hi => ?_⟩
      · change le64 (put64 _ _ _) _ = _
        rw [vpn1_kernel hn, le64_put64_of_apart (by omega)]
        exact hinv.2.1 i hi
      · change le64 (put64 _ _ _) _ = _
        rw [vpn1_kernel hn]
        by_cases hlast : i = n
        · rw [hlast, le64_put64_self (pteMake_kernel_lt hn), if_pos (Nat.lt_succ_self n),
            bootKernel, if_pos hn]
        · rw [le64_put64_word (Ne.symm hlast), hinv.2.2 i hi]
          by_cases hlt : i < n
          · rw [if_pos hlt, if_pos (by omega)]
          · rw [if_neg hlt, if_neg (by omega)]
  refine ⟨s₃, ?_, hlist₃, hroot₃, fun i hi => ?_⟩
  · rw [bootPagetableInit, Prog.bind_ok hclear, store64_bind, store64_bind, store64_bind,
      store64_bind, Prog.bind_ok hrun, Prog.pure_apply]
  · rw [hkernel₃ i hi, Nat.zero_add, show bootKmapSize / sz2M = 32 from by decide]
    by_cases hlt : i < 32
    · rw [if_pos hlt]
    · rw [if_neg hlt, bootKernel, if_neg hlt]

end Fill

section Identity

/-- The addresses that the boot table maps to themselves: the low 1 GiB and the 1 GiB from
`DRAM_BASE` on. -/
def BootMapped (va : Nat) : Prop := va < 0x40000000 ∨ (dramBase ≤ va ∧ va < 0xc0000000)

instance (va : Nat) : Decidable (BootMapped va) := inferInstanceAs (Decidable (_ ∨ _))

/-- The leaf of an address in one of the three entries of 1 GiB. -/
theorem boot_leaf (hm : BootFilled l0 l1 m) {pte : Nat} (hpte : bootRoot l1 (vpn2 va) = pte) (hvalid : pte &&& pteV ≠ 0)
    (hleaf : pte &&& (pteR ||| pteW ||| pteX) ≠ 0) :
    sv39Leaf m va 2 l0 = some ⟨l0 + 8 * vpn2 va, pte, 2⟩ := by
  have hword := hm.root (vpn2 va) (Nat.mod_lt _ (by decide))
  rw [hpte, ← sv39Entry_two] at hword
  rw [sv39Leaf_super (by rwa [hword]) (by rwa [hword]), hword, sv39Entry_two]

/-- A leaf behind the entry of the kernel maps into the first 4 GiB. -/
theorem boot_kernel_leaf (h : BootTables l0 l1) (hm : BootFilled l0 l1 m) {leaf : Sv39Leaf} (hvpn : vpn2 va = vpn2 kernelVirtBase)
    (hleaf : sv39Leaf m va 2 l0 = some leaf) : leaf.pa va < 0x100000000 := by
  have hroot := hm.root (vpn2 va) (Nat.mod_lt _ (by decide))
  rw [hvpn, show bootRoot l1 (vpn2 kernelVirtBase) = tableWord l1 from rfl, ← hvpn,
    ← sv39Entry_two] at hroot
  rw [sv39Leaf_table (by rw [hroot]; exact tableWord_valid h.kernel)
    (by rw [hroot]; exact tableWord_not_leaf h.kernel), hroot, pte2pa_tableWord h.kernel] at hleaf
  have hword := hm.kernel (vpn1 va) (Nat.mod_lt _ (by decide))
  rw [← sv39Entry_one] at hword
  by_cases hn : vpn1 va < 32
  · have hpage : IsPage (kernelPhysBase + vpn1 va * sz2M) := by
      simp only [kernelPhysBase, sz2M]
      constructor
      · simp only [PageAligned]
        omega
      · omega
      · omega
    rw [bootKernel, if_pos hn] at hword
    have hand : ∀ mask, mask < 1024 →
        le64 m (sv39Entry 1 l1 va) &&& mask = bootFlags &&& mask := fun mask hmask => by
      rw [hword]
      exact pa2pte_or_and hpage.lt hmask
    rw [sv39Leaf_super (by rw [hand _ (by decide)]; decide) (by rw [hand _ (by decide)]; decide),
      hword] at hleaf
    obtain rfl := Option.some.inj hleaf
    rw [Sv39Leaf.pa, pteMake, pte2pa_or hpage (by decide)]
    have hoff : va % (4096 * 512 ^ 1) < 4096 * 512 := Nat.mod_lt _ (by decide)
    simp only [kernelPhysBase, sz2M] at hoff ⊢
    omega
  · rw [bootKernel, if_neg hn] at hword
    rw [sv39Leaf_invalid (by rw [hword]; rfl)] at hleaf
    cases hleaf

/-- In an entry of 1 GiB the leaf decides. -/
theorem identityWritable_of_leaf {leaf : Sv39Leaf} (hleaf : sv39Leaf m va 2 l0 = some leaf)
    (hflags : leaf.pte &&& (pteW ||| pteU ||| pteA ||| pteD) = pteW ||| pteA ||| pteD) :
    IdentityWritable m l0 va ↔ Sv39Canonical va ∧ leaf.pa va = va := by
  constructor
  · rintro ⟨hcan, found, hfound, hpa, _⟩
    cases hleaf.symm.trans hfound
    exact ⟨hcan, hpa⟩
  · rintro ⟨hcan, hpa⟩
    exact ⟨hcan, leaf, hleaf, hpa, hflags⟩

/-- The kernel can store exactly there. -/
theorem identityWritable_boot_iff (h : BootTables l0 l1) (hm : BootFilled l0 l1 m)
    (hva : va < 18446744073709551616) : IdentityWritable m l0 va ↔ BootMapped va := by
  have hvpn : vpn2 va = va / 1073741824 % 512 := rfl
  -- the physical address in a leaf of 1 GiB
  have hgiga : ∀ entry base, pte2pa (pteMake base bootFlags) = base →
      (Sv39Leaf.mk entry (pteMake base bootFlags) 2).pa va = base + va % 1073741824 := by
    intro entry base hbase
    have hsize : 4096 * 512 ^ 2 = 1073741824 := rfl
    rw [Sv39Leaf.pa, hbase, hsize]
  by_cases hlow : vpn2 va = vpn2 0
  · have hleaf := boot_leaf hm (show bootRoot l1 (vpn2 va) = pteMake 0 bootFlags from hlow ▸ rfl)
      (by decide) (by decide)
    rw [identityWritable_of_leaf hleaf (by dsimp only; decide), hgiga _ _ (by decide)]
    rw [hvpn, show vpn2 0 = 0 from rfl] at hlow
    simp only [Sv39Canonical, BootMapped, dramBase]
    omega
  by_cases hdram : vpn2 va = vpn2 dramBase
  · have hleaf := boot_leaf hm
      (show bootRoot l1 (vpn2 va) = pteMake dramBase bootFlags from hdram ▸ rfl)
      (by decide) (by decide)
    rw [identityWritable_of_leaf hleaf (by dsimp only; decide), hgiga _ _ (by decide)]
    rw [hvpn, show vpn2 dramBase = 2 from rfl] at hdram
    simp only [Sv39Canonical, BootMapped, dramBase]
    omega
  by_cases hoffset : vpn2 va = vpn2 pageOffset
  · have hleaf := boot_leaf hm
      (show bootRoot l1 (vpn2 va) = pteMake dramBase bootFlags from hoffset ▸ rfl)
      (by decide) (by decide)
    rw [identityWritable_of_leaf hleaf (by dsimp only; decide), hgiga _ _ (by decide)]
    rw [hvpn, show vpn2 pageOffset = 256 from rfl] at hoffset
    simp only [Sv39Canonical, BootMapped, dramBase]
    omega
  have hnot : ¬ BootMapped va := by
    rw [hvpn, show vpn2 0 = 0 from rfl] at hlow
    rw [hvpn, show vpn2 dramBase = 2 from rfl] at hdram
    simp only [BootMapped, dramBase]
    omega
  refine ⟨fun hwrite => ?_, fun hmapped => absurd hmapped hnot⟩
  obtain ⟨_, leaf, hleaf, hpa, _⟩ := hwrite
  by_cases hkernel : vpn2 va = vpn2 kernelVirtBase
  · have hlt := boot_kernel_leaf h hm hkernel hleaf
    rw [hvpn, show vpn2 kernelVirtBase = 510 from rfl] at hkernel
    omega
  · have hword := hm.root (vpn2 va) (Nat.mod_lt _ (by decide))
    have hnone : bootRoot l1 (vpn2 va) = 0 :=
      (if_neg hlow).trans ((if_neg hdram).trans ((if_neg hoffset).trans (if_neg hkernel)))
    rw [hnone, ← sv39Entry_two] at hword
    rw [sv39Leaf_invalid (by rw [hword]; rfl)] at hleaf
    cases hleaf

end Identity

end OsAgentLab
