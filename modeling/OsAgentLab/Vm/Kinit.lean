/-
`kinit`: which pages it puts on the free list, for the memory and the initrd that the
firmware reports, and when all of them are the allocator's to give away.
-/
import OsAgentLab.Vm.BootTable
import OsAgentLab.Vm.FreeList
import OsAgentLab.Firmware.LoaderSafe

namespace OsAgentLab

/-- `KERNEL_VIRT_OFFSET`. -/
def kernelVirtOffset : Nat := 0xfffffffeffe00000

/-- `struct bootinfo`, the fields for memory and the initrd. -/
structure BootInfo where
  memBase : Nat
  memSize : Nat
  initrdPaddr : Nat
  initrdSize : Nat
deriving DecidableEq, Repr

/-- Addresses in the kernel: its two boot tables, and the symbol `__kernel_end`. -/
structure KernelImage where
  l0 : Nat
  l1 : Nat
  kernelEnd : Nat

/-- `start` in `kinit` before it is rounded up. -/
def KernelImage.physEnd (img : KernelImage) : Nat :=
  u64 (img.kernelEnd + (18446744073709551616 - kernelVirtOffset))

/-- `align_up` to the page size. -/
def pageAlignUp (val : Nat) : Nat := u64 (val + (pageSize - 1)) / pageSize * pageSize

/-- The loop of `kinit` up to its pass number `passes`. -/
def kinitLoop (stop : Nat) : Nat → Nat → Vm Unit
  | 0, _ => pure ()
  | passes + 1, p =>
      if u64 (p + pageSize) ≤ stop then do
        kfree p
        kinitLoop stop passes (u64 (p + pageSize))
      else pure ()

/-- `kinit`, up to a pass of its loop. -/
def kinit (img : KernelImage) (memBase memSize passes : Nat) : Vm Unit :=
  kinitLoop (u64 (memBase + memSize)) passes (pageAlignUp img.physEnd)

/-- The linker puts the kernel behind `KERNEL_PHYS_BASE`, and its end into the last 2 GiB of
the address space. -/
structure KernelImage.Linked (img : KernelImage) : Prop where
  tables : BootTables img.l0 img.l1
  symbol : kernelVirtBase ≤ img.kernelEnd ∧ img.kernelEnd < 18446744073709551616
  root : kernelPhysBase ≤ img.l0 ∧ img.l0 + 4096 ≤ img.physEnd
  kernel : kernelPhysBase ≤ img.l1 ∧ img.l1 + 4096 ≤ img.physEnd

/-- The firmware reports this memory and this initrd: the loader has not panicked. -/
def Firmware.Reports (bi : BootInfo) : Prop :=
  bi.memBase < 18446744073709551616 ∧ bi.memSize < 18446744073709551616 ∧
    ∃ read hdr r, readImageHeader read = some hdr ∧ hdr.Accepted ∧
      load read hdr bi.memBase bi.memSize = some r ∧ bi.initrdPaddr = r.initrdPaddr ∧
        bi.initrdSize = hdr.initrdSize

/-- A page that can be given away: it can be written through the boot table, lies in the
reported memory, and has no byte of the kernel, with its stacks and tables, or of the
initrd. -/
structure Usable (img : KernelImage) (bi : BootInfo) (boot : Nat → UInt8) (p : Nat) : Prop where
  writable : ∀ x, InPage p x → IdentityWritable boot img.l0 x
  inside : bi.memBase ≤ p ∧ p + pageSize ≤ bi.memBase + bi.memSize
  kernel : ∀ x, InPage p x → ¬ (kernelPhysBase ≤ x ∧ x < img.physEnd)
  initrd : ∀ x, InPage p x → ¬ (bi.initrdPaddr ≤ x ∧ x < bi.initrdPaddr + bi.initrdSize)

/-- The free list has usable pages only, each of them once. -/
def OwnsUsable (img : KernelImage) (bi : BootInfo) (boot : Nat → UInt8) (s : Mm) : Prop :=
  ∃ l, FreePages s l ∧ ∀ p ∈ l, Usable img bi boot p

/-- The end of the last page between `start` and `stop`. -/
def lastPageEnd (start stop : Nat) : Nat := start + (stop - start) / pageSize * pageSize

/-- Between the kernel and the end of memory there is no page, or they lie in the reported
memory below 3 GiB, and apart from the initrd. -/
def BootInfo.Manageable (img : KernelImage) (bi : BootInfo) : Prop :=
  let start := pageAlignUp img.physEnd
  let stop := lastPageEnd start (u64 (bi.memBase + bi.memSize))
  stop = start ∨
    (bi.memBase ≤ start ∧ stop ≤ 0xc0000000 ∧
      (bi.initrdSize = 0 ∨ bi.initrdPaddr + bi.initrdSize ≤ start ∨ stop ≤ bi.initrdPaddr))

instance (img : KernelImage) (bi : BootInfo) : Decidable (bi.Manageable img) :=
  inferInstanceAs (Decidable (_ ∨ (_ ∧ _ ∧ (_ ∨ _ ∨ _))))

variable {img : KernelImage} {bi : BootInfo} {s s' : Mm} {l l' : List Nat} {p stop : Nat}

section Loop

/-- The free list holds one list of pages only. -/
theorem FreePages.unique (h : FreePages s l) (h' : FreePages s l') : l = l' := by
  have hchain : ∀ (l l' : List Nat) (head : Nat), FreeChain s.mem head l →
      FreeChain s.mem head l' → (∀ q ∈ l, 0 < q) → (∀ q ∈ l', 0 < q) → l = l' := by
    intro l
    induction l with
    | nil =>
        intro l' head h h' _ hpos
        cases l' with
        | nil => rfl
        | cons q l' =>
            have hq := hpos q List.mem_cons_self
            rw [← h'.1, show head = 0 from h] at hq
            exact absurd hq (Nat.lt_irrefl 0)
    | cons p l ih =>
        intro l' head h h' hpos hpos'
        cases l' with
        | nil =>
            have hp := hpos p List.mem_cons_self
            rw [← h.1, show head = 0 from h'] at hp
            exact absurd hp (Nat.lt_irrefl 0)
        | cons q l' =>
            obtain rfl : p = q := h.1.symm.trans h'.1
            rw [ih l' _ h.2 h'.2 (fun r hr => hpos r (List.mem_cons_of_mem _ hr))
              fun r hr => hpos' r (List.mem_cons_of_mem _ hr)]
  exact hchain l l' _ h.chain h'.chain (fun q hq => (h.page q hq).pos)
    fun q hq => (h'.page q hq).pos

/-- The pages of `n` passes from `p` on, the last one first. -/
def freedPages (p : Nat) : Nat → List Nat
  | 0 => []
  | n + 1 => (p + n * pageSize) :: freedPages p n

theorem mem_freedPages {n q : Nat} :
    q ∈ freedPages p n ↔ ∃ i, i < n ∧ q = p + i * pageSize := by
  induction n with
  | zero =>
      constructor
      · intro hq
        cases hq
      · rintro ⟨_, hi, _⟩
        cases hi
  | succ n ih =>
      rw [freedPages, List.mem_cons, ih]
      constructor
      · rintro (rfl | ⟨i, hi, rfl⟩)
        · exact ⟨n, Nat.lt_succ_self n, rfl⟩
        · exact ⟨i, Nat.lt_succ_of_lt hi, rfl⟩
      · rintro ⟨i, hi, rfl⟩
        rcases Nat.lt_succ_iff_lt_or_eq.mp hi with hi | rfl
        · exact Or.inr ⟨i, hi, rfl⟩
        · exact Or.inl rfl

theorem freedPages_append (p n : Nat) :
    freedPages (p + pageSize) n ++ [p] = freedPages p (n + 1) := by
  induction n with
  | zero =>
      rw [freedPages, freedPages, freedPages, Nat.zero_mul, Nat.add_zero]
      rfl
  | succ n ih =>
      have hsum : p + pageSize + n * pageSize = p + (n + 1) * pageSize := by
        rw [Nat.add_mul, Nat.one_mul]
        omega
      rw [freedPages, List.cons_append, ih, hsum]
      rfl

/-- Passes that stay below the end of memory put their pages on the list. -/
theorem kinitLoop_frees (n : Nat) :
    ∀ (p : Nat) (l : List Nat) (s : Mm) (passes : Nat), FreePages s l → IsPage p →
      (n ≠ 0 → p + n * pageSize ≤ stop) → stop < 18446744073709551616 → (∀ q ∈ l, q < p) → n ≤ passes →
      (passes = n ∨ stop < u64 (p + n * pageSize + pageSize)) →
      ∃ s', kinitLoop stop passes p s = (.ok (), s') ∧ FreePages s' (freedPages p n ++ l) := by
  induction n with
  | zero =>
      intro p l s passes hfree _ _ _ _ _ hend
      refine ⟨s, ?_, hfree⟩
      cases passes with
      | zero => rfl
      | succ passes =>
          simp only [Nat.zero_mul, Nat.add_zero] at hend
          rw [kinitLoop, if_neg (by omega), Prog.pure_apply]
  | succ n ih =>
      intro p l s passes hfree hp hle hstop hbelow hpasses hend
      have hle := hle (Nat.succ_ne_zero n)
      obtain ⟨passes, rfl⟩ := Nat.exists_eq_succ_of_ne_zero (show passes ≠ 0 by omega)
      have hmul : (n + 1) * pageSize = n * pageSize + pageSize := Nat.succ_mul n pageSize
      have hsize : pageSize = 4096 := rfl
      have hnext : u64 (p + pageSize) = p + pageSize := u64_of_lt (by omega)
      obtain ⟨s₁, hrun, hfree₁, _⟩ := kfree_spec hfree hp fun hmem =>
        absurd (hbelow p hmem) (Nat.lt_irrefl p)
      have hnextPage : IsPage (p + pageSize) := by
        have haligned := hp.aligned
        simp only [PageAligned] at haligned
        refine ⟨?_, by omega, by omega⟩
        simp only [PageAligned]
        omega
      obtain ⟨s', hrest, hfree'⟩ := ih (p + pageSize) (p :: l) s₁ passes hfree₁ hnextPage
        (fun _ => by omega) hstop (fun q hq => by
          rcases List.mem_cons.mp hq with rfl | hq
          · omega
          · have := hbelow q hq
            omega) (by omega) (by
          rcases hend with hend | hend
          · exact Or.inl (by omega)
          · right
            rwa [show p + pageSize + n * pageSize + pageSize = p + (n + 1) * pageSize + pageSize by
              omega])
      refine ⟨s', ?_, ?_⟩
      · rw [kinitLoop, hnext, if_pos (by omega), Prog.bind_ok hrun, hrest]
      · rw [← freedPages_append, List.append_assoc]
        exact hfree'

end Loop

section Owned

/-- The first page behind the kernel. -/
structure StartPage (img : KernelImage) (start : Nat) : Prop where
  isPage : IsPage start
  behind : img.physEnd ≤ start
  low : kernelPhysBase ≤ start
  high : start ≤ 0x100200000

theorem KernelImage.Linked.start (h : img.Linked) : StartPage img (pageAlignUp img.physEnd) := by
  obtain ⟨hlow, hhigh⟩ := h.symbol
  have hphys : img.physEnd = img.kernelEnd - kernelVirtOffset := by
    rw [KernelImage.physEnd]
    simp only [u64, kernelVirtOffset, kernelVirtBase] at *
    omega
  simp only [kernelVirtBase, kernelVirtOffset] at hlow hphys
  have hround : pageAlignUp img.physEnd = (img.physEnd + 4095) / 4096 * 4096 := by
    rw [pageAlignUp, u64_of_lt (by simp only [pageSize]; omega)]
    rfl
  rw [hround]
  refine ⟨⟨?_, by omega, by omega⟩, by omega, ?_, by omega⟩
  · simp only [PageAligned]
    omega
  · simp only [kernelPhysBase]
    omega

variable {boot : Nat → UInt8}

/-- After enough passes every page up to the end of memory has been freed. -/
theorem kinit_page (h : img.Linked) (hlist : s.freelist = 0) {i : Nat}
    (hpage : pageAlignUp img.physEnd + (i + 1) * pageSize ≤ u64 (bi.memBase + bi.memSize))
    (howns : OwnsUsable img bi boot (kinit img bi.memBase bi.memSize (i + 1) s).2) :
    Usable img bi boot (pageAlignUp img.physEnd + i * pageSize) := by
  have hfree : FreePages s [] := ⟨hlist, List.nodup_nil, fun _ hq => by cases hq⟩
  obtain ⟨s', hrun, hfree'⟩ := kinitLoop_frees (i + 1) _ [] s (i + 1) hfree h.start.isPage
    (fun _ => hpage) (Nat.mod_lt _ (by decide)) (fun _ hq => by cases hq) (Nat.le_refl _) (Or.inl rfl)
  obtain ⟨l, hl, husable⟩ := howns
  rw [kinit, hrun] at hl
  obtain rfl := hl.unique hfree'
  apply husable
  rw [List.append_nil]
  exact mem_freedPages.mpr ⟨i, Nat.lt_succ_self i, rfl⟩

/-- What holds when all pages that are ever freed are usable. -/
theorem manageable_of_owns (h : img.Linked) (htables : BootFilled img.l0 img.l1 boot)
    (hlist : s.freelist = 0)
    (howns : ∀ passes, OwnsUsable img bi boot (kinit img bi.memBase bi.memSize passes s).2) :
    bi.Manageable img := by
  obtain ⟨hstart, _, hlow, hhigh⟩ := h.start
  have husable := fun i hpage => kinit_page h hlist (i := i) hpage (howns (i + 1))
  simp only [BootInfo.Manageable, lastPageEnd]
  generalize pageAlignUp img.physEnd = start at hstart hlow hhigh husable ⊢
  generalize u64 (bi.memBase + bi.memSize) = stop at husable ⊢
  have hsize : pageSize = 4096 := rfl
  rw [hsize] at husable ⊢
  by_cases hnone : stop < start + 4096
  · left
    omega
  have haligned : start % 4096 = 0 := hstart.aligned
  -- the page with the address `x` is usable
  have hat : ∀ x, start ≤ x → x < start + (stop - start) / 4096 * 4096 →
      Usable img bi boot (x / 4096 * 4096) := by
    intro x hx hxstop
    have hi := husable ((x - start) / 4096) (by omega)
    rwa [show start + (x - start) / 4096 * 4096 = x / 4096 * 4096 by omega] at hi
  have hin : ∀ x, InPage (x / 4096 * 4096) x := by
    intro x
    simp only [InPage]
    omega
  refine Or.inr ⟨?_, ?_, ?_⟩
  · have hfirst := (hat start (Nat.le_refl _) (by omega)).inside.1
    omega
  · by_contra hhigh'
    have hbad := hat (max start 0xc0000000) (Nat.le_max_left ..) (by omega)
    have hwrite := hbad.writable _ (hin _)
    rw [identityWritable_boot_iff h.tables htables (by omega)] at hwrite
    simp only [BootMapped] at hwrite
    omega
  · by_contra hinitrd
    have hbad := hat (max start bi.initrdPaddr) (Nat.le_max_left ..) (by omega)
    exact hbad.initrd _ (hin _) (by omega)

/-- And the condition is enough. -/
theorem owns_of_manageable (h : img.Linked) (htables : BootFilled img.l0 img.l1 boot)
    (hlist : s.freelist = 0) (hbi : bi.Manageable img) (passes : Nat) :
    OwnsUsable img bi boot (kinit img bi.memBase bi.memSize passes s).2 := by
  obtain ⟨hstart, hbehind, hlow, hhigh⟩ := h.start
  have hstop : u64 (bi.memBase + bi.memSize) ≤ bi.memBase + bi.memSize := Nat.mod_le _ _
  have hword : u64 (bi.memBase + bi.memSize) < 18446744073709551616 := Nat.mod_lt _ (by decide)
  simp only [BootInfo.Manageable, lastPageEnd] at hbi
  rw [kinit]
  generalize pageAlignUp img.physEnd = start at hstart hbehind hlow hhigh hbi ⊢
  generalize u64 (bi.memBase + bi.memSize) = stop at hstop hword hbi ⊢
  have hsize : pageSize = 4096 := rfl
  rw [hsize] at hbi
  have haligned : start % 4096 = 0 := hstart.aligned
  have hfree : FreePages s [] := ⟨hlist, List.nodup_nil, fun _ hq => by cases hq⟩
  have hnext : u64 (start + (stop - start) / 4096 * 4096 + 4096) =
      start + (stop - start) / 4096 * 4096 + 4096 := u64_of_lt (by omega)
  -- the passes that free a page
  generalize hn : min passes ((stop - start) / 4096) = n
  obtain ⟨s', hrun, hfree'⟩ := kinitLoop_frees n start [] s passes hfree hstart
    (fun hne => by
      rw [hsize]
      omega) hword (fun _ hq => by cases hq) (by omega) (by
      by_cases hall : passes ≤ (stop - start) / 4096
      · exact Or.inl (by omega)
      · right
        rw [hsize, ← hn, Nat.min_eq_right (by omega), hnext]
        omega)
  rw [hrun]
  refine ⟨_, hfree', fun p hp => ?_⟩
  rw [List.append_nil] at hp
  obtain ⟨i, hi, rfl⟩ := mem_freedPages.mp hp
  rcases hbi with hnone | ⟨hbase, hend, hinitrd⟩
  · omega
  rw [hsize]
  simp only [kernelPhysBase] at hlow
  refine ⟨fun x hx => ?_, ⟨by omega, by rw [hsize]; omega⟩, fun x hx => ?_, fun x hx => ?_⟩
  all_goals
    simp only [InPage] at hx
  · rw [identityWritable_boot_iff h.tables htables (by omega)]
    right
    simp only [dramBase]
    omega
  · omega
  · omega

/-- Every page that `kinit` ever frees is usable exactly when the reported memory and initrd
are manageable. -/
theorem kinit_owns_iff (h : img.Linked) (hlist : s.freelist = 0) :
    (∀ passes, OwnsUsable img bi (bootPagetableInit img.l0 img.l1 s).2.mem
      (kinit img bi.memBase bi.memSize passes (bootPagetableInit img.l0 img.l1 s).2).2) ↔
      bi.Manageable img := by
  obtain ⟨s', hrun, hlist', htables⟩ := bootPagetableInit_filled h.tables s
  rw [hrun]
  exact ⟨manageable_of_owns h htables (hlist'.trans hlist),
    owns_of_manageable h htables (hlist'.trans hlist)⟩

/-- An initrd that fits into memory is never spared while a page is freed. -/
theorem not_manageable_of_initrd (h : img.Linked)
    (hmem : bi.memBase + bi.memSize < 18446744073709551616) (hsize : bi.initrdSize ≠ 0)
    (hroom : Firmware.InitrdRoom bi.memBase bi.memSize bi.initrdSize)
    (hpaddr : bi.initrdPaddr = Firmware.initrdBase bi.memBase bi.memSize bi.initrdSize)
    (hpage : pageAlignUp img.physEnd + pageSize ≤ bi.memBase + bi.memSize) :
    ¬ bi.Manageable img := by
  have haligned : pageAlignUp img.physEnd % 4096 = 0 := h.start.isPage.aligned
  obtain ⟨hroom, hbase⟩ := hroom
  simp only [BootInfo.Manageable, lastPageEnd, Firmware.initrdBase, pageSize] at *
  rw [u64_of_lt hmem]
  omega

/-- A kernel of 64 KiB. -/
def smallKernel : KernelImage := ⟨0x80201000, 0x80202000, 0xffffffff80010000⟩

theorem smallKernel_linked : smallKernel.Linked where
  tables := ⟨⟨rfl, by decide, by decide⟩, ⟨rfl, by decide, by decide⟩, by decide⟩
  symbol := by decide
  root := by decide
  kernel := by decide

/-- The memory when the kernel starts. -/
def zeroMm : Mm := ⟨fun _ => 0, 0, 0⟩

/-- The 1 GiB of memory that is assumed without a device tree, without an initrd: all of its
pages are freed in less than 2^18 passes. -/
theorem kinit_owns_iff_noInitrd : OwnsUsable smallKernel ⟨0x80000000, 0x40000000, 0, 0⟩
    (bootPagetableInit smallKernel.l0 smallKernel.l1 zeroMm).2.mem
    (kinit smallKernel 0x80000000 0x40000000 262144
      (bootPagetableInit smallKernel.l0 smallKernel.l1 zeroMm).2).2 :=
  (@kinit_owns_iff smallKernel ⟨0x80000000, 0x40000000, 0, 0⟩ zeroMm smallKernel_linked rfl).mpr
    (by decide) 262144

/-- The same memory with an initrd of one byte, which the firmware puts into the last page:
that page is freed. -/
theorem kinit_frees_initrd : Firmware.Reports ⟨0x80000000, 0x40000000, 0xbffff000, 1⟩ ∧
    smallKernel.Linked ∧
    ¬ ∀ passes, OwnsUsable smallKernel ⟨0x80000000, 0x40000000, 0xbffff000, 1⟩
      (bootPagetableInit smallKernel.l0 smallKernel.l1 zeroMm).2.mem
      (kinit smallKernel 0x80000000 0x40000000 passes
        (bootPagetableInit smallKernel.l0 smallKernel.l1 zeroMm).2).2 := by
  refine ⟨⟨by decide, by decide, Firmware.oneByteDisk 0x80200000 4 1, Firmware.oneByteHeader 1,
    ⟨0x80200000, 0x80200004, 0xbffff000,
      [⟨0x80200000, [0xab]⟩, ⟨0x80200001, [0, 0, 0]⟩, ⟨0xbffff000, [0]⟩]⟩,
    by decide +kernel, ⟨rfl, rfl⟩, by decide +kernel, rfl, rfl⟩, smallKernel_linked, fun howns => ?_⟩
  obtain ⟨s', hrun, hlist', htables⟩ := bootPagetableInit_filled smallKernel_linked.tables zeroMm
  rw [hrun] at howns
  exact absurd (manageable_of_owns smallKernel_linked htables hlist' howns) (by decide)

end Owned

end OsAgentLab
