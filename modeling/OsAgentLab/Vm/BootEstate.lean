/-
Memory when the first process is made: `boot_pagetable_init` and `kinit` leave every page
free, and the kernel on a table of its own.
-/
import OsAgentLab.Vm.Estate
import OsAgentLab.Vm.Kinit

namespace OsAgentLab

universe u

variable {κ : Type u} {img : KernelImage} {bi : BootInfo} {s : Mm} {l : List Nat}
  {stop passes p kt : Nat} {own : Nat → Prop}

section Nobody

/-- Nobody has a page. -/
def nobody : Tenants κ := ⟨fun _ => none, fun _ => none⟩

theorem nobody_has {role : Role κ} : ¬ nobody.Has role p := by
  cases role with
  | frame k =>
      rintro ⟨_, hk⟩
      cases hk
  | part k q =>
      rintro ⟨_, _, hk, _⟩
      cases hk

/-- Free pages apart from the kernel's own bytes. -/
theorem Estate.of_free (hfree : FreePages s l) (hkept : ∀ p ∈ l, ∀ x, InPage p x → ¬ own x) :
    Estate kt own s (nobody : Tenants κ) l where
  free := hfree
  isPage _ _ hp := absurd hp nobody_has
  saved _ _ _ hk := by cases hk
  wf _ _ _ hk := by cases hk
  space _ _ _ hk := by cases hk
  apart _ _ _ hp := absurd hp nobody_has
  notFree _ _ hp := absurd hp nobody_has
  kept := by
    rintro p (hp | ⟨_, hp⟩)
    · exact hkept p hp
    · exact absurd hp nobody_has

end Nobody

section Boot

/-- The loop of `kinit` writes to the pages between its two ends only. -/
theorem kinitLoop_frame (hstop : stop < kernelVirtBase) (passes : Nat) :
    ∀ (p : Nat) (s : Mm), p < kernelVirtBase → ∃ s', kinitLoop stop passes p s = (.ok (), s') ∧
      ∀ x, x < p ∨ kernelVirtBase ≤ x → s'.mem x = s.mem x := by
  induction passes with
  | zero => exact fun p s _ => ⟨s, rfl, fun _ _ => rfl⟩
  | succ passes ih =>
      intro p s hp
      have hbase : kernelVirtBase + 4096 < 18446744073709551616 := by decide
      have hnext : u64 (p + pageSize) = p + 4096 := u64_of_lt (by unfold pageSize; omega)
      by_cases hle : p + 4096 ≤ stop
      · obtain ⟨s₁, hfree, hframe₁⟩ : ∃ s₁, kfree p s = (.ok (), s₁) ∧
            ∀ x, x < p ∨ kernelVirtBase ≤ x → s₁.mem x = s.mem x := by
          by_cases hal : p % pageSize ≠ 0
          · exact ⟨s, if_pos hal, fun _ _ => rfl⟩
          · refine ⟨_, if_neg hal, fun x hx => ?_⟩
            exact put64_of_not_inPage (p := p) (i := 0) (by decide) fun hin => by
              unfold InPage at hin
              omega
        obtain ⟨s', hrun, hframe⟩ := ih (p + 4096) s₁ (by omega)
        refine ⟨s', ?_, fun x hx => (hframe x ?_).trans (hframe₁ x hx)⟩
        · rw [kinitLoop, hnext, if_pos hle, Prog.bind_ok hfree, hrun]
        · omega
      · exact ⟨s, by rw [kinitLoop, hnext, if_neg hle, Prog.pure_apply], fun _ _ => rfl⟩

/-- The bytes of the kernel: its image in memory, and the addresses that it is linked to. -/
def KernelByte (img : KernelImage) (x : Nat) : Prop :=
  kernelPhysBase ≤ x ∧ x < img.physEnd ∨ kernelVirtBase ≤ x

/-- Memory as `kernel_main` hands it to `proc_init`. -/
def bootMm (img : KernelImage) (bi : BootInfo) (passes : Nat) (s : Mm) : Mm :=
  { (kinit img bi.memBase bi.memSize passes (bootPagetableInit img.l0 img.l1 s).2).2 with
    satp := img.l0 }

/-- Memory that is manageable ends below the addresses that the kernel is linked to. -/
theorem BootInfo.Manageable.stop_lt (h : bi.Manageable img) (hlinked : img.Linked) :
    u64 (bi.memBase + bi.memSize) < kernelVirtBase := by
  have hbase : kernelVirtBase = 0xffffffff80000000 := rfl
  have hhigh := hlinked.start.high
  simp only [BootInfo.Manageable, lastPageEnd, pageSize] at h
  generalize u64 (bi.memBase + bi.memSize) = stop at *
  generalize pageAlignUp img.physEnd = start at *
  omega

/-- `kinit` leaves the tables of `boot_pagetable_init` as they are. -/
theorem bootMm_filled (hlinked : img.Linked) (hbi : bi.Manageable img) (passes : Nat) :
    BootFilled img.l0 img.l1 (bootMm img bi passes s).mem := by
  obtain ⟨s₁, hboot, _, htables⟩ := bootPagetableInit_filled hlinked.tables s
  obtain ⟨_, hbehind, hlow, hhigh⟩ := hlinked.start
  have hbase : kernelVirtBase = 0xffffffff80000000 := rfl
  obtain ⟨s₂, hkinit, hframe⟩ := kinitLoop_frame (hbi.stop_lt hlinked) passes
    (pageAlignUp img.physEnd) s₁ (by omega)
  have hmm : bootMm img bi passes s = { s₂ with satp := img.l0 } := by
    rw [bootMm, hboot, kinit, hkinit]
  have hkept : ∀ p, p + 4096 ≤ img.physEnd → ∀ x, InPage p x → s₂.mem x = s₁.mem x := by
    intro p hp x hx
    refine hframe x (Or.inl ?_)
    unfold InPage at hx
    omega
  rw [hmm]
  refine ⟨fun i hi => ?_, fun i hi => ?_⟩
  · exact (le64_page_congr hi (hkept _ hlinked.root.2)).trans (htables.root i hi)
  · exact (le64_page_congr hi (hkept _ hlinked.kernel.2)).trans (htables.kernel i hi)

/-- What `boot_pagetable_init` and `kinit` leave behind. -/
theorem bootMm_estate (hlinked : img.Linked) (hbi : bi.Manageable img) (hlist : s.freelist = 0)
    (passes : Nat) : OwnTable img.l1 (KernelByte img) (bootMm img bi passes s) ∧
      ∃ l, Estate img.l1 (KernelByte img) (bootMm img bi passes s) (nobody : Tenants κ) l := by
  obtain ⟨s₁, hboot, hlist₁, htables⟩ := bootPagetableInit_filled hlinked.tables s
  obtain ⟨l, hfree, husable⟩ :=
    owns_of_manageable hlinked htables (hlist₁.trans hlist) hbi passes
  obtain ⟨hstart, hbehind, hlow, hhigh⟩ := hlinked.start
  have hroot := hlinked.root
  have hbase : kernelVirtBase = 0xffffffff80000000 := rfl
  obtain ⟨s₂, hkinit, hframe⟩ := kinitLoop_frame (hbi.stop_lt hlinked) passes
    (pageAlignUp img.physEnd) s₁ (by omega)
  have hmm : bootMm img bi passes s = { s₂ with satp := img.l0 } := by
    rw [bootMm, hboot, kinit, hkinit]
  have hfilled := bootMm_filled (s := s) hlinked hbi passes
  rw [kinit, hkinit] at hfree
  rw [hmm] at hfilled ⊢
  refine ⟨⟨hlinked.tables.root, ?_, fun i _ hi => hfilled.root i hi⟩, l, .of_free ?_
    fun p hp x hx => ?_⟩
  · rintro x ⟨hge, hlt⟩
    dsimp only at hge hlt
    exact Or.inl ⟨by omega, by omega⟩
  · exact hfree.frame rfl fun _ _ _ _ => rfl
  · have hpage := hfree.page p hp
    have hpos := hpage.lt
    have haligned := hpage.aligned
    have hx' := hx
    simp only [PageAligned, InPage] at haligned hx'
    rintro (hin | hin)
    · exact (husable p hp).kernel x hx hin
    · have hwrite := (husable p hp).writable x hx
      rw [identityWritable_boot_iff hlinked.tables htables (by omega)] at hwrite
      simp only [BootMapped, dramBase] at hwrite
      omega

theorem freedPages_length (p n : Nat) : (freedPages p n).length = n := by
  induction n with
  | zero => rfl
  | succ n ih => rw [freedPages, List.length_cons, ih]

/-- As many pages are free as `kinit` made passes, up to the end of memory. -/
theorem bootMm_free (hlinked : img.Linked) (hlist : s.freelist = 0)
    (hpasses : pageAlignUp img.physEnd + passes * pageSize ≤ u64 (bi.memBase + bi.memSize)) :
    FreePages (bootMm img bi passes s) (freedPages (pageAlignUp img.physEnd) passes) := by
  obtain ⟨s₁, hboot, hlist₁, _⟩ := bootPagetableInit_filled hlinked.tables s
  have hfree : FreePages s₁ [] := ⟨hlist₁.trans hlist, List.nodup_nil, fun _ hq => by cases hq⟩
  obtain ⟨s', hrun, hfree'⟩ := kinitLoop_frees passes _ [] s₁ passes hfree hlinked.start.isPage
    (fun _ => hpasses) (Nat.mod_lt _ (by decide)) (fun _ hq => by cases hq) (Nat.le_refl _)
    (Or.inl rfl)
  have hmm : bootMm img bi passes s = { s' with satp := img.l0 } := by
    rw [bootMm, hboot, kinit, hrun]
  rw [hmm]
  rw [List.append_nil] at hfree'
  exact hfree'.frame rfl fun _ _ _ _ => rfl

end Boot

end OsAgentLab
