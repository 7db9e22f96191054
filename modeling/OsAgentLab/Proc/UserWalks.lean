/-
What the kernel finds at the addresses that programs pass to it, in every run from the boot on:
the own memory of the program, except behind the leaves that `walk` takes for tables.
-/
import OsAgentLab.Proc.TenancyRun
import OsAgentLab.Vm.WalkLoads

namespace OsAgentLab

namespace Run

variable {kt : Nat} {own : Nat → Prop} {r r₀ : Run} {t : Tenants (Option Nat)} {l : List Nat}
  {i j va : Nat} {img : KernelImage} {bi : BootInfo} {s : Sys}

/-- What the walk for `va` through the table of a process reads and finds.  A leaf that it takes
for a table makes words of ordinary memory into entries, and these decide where it leads. -/
structure Walked (s : Sys) (i va : Nat) : Prop where
  mistakes : MistakesLeaf s.mm.mem (s.procs i).pagetable va ↔ LeafVa va
  unseen : ¬ LeafVa va → ∀ a ∈ walkLoads s.mm.mem (s.procs i).pagetable va,
    ∀ x, x < 8 → ∀ j vb, ¬ Reaches s j vb (a + x)
  own : ¬ LeafVa va → userPa s.mm (s.procs i).pagetable va ≠ 0 →
    Reaches s i (va % 0x8000000000) (userPa s.mm (s.procs i).pagetable va)
  forged : vpn2 va = vpn2 kernelVirtBase → vpn1 va < 32 → ∀ pte,
    le64 s.mm.mem (kernelPhysBase + vpn1 va * sz2M + 8 * vpn0 va) = pte → pte &&& pteV ≠ 0 →
      pte &&& pteU ≠ 0 →
        userPa s.mm (s.procs i).pagetable va = u64 (pte2pa pte + va % pageSize)

/-- No process reaches a byte of a table. -/
theorem not_reaches_table {pt p x vb : Nat} {sp : Space} (h : Housed kt own s t l)
    (hspace : t.space (some i) = some (pt, sp)) (hown : ∀ x, InPage kt x → own x)
    (htable : IsTable kt pt sp p) (hin : InPage p x) : ¬ Reaches s j vb x := by
  intro hreach
  obtain ⟨q, hq, hpage, hqin⟩ := hreach.page h
  have hrole : ∀ part, (∀ n, part ≠ .page n) → ¬ sp.Has pt part p := by
    intro part hne hpart
    have hp : t.Has (.part (some i) part) p := ⟨pt, sp, hspace, hpart⟩
    obtain rfl := hpage.inPage_unique (h.estate.isPage _ _ hp) hqin hin
    exact hne _ (Role.part.inj (h.estate.apart hp hq)).2
  rcases htable with rfl | rfl | rfl | ⟨n, hn⟩
  · exact h.estate.kept q (Or.inr ⟨_, hq⟩) x hqin (hown x hin)
  · exact hrole .root (fun n hn => by cases hn) rfl
  · exact hrole .low (fun n hn => by cases hn) rfl
  · exact hrole (.table n) (fun n hn => by cases hn) hn

/-- The walks of a process, from what is in its table and in that of the kernel. -/
theorem walked_of_housed (h : Housed kt own s t l) (hkt : IsPage kt)
    (hown : ∀ x, InPage kt x → own x)
    (hkernel : ∀ n, n < 512 → le64 s.mm.mem (kt + 8 * n) = bootKernel n)
    (hused : (s.procs i).state ≠ .unused) (va : Nat) : Walked s i va := by
  obtain ⟨_, ⟨sp, hspace⟩, _⟩ := h.tenant hused
  have hwf := h.estate.wf _ _ _ hspace
  have hat := h.estate.space _ _ _ hspace
  have hends := walkEnds hwf hat hkt hkernel va
  refine ⟨hends.mistakes_iff hwf, fun hva a ha x hx j vb => ?_, fun hva hpa => ?_, ?_⟩
  · obtain ⟨p, n, htable, hn, rfl⟩ := hends.inside hwf hva ha
    exact not_reaches_table h hspace hown htable (InPage.word hn hx)
  · exact ⟨hused, hends.low hwf hva hpa, userPa_mod _ _ _, hpa⟩
  · intro hkern hlt pte hpte hvalid huser
    exact userPa_kernel hkern hlt hat hkt hkernel hpte hvalid huser

/-- In every run from the boot on, and for every address that a program passes: `walk` takes a
leaf for a table exactly behind the leaves of the kernel.  At all other addresses it reads no
byte that a process reaches, and finds the memory of the program only. -/
theorem addresses_walked (hlinked : img.Linked) (hbi : bi.Manageable img)
    (hfirst : Started img bi r₀) (hrun : Steps Sound r₀ r)
    (hused : (r.sys.procs i).state ≠ .unused) (va : Nat) : Walked r.sys i va := by
  obtain ⟨l, h⟩ := hfirst.tenancy hlinked hbi
  obtain ⟨t', l', h', hshift⟩ := steps_tenancy hlinked.tables.kernel h hrun
  obtain ⟨passes, s, hlist, hmm⟩ := hfirst.memory
  have hown : ∀ x, InPage img.l1 x → KernelByte img x := by
    rintro x ⟨hge, hlt⟩
    have hkernel := hlinked.kernel
    exact Or.inl ⟨by omega, by omega⟩
  refine walked_of_housed h'.housed hlinked.tables.kernel hown (fun n hn => ?_) hused va
  rw [le64_page_congr (p := img.l1) hn fun x hx => hshift.kept h.housed.estate (hown x hx), hmm]
  exact (bootMm_filled hlinked hbi passes).kernel n hn

/-- For the first process, and the first address at which the kernel is linked. -/
theorem addresses_walked_first : Walked madeRun.sys 0 kernelVirtBase := by
  have hused : (madeRun.sys.procs 0).state ≠ .unused := by
    rw [smallRun_alloc.2]
    decide
  exact addresses_walked smallKernel_linked smallKernel_manageable smallRun_started smallRun_steps
    hused kernelVirtBase

end Run

end OsAgentLab
