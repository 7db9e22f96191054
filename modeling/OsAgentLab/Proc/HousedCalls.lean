/-
What `proc_wait`, `proc_exit`, `sys_brk` and the calls on files do to the pages of the
processes.
-/
import OsAgentLab.Proc.Housing
import OsAgentLab.Vm.UnmapSpec
import OsAgentLab.Vm.UserWrites

namespace OsAgentLab

variable {kt : Nat} {own : Nat → Prop} {s s' : Sys} {t t' : Tenants (Option Nat)}
  {l l' : List Nat} {i j k c p pt addr : Nat} {sp sp' : Space}

section Frames

/-- Calls on files leave memory alone. -/
theorem Housed.onlyFiles (h : Housed kt own s t l) (hfiles : OnlyFiles s s') :
    Housed kt own s' t l := by
  refine h.congr hfiles.mm hfiles.image fun k => ?_
  obtain ⟨ofile, hk⟩ := hfiles.proc k
  rw [hk]
  by_cases hfree : (s.procs k).state = .unused
  · exact Or.inl ⟨hfree, hfree⟩
  · exact Or.inr ⟨hfree, hfree, rfl, rfl, rfl, rfl⟩

/-- Another state of a process that stays. -/
theorem Housed.setProc (h : Housed kt own s t l) {q : Proc} (hused : (s.procs j).state ≠ .unused)
    (hstate : q.state ≠ .unused) (htf : q.tf = (s.procs j).tf)
    (hpt : q.pagetable = (s.procs j).pagetable) (hsz : q.sz = (s.procs j).sz)
    (hkstack : q.kstack = (s.procs j).kstack) : Housed kt own (s.setProc j q) t l := by
  refine h.congr rfl rfl fun k => ?_
  by_cases hk : k = j
  · subst hk
    rw [Sys.setProc_self]
    exact Or.inr ⟨hused, hstate, htf, hpt, hsz, hkstack⟩
  · rw [Sys.setProc_of_ne s hk]
    by_cases hfree : (s.procs k).state = .unused
    · exact Or.inl ⟨hfree, hfree⟩
    · exact Or.inr ⟨hfree, hfree, rfl, rfl, rfl, rfl⟩

theorem Housed.withCurrent (h : Housed kt own s t l) (cur : Option Nat) :
    Housed kt own { s with current := cur } t l :=
  ⟨h.estate, h.lodged, h.spareFrame, h.spareSpace⟩

theorem Housed.unrun (h : Housed kt own s t l) : Housed kt own (s.unrun i) t l := by
  unfold Sys.unrun
  by_cases hrunning : (s.procs i).state = .running
  · rw [if_pos hrunning]
    exact h.setProc (by simp [hrunning]) (fun h => by cases h) rfl rfl rfl rfl
  · rw [if_neg hrunning]
    exact h

theorem Sys.unrun_mm (s : Sys) (i : Nat) : (s.unrun i).mm = s.mm := by
  unfold Sys.unrun
  split <;> rfl

theorem Sys.unrun_image (s : Sys) (i : Nat) : (s.unrun i).image = s.image := by
  unfold Sys.unrun
  split <;> rfl

/-- Another register of the kernel. -/
theorem Housed.registers (h : Housed kt own s t l) {mm : Mm} (hmem : mm.mem = s.mm.mem)
    (hhead : mm.freelist = s.mm.freelist) : Housed kt own { s with mm := mm } t l :=
  ⟨(h.estate.registers hmem hhead).estate, h.lodged, h.spareFrame, h.spareSpace⟩

/-- `proc_exit` keeps the pages of the zombie. -/
theorem procExit_housed {status : Int} {r : Outcome Errno Unit} (h : Housed kt own s t l)
    (hused : (s.procs i).state ≠ .unused) (hrun : procExit i status s = (r, s')) :
    Housed kt own s' t l ∧ s'.mm = s.mm ∧ s'.image = s.image := by
  let Q := fun s' : Sys => Housed kt own s' t l ∧ s'.mm = s.mm ∧ s'.image = s.image
  have hfiles : ∀ u, OnlyFiles s u → Q u := fun u hf => ⟨h.onlyFiles hf, hf.mm, hf.image⟩
  have hkeeps : Prog.Keeps (OnlyFiles s) (Prog.forCount (closeIfOpen i) nofile 0) :=
    Prog.Keeps.forCount (fun fd => closeIfOpen_onlyFiles i fd) _ _
  have hpost : Prog.Triple (OnlyFiles s) (procExit i status) (fun _ => Q) (fun _ => Q) Q := by
    refine Prog.Triple.bind (hkeeps.conseq (fun _ => id) (fun _ _ => id) (fun _ => hfiles) hfiles)
      fun _ => ?_
    refine Prog.Triple.bind (R := fun _ => Q) (Prog.Triple.modify fun u hf => ⟨?_, hf.mm, hf.image⟩)
      fun _ => Prog.Triple.modify fun u hu => ⟨hu.1.unrun.withCurrent none, ?_, ?_⟩
    · have hu : (u.procs i).state ≠ .unused := by
        obtain ⟨ofile, hi⟩ := hf.proc i
        rw [hi]
        exact hused
      exact (h.onlyFiles hf).setProc hu (fun h => by cases h) rfl rfl rfl rfl
    · exact (u.unrun_mm i).trans hu.2.1
    · exact (u.unrun_image i).trans hu.2.2
  have hends := hpost s (.refl s)
  rw [hrun] at hends
  cases r <;> exact hends

end Frames

section Reap

/-- `proc_wait` gives back what a zombie holds. -/
theorem procReap_housed (h : Housed kt own s t l) (hkt : IsPage kt)
    (hused : (s.procs c).state ≠ .unused) :
    ∃ s' l', procReap c s = (.ok ((s.procs c).pid, (s.procs c).exitStatus), s') ∧
      Housed kt own s' ((t.withSpace (some c) none).withFrame (some c) none) l' ∧
      EstateStep kt own s.mm t l s'.mm ((t.withSpace (some c) none).withFrame (some c) none) l' ∧
      s'.mm.satp = s.mm.satp ∧ s'.image = s.image := by
  obtain ⟨⟨b, hframe⟩, ⟨sp, hspace⟩, _, _⟩ := h.tenant hused
  obtain ⟨mm₁, l₁, hfree, hsatp₁, hstep₁, _⟩ := h.estate.vacate hspace hkt
  obtain ⟨mm₂, hkfree, hsatp₂, hstep₂, _⟩ := hstep₁.estate.dropFrame (k := some c) hframe
  let q := { s.procs c with parent := none, state := ProcState.unused }
  refine ⟨{ s.setProc c q with mm := mm₂ }, (s.procs c).tf :: l₁, ?_, ?_, hstep₁.trans hstep₂,
    hsatp₂.trans hsatp₁, rfl⟩
  · rw [procReap, Prog.get_bind, Prog.bind_ok (onMm_run hfree),
      Prog.bind_ok (onMm_run (s := { s with mm := mm₁ }) hkfree), Prog.modify_bind]
    rfl
  · refine h.setSlot (q := q) hstep₂.estate (fun k hk => Tenants.withFrame_of_ne hk _)
      (fun k hk => Tenants.withSpace_of_ne hk _)
      (.vacant rfl (Tenants.withFrame_self _) (Tenants.withSpace_self _)) rfl rfl rfl

end Reap

section Brk

/-- How `sys_brk` ends for a process of size `sz` with the address space `sp`. -/
inductive BrkEnds (sp : Space) (sz addr : Nat) : Nat → Space → Prop
  | stays (hout : addr = sz ∨ addr < userBase ∨ userStackBase < addr) : BrkEnds sp sz addr sz sp
  | grows {sp' : Space} (hlt : sz < addr) (hlimit : addr ≤ userStackBase)
      (hadded : PagesAdded sp sp' ((sz + 4095) / 4096) ((addr + 4095) / 4096 - (sz + 4095) / 4096)
        (pteR ||| pteW ||| pteU)) : BrkEnds sp sz addr addr sp'
  | stuck {sp' : Space} {k : Nat} (hlt : sz < addr) (hlimit : addr ≤ userStackBase)
      (hk : k < (addr + 4095) / 4096 - (sz + 4095) / 4096)
      (hadded : PagesAdded sp sp' ((sz + 4095) / 4096) k (pteR ||| pteW ||| pteU)) :
      BrkEnds sp sz addr sz sp'
  | shrinks {sp' : Space} (hbase : userBase ≤ addr) (hlt : addr < sz)
      (hremoved : PagesRemoved sp sp' ((addr + 4095) / 4096)
        ((sz + 4095) / 4096 - (addr + 4095) / 4096)) : BrkEnds sp sz addr addr sp'

theorem pgRoundUp_div {a : Nat} (h : a ≤ userLimit) :
    pgRoundUp a = (a + 4095) / 4096 * 4096 ∧ pgRoundUp a / pageSize = (a + 4095) / 4096 := by
  unfold userLimit at h
  unfold pgRoundUp u64 pageSize
  omega

theorem PagesRemoved.refl (sp : Space) (n : Nat) : PagesRemoved sp sp n 0 where
  low := rfl
  table := rfl
  inside j hle hlt := absurd hlt (by omega)
  outside _ _ := rfl

/-- `uvm_alloc` for a process that grows. -/
theorem uvmAlloc_spec {m : Mm} {sz perm : Nat} (h : Held kt m pt sp l) (hperm : IsUserPerm perm)
    (hlt : sz < addr) (hlimit : addr ≤ userStackBase) :
    ∃ r m' sp' l' k, uvmAlloc pt sz addr perm m = (r, m') ∧ SpaceStep kt m pt sp l m' sp' l' ∧
      PagesAdded sp sp' ((sz + 4095) / 4096) k perm ∧
      ((r = .ok () ∧ k = (addr + 4095) / 4096 - (sz + 4095) / 4096) ∨
        (r = .err .nomem ∧ k < (addr + 4095) / 4096 - (sz + 4095) / 4096)) := by
  unfold userStackBase userStackTop userLimit userStackSize at hlimit
  obtain ⟨_, hfirst⟩ := pgRoundUp_div (a := sz) (by unfold userLimit; omega)
  obtain ⟨_, hlast⟩ := pgRoundUp_div (a := addr) (by unfold userLimit; omega)
  obtain ⟨r, m', sp', l', k, hrun, hstep, hadded, hends⟩ := uvmAllocPages_spec h
    (show (sz + 4095) / 4096 + ((addr + 4095) / 4096 - (sz + 4095) / 4096) ≤ 5120 by omega) hperm
  refine ⟨r, m', sp', l', k, ?_, hstep, hadded, ?_⟩
  · rw [uvmAlloc, if_neg (by omega), uvmAllocLoop, hfirst, hlast]
    exact hrun
  · rcases hends with hok | ⟨hr, hk, _⟩
    · exact Or.inl hok
    · exact Or.inr ⟨hr, hk⟩

/-- `uvm_dealloc` for a process that shrinks. -/
theorem uvmDealloc_spec {m : Mm} {sz : Nat} (h : Held kt m pt sp l) (hlt : addr < sz)
    (hsz : sz ≤ userLimit) :
    ∃ m' sp' l', uvmDealloc pt sz addr m = (.ok (), m') ∧ SpaceStep kt m pt sp l m' sp' l' ∧
      PagesRemoved sp sp' ((addr + 4095) / 4096) ((sz + 4095) / 4096 - (addr + 4095) / 4096) := by
  obtain ⟨hup, hfirst⟩ := pgRoundUp_div (a := addr) (by omega)
  obtain ⟨hup', hlast⟩ := pgRoundUp_div hsz
  unfold userLimit at hsz
  by_cases hsome : pgRoundUp addr < pgRoundUp sz
  · obtain ⟨m', sp', l', hrun, hstep, hremoved⟩ := uvmUnmapPages_spec h
      (show (addr + 4095) / 4096 + ((sz + 4095) / 4096 - (addr + 4095) / 4096) ≤ 5120 by omega)
    refine ⟨m', sp', l', ?_, hstep, hremoved⟩
    have hcount : (pgRoundUp sz - pgRoundUp addr) / pageSize =
        (sz + 4095) / 4096 - (addr + 4095) / 4096 := by
      rw [hup, hup']
      unfold pageSize
      omega
    rw [uvmDealloc, if_neg (by omega), if_pos hsome, uvmUnmap, hcount, hfirst]
    exact hrun
  · have hnone : (sz + 4095) / 4096 - (addr + 4095) / 4096 = 0 := by
      rw [hup, hup'] at hsome
      omega
    refine ⟨m, sp, l, ?_, .refl h, hnone ▸ .refl sp _⟩
    rw [uvmDealloc, if_neg (by omega), if_neg hsome, Prog.pure_apply]

theorem Tenants.withSpace_same {κ : Type} [DecidableEq κ] {t : Tenants κ} {k : κ}
    {v : Option (Nat × Space)} (h : t.space k = v) : t.withSpace k v = t := by
  rw [Tenants.withSpace, ← h, Function.update_eq_self]

theorem Sys.setProc_same (s : Sys) (i : Nat) : s.setProc i (s.procs i) = s := by
  rw [Sys.setProc, Function.update_eq_self]

/-- The process has another address space in the same page table, and another size. -/
theorem Housed.resize (h : Housed kt own s t l) {mm : Mm} {sz : Nat}
    (hused : (s.procs i).state ≠ .unused)
    (hestate : Estate kt own mm (t.withSpace (some i) (some ((s.procs i).pagetable, sp'))) l')
    (hsz : sz ≤ userLimit) :
    Housed kt own ({ s with mm := mm }.setProc i { s.procs i with sz := sz })
      (t.withSpace (some i) (some ((s.procs i).pagetable, sp'))) l' := by
  obtain ⟨⟨b, hframe⟩, _, _, hkstack⟩ := h.tenant hused
  exact h.setSlot (q := { s.procs i with sz := sz }) hestate (fun _ _ => rfl)
    (fun k hk => Tenants.withSpace_of_ne hk _)
    (.tenant hused hframe (Tenants.withSpace_self _) hsz hkstack) rfl rfl rfl

/-- What is known behind `sys_brk`, which returned `n`. -/
structure BrkDone (kt : Nat) (own : Nat → Prop) (s : Sys) (t : Tenants (Option Nat))
    (l : List Nat) (i addr : Nat) (sp : Space) (n : Nat) (s' : Sys) (sp' : Space)
    (l' : List Nat) : Prop where
  run : sysBrk addr s = (.ok (n : Int), s')
  sz : (s'.procs i).sz = n
  ends : BrkEnds sp (s.procs i).sz addr n sp'
  housed : Housed kt own s' (t.withSpace (some i) (some ((s.procs i).pagetable, sp'))) l'
  step : EstateStep kt own s.mm t l s'.mm
    (t.withSpace (some i) (some ((s.procs i).pagetable, sp'))) l'
  satp : s'.mm.satp = s.mm.satp

/-- `sys_brk` adds or removes pages of the process, and moves its break when all of them
could be added; nobody else notices. -/
theorem sysBrk_housed (h : Housed kt own s t l) (hcur : s.current = some i)
    (hused : (s.procs i).state ≠ .unused)
    (hspace : t.space (some i) = some ((s.procs i).pagetable, sp)) (addr : Nat) :
    ∃ n s' sp' l', BrkDone kt own s t l i addr sp n s' sp' l' := by
  have hcurrent : procCurrent .inval s = (.ok i, s) := by
    unfold procCurrent
    rw [hcur]
  obtain ⟨_, _, hsz, _⟩ := h.tenant hused
  have hstays : (addr = (s.procs i).sz ∨ addr < userBase ∨ userStackBase < addr) →
      sysBrk addr s = (.ok ((s.procs i).sz : Int), s) →
      BrkDone kt own s t l i addr sp (s.procs i).sz s sp l := fun hout hrun =>
    ⟨hrun, rfl, .stays hout, (Tenants.withSpace_same hspace).symm ▸ h,
      (Tenants.withSpace_same hspace).symm ▸ EstateStep.refl h.estate, rfl⟩
  -- the size that is stored behind a change of the address space
  have hmoves : ∀ n mm sp' l', n ≤ userLimit →
      SpaceStep kt s.mm (s.procs i).pagetable sp l mm sp' l' →
      BrkEnds sp (s.procs i).sz addr n sp' →
      sysBrk addr s = (.ok (n : Int), { s with mm := mm }.setProc i { s.procs i with sz := n }) →
      ∃ n s' sp' l', BrkDone kt own s t l i addr sp n s' sp' l' := by
    intro n mm sp' l' hn hstep hends hrun
    have halter := h.estate.alter hspace hstep
    refine ⟨n, _, sp', l', hrun, ?_, hends, h.resize hused halter.estate hn, halter, hstep.satp⟩
    exact congrArg Proc.sz (Sys.setProc_self { s with mm := mm } i _)
  by_cases hout : addr = 0 ∨ addr < userBase ∨ userStackBase < addr
  · have hbase : 0 < userBase := by decide
    refine ⟨_, _, _, _, hstays (by omega) ?_⟩
    rw [sysBrk, Prog.bind_ok hcurrent, Prog.get_bind, if_pos hout, Prog.pure_apply]
  obtain ⟨hbase, hlimit⟩ : userBase ≤ addr ∧ addr ≤ userStackBase := by omega
  have hperm : IsUserPerm (pteR ||| pteW ||| pteU) := ⟨by decide, by decide, by decide⟩
  have haddr : addr ≤ userLimit := hlimit.trans (by decide)
  rcases Nat.lt_trichotomy (s.procs i).sz addr with hlt | heq | hlt
  · obtain ⟨r, mm, sp', l', k, hrun, hstep, hadded, hends⟩ :=
      uvmAlloc_spec (h.estate.held hspace) hperm hlt hlimit
    have hmm : onMm (uvmAlloc (s.procs i).pagetable (s.procs i).sz addr (pteR ||| pteW ||| pteU)) s =
        (r, { s with mm := mm }) := onMm_run hrun
    rcases hends with ⟨rfl, rfl⟩ | ⟨rfl, hk⟩
    · refine hmoves addr mm sp' l' haddr hstep (.grows hlt hlimit hadded) ?_
      rw [sysBrk, Prog.bind_ok hcurrent, Prog.get_bind, if_neg hout, if_pos hlt,
        Prog.bind_ok (Prog.attempt_ok hmm)]
      rfl
    · refine hmoves (s.procs i).sz mm sp' l' hsz hstep (.stuck hlt hlimit hk hadded) ?_
      rw [sysBrk, Prog.bind_ok hcurrent, Prog.get_bind, if_neg hout, if_pos hlt,
        Prog.bind_ok (Prog.attempt_err hmm)]
      exact congrArg (Prod.mk _) (Sys.setProc_same { s with mm := mm } i).symm
  · refine ⟨_, _, _, _, hstays (Or.inl heq.symm) ?_⟩
    rw [sysBrk, Prog.bind_ok hcurrent, Prog.get_bind, if_neg hout, if_neg (by omega),
      if_neg (by omega), Prog.pure_apply]
  · obtain ⟨mm, sp', l', hrun, hstep, hremoved⟩ :=
      uvmDealloc_spec (h.estate.held hspace) hlt hsz
    refine hmoves addr mm sp' l' haddr hstep (.shrinks hbase hlt hremoved) ?_
    rw [sysBrk, Prog.bind_ok hcurrent, Prog.get_bind, if_neg hout, if_neg (by omega),
      if_pos hlt, Prog.bind_ok (onMm_run hrun)]
    rfl

end Brk

end OsAgentLab
