/-
Memory in whole runs: every page is free or serves one process, and what a process holds
changes only while it runs, when it is made, and when it is given back.
-/
import OsAgentLab.Proc.ExecHoused
import OsAgentLab.Proc.ProcessTable
import OsAgentLab.Proc.WaitRun

namespace OsAgentLab

namespace Run

variable {kt : Nat} {own : Nat → Prop} {r r' : Run} {t t' : Tenants (Option Nat)}
  {l l' : List Nat} {i k : Nat} {e : Event} {s' : Sys}

section Invariant

/-- Who holds which page between two steps.  The kernel runs on its own table until the
scheduler does, then on that of the current process. -/
structure Tenancy (kt : Nat) (own : Nat → Prop) (r : Run) (t : Tenants (Option Nat))
    (l : List Nat) : Prop where
  housed : Housed kt own r.sys t l
  counted : Counted r.sys none
  booting : r.booting = true → r.sys.current = none ∧ OwnTable kt own r.sys.mm
  seated : ∀ i, r.sys.current = some i → ∃ sp, t.space (some i) = some (r.sys.mm.satp, sp)
  kstacks : ∀ k, k < nproc → ∀ x, x < kstackSize →
    own (r.sys.image.kstacks + k * kstackSize + x)

/-- The program files that the step may load are sound. -/
def Sound (e : Event) (r : Run) : Prop :=
  match e with
  | .execOn _ _ _ => SoundFiles r.sys.fs
  | .call (.exec _ _) => SoundFiles r.sys.fs
  | _ => True

/-- The step is a `proc_exec` that fails. -/
def Lossy (e : Event) (r : Run) : Prop :=
  match e with
  | .execOn i path argv => ∀ v, (procExecOn i path argv r.sys).1 ≠ .ok v
  | .call (.exec path argv) => ∀ v, (procExec path argv r.sys).1 ≠ .ok v
  | _ => False

/-- The step may change what the process in slot `k` holds: it makes the process, it gives it
back, or the process runs and changes its own memory. -/
def Touches (e : Event) (r : Run) (k : Nat) : Prop :=
  match e with
  | .alloc => procFindUnused r.sys = some k
  | .execOn i _ _ => k = i
  | .store _ _ => r.sys.current = some k
  | .call .fork => procFindUnused r.sys = some k
  | .call (.exec _ _) => r.sys.current = some k
  | .call (.brk _) => r.sys.current = some k
  | .wait pid => ∃ i, r.sys.current = some i ∧ waitZombie r.sys i pid = some k
  | _ => False

/-- What a step does to memory. -/
structure Handled (kt : Nat) (own : Nat → Prop) (r : Run) (t : Tenants (Option Nat))
    (l : List Nat) (e : Event) (s' : Sys) (t' : Tenants (Option Nat)) (l' : List Nat) :
    Prop where
  housed : Housed kt own s' t' l'
  shift : EstateShift kt own r.sys.mm t l s'.mm t' l'
  pages : ¬ Lossy e r → ∀ p, t.Page l p → t'.Page l' p
  image : s'.image = r.sys.image
  others : ∀ k, ¬ Touches e r k →
    t'.frame (some k) = t.frame (some k) ∧ t'.space (some k) = t.space (some k)

/-- A step that changes no memory. -/
theorem Handled.of_quiet (h : Tenancy kt own r t l) (hhoused : Housed kt own s' t l)
    (hmem : s'.mm.mem = r.sys.mm.mem) (hhead : s'.mm.freelist = r.sys.mm.freelist)
    (himage : s'.image = r.sys.image) : Handled kt own r t l e s' t l where
  housed := hhoused
  shift := (h.housed.estate.registers hmem hhead).shift
  pages _ _ hp := hp
  image := himage
  others _ _ := ⟨rfl, rfl⟩

/-- A step that loses no page. -/
theorem Handled.of_step (hhoused : Housed kt own s' t' l')
    (hstep : EstateStep kt own r.sys.mm t l s'.mm t' l') (himage : s'.image = r.sys.image)
    (hothers : ∀ k, ¬ Touches e r k →
      t'.frame (some k) = t.frame (some k) ∧ t'.space (some k) = t.space (some k)) :
    Handled kt own r t l e s' t' l' where
  housed := hhoused
  shift := hstep.shift
  pages _ p hp := (hstep.pages p).mpr hp
  image := himage
  others := hothers

/-- The rest of the kernel state changes as well. -/
theorem Handled.relabel {s'' : Sys} (h : Handled kt own r t l e s' t' l')
    (hhoused : Housed kt own s'' t' l') (hmem : s''.mm.mem = s'.mm.mem)
    (hhead : s''.mm.freelist = s'.mm.freelist) (himage : s''.image = s'.image) :
    Handled kt own r t l e s'' t' l' where
  housed := hhoused
  shift := h.shift.trans (h.housed.estate.registers hmem hhead).shift
  pages := h.pages
  image := himage.trans h.image
  others := h.others

namespace Tenancy

/-- The current process is in use, and `satp` names its page table. -/
theorem current (h : Tenancy kt own r t l) (hcur : r.sys.current = some i) :
    i < nproc ∧ (r.sys.procs i).state = .running ∧
      r.sys.mm.satp = (r.sys.procs i).pagetable := by
  obtain ⟨hlt, hrunning⟩ := h.counted.current i hcur
  have hused : (r.sys.procs i).state ≠ .unused := by simp [hrunning]
  obtain ⟨sp, hseat⟩ := h.seated i hcur
  obtain ⟨_, ⟨sp', hspace⟩, _⟩ := h.housed.tenant hused
  exact ⟨hlt, hrunning, (Prod.mk.inj (Option.some.inj (hseat.symm.trans hspace))).1⟩

theorem rooted_booting (h : Tenancy kt own r t l) (hboot : r.booting = true) :
    Rooted kt own r.sys.mm t :=
  Or.inr (h.booting hboot).2

theorem rooted (h : Tenancy kt own r t l) (hcur : r.sys.current = some i) :
    Rooted kt own r.sys.mm t := by
  obtain ⟨sp, hseat⟩ := h.seated i hcur
  exact Or.inl ⟨some i, sp, hseat⟩

/-- The trapframe of a system call lies on the kernel stack. -/
theorem callFrame (h : Tenancy kt own r t l) (hcur : r.sys.current = some i) :
    callFrame r.sys ≠ 0 ∧ ∀ x, x < 264 → own (callFrame r.sys + x) := by
  obtain ⟨hlt, hrunning, _⟩ := h.current hcur
  obtain ⟨_, _, _, hkstack⟩ := h.housed.tenant (k := i) (by simp [hrunning])
  have hframe : OsAgentLab.callFrame r.sys =
      r.sys.image.kstacks + i * kstackSize + (kstackSize - 264) := by
    rw [OsAgentLab.callFrame, hcur, Option.elim_some, hkstack, kstackSize]
    omega
  rw [hframe]
  refine ⟨by unfold kstackSize; omega, fun x hx => ?_⟩
  rw [Nat.add_assoc]
  exact h.kstacks i hlt _ (by unfold kstackSize; omega)

end Tenancy

/-- A process that has pages is in use. -/
theorem used_of_space {s : Sys} {v : Nat × Space} (h : Housed kt own s t l)
    (hspace : t.space (some k) = some v) : (s.procs k).state ≠ .unused := by
  intro hunused
  rw [(h.vacant hunused).2] at hspace
  cases hspace

end Invariant

section Calls

/-- What `proc_exec` does to memory, for the process in slot `i`. -/
theorem handled_of_exec {A : List CName → Prop} {v : Outcome Errno Int} (htouch : Touches e r i)
    (hlossy : (∀ a, v ≠ .ok a) → Lossy e r)
    (himage : s'.image = r.sys.image) (hdone : ExecDone kt own r.sys t l i A (v, s')) :
    ∃ t' l', Handled kt own r t l e s' t' l' ∧
      (t' = t ∧ s'.mm.satp = r.sys.mm.satp ∨ ∃ newpt sp, t'.space (some i) = some (newpt, sp) ∧
        s'.mm.satp = if r.sys.current = some i then newpt else r.sys.mm.satp) := by
  obtain ⟨t', l', hhoused, hends⟩ := hdone
  refine ⟨t', l', ?_⟩
  have hends' : ExecEnds kt own r.sys t l i A v s' t' l' := hends
  cases hends' with
  | @replaced u newpt sz entry va vn b sp args l' hargs hstep hprocs hladen hentry hframe hsatp =>
      refine ⟨.of_step hhoused hstep himage fun k hk => ?_,
        Or.inr ⟨newpt, sp, Tenants.withSpace_self _, hsatp⟩⟩
      have hki : some k ≠ some i := fun heq => hk (Option.some.inj heq ▸ htouch)
      exact ⟨Tenants.withFrame_of_ne hki _, Tenants.withSpace_of_ne hki _⟩
  | kept hr hprocs hshift hsatp =>
      refine ⟨⟨hhoused, hshift, fun hnot => ?_, himage, fun _ _ => ⟨rfl, rfl⟩⟩, Or.inl ⟨rfl, hsatp⟩⟩
      exact absurd (hlossy hr) hnot

/-- What a call of the current process does. -/
theorem Tenancy.call {c : Call} {v : Outcome Errno Int} (h : Tenancy kt own r t l) (hkt : IsPage kt)
    (hcur : r.sys.current = some i) (hsound : Sound (.call c) r) (hrun : c.run r.sys = (v, s')) :
    ∃ t' l', Handled kt own r t l (.call c) s' t' l' ∧
      ∃ sp, t'.space (some i) = some (s'.mm.satp, sp) := by
  obtain ⟨_, hrunning, hsatp⟩ := h.current hcur
  obtain ⟨sp, hseat⟩ := h.seated i hcur
  have hused : (r.sys.procs i).state ≠ .unused := by simp [hrunning]
  have hfiles : ∀ m : SysM Int, Prog.Keeps (OnlyFiles r.sys) m → m r.sys = (v, s') →
      ∃ t' l', Handled kt own r t l (.call c) s' t' l' ∧
        ∃ sp, t'.space (some i) = some (s'.mm.satp, sp) := by
    intro m hm hrun
    have hsame := hm.returns (.refl r.sys) hrun
    exact ⟨t, l, .of_quiet h (h.housed.onlyFiles hsame) (by rw [hsame.mm]) (by rw [hsame.mm])
      hsame.image, sp, by rw [hsame.mm, hseat]⟩
  cases c with
  | openat dirfd path flags => exact hfiles _ (sysOpenat_onlyFiles _ _ _) hrun
  | close fd => exact hfiles _ (sysClose_onlyFiles fd) hrun
  | dup fd => exact hfiles _ (sysDup_onlyFiles fd) hrun
  | dup3 oldfd newfd => exact hfiles _ (sysDup3_onlyFiles oldfd newfd) hrun
  | fork =>
      obtain ⟨htf, hown⟩ := h.callFrame hcur
      obtain ⟨v', s₁, t', l', hrun', hhoused, hstep, hsatp', himage, hends⟩ :=
        procFork_housed h.housed hkt hcur hused (h.rooted hcur) htf hown
      obtain ⟨rfl, rfl⟩ := Prod.mk.inj (hrun'.symm.trans hrun)
      cases hends with
      | failed =>
          exact ⟨t, l', .of_step hhoused hstep himage fun _ _ => ⟨rfl, rfl⟩, sp, by rw [hsatp', hseat]⟩
      | @child s₁ j p pt b src sp' hslot hready hparent hsrc hforked hsz htf =>
          have hij : some i ≠ some j := by
            intro heq
            obtain rfl := Option.some.inj heq
            exact hused (procFindUnused_some hslot).2
          refine ⟨_, l', .of_step hhoused hstep himage fun k hk => ?_, sp, ?_⟩
          · have hkj : some k ≠ some j := fun heq => hk (Option.some.inj heq ▸ hslot)
            exact ⟨Tenants.withFrame_of_ne hkj _, Tenants.withSpace_of_ne hkj _⟩
          · rw [hsatp', ← hseat]
            exact Tenants.withSpace_of_ne hij _
  | exec path argv =>
      have hdone := procExec_housed h.housed hkt hcur hused (h.rooted hcur) hsound path argv
      have hsame := (procExec_sameProcs path argv).returns (.refl r.sys) hrun
      have hrun' : procExec path argv r.sys = (v, s') := hrun
      rw [hrun'] at hdone
      obtain ⟨t', l', hhandled, hseats⟩ := handled_of_exec (e := .call (.exec path argv)) hcur
        (fun hfails v => by rw [hrun']; exact hfails v) hsame.image hdone
      refine ⟨t', l', hhandled, ?_⟩
      rcases hseats with ⟨rfl, hsatp'⟩ | ⟨newpt, sp', hspace, hsatp'⟩
      · rw [hsatp', hseat]
        exact ⟨sp, rfl⟩
      · rw [hsatp', if_pos hcur, hspace]
        exact ⟨sp', rfl⟩
  | brk addr =>
      obtain ⟨n, s₁, sp', l', hdone⟩ := sysBrk_housed h.housed hcur hused (hsatp ▸ hseat) addr
      obtain ⟨rfl, rfl⟩ := Prod.mk.inj (hdone.run.symm.trans hrun)
      have hsame := (sysBrk_sameProcs addr).returns (.refl r.sys) hrun
      refine ⟨_, l', .of_step hdone.housed hdone.step hsame.image fun k hk => ?_, sp', ?_⟩
      · have hki : some k ≠ some i := fun heq => hk (Option.some.inj heq ▸ hcur)
        exact ⟨rfl, Tenants.withSpace_of_ne hki _⟩
      · rw [hdone.satp, hsatp]
        exact Tenants.withSpace_self _

end Calls

section Steps

/-- A store of the current process changes its own memory only. -/
theorem Tenancy.store {va pa : Nat} (h : Tenancy kt own r t l) (byte : UInt8)
    (hcur : r.sys.current = some i) (hva : va < userLimit)
    (hwalk : walkaddr (r.sys.procs i).pagetable va r.sys.mm = (.ok pa, r.sys.mm)) (hpa : pa ≠ 0) :
    ∃ t', Handled kt own r t l (.store va byte) { r.sys with
        mm := { r.sys.mm with mem := Function.update r.sys.mm.mem pa byte } } t' l ∧
      ∃ sp, t'.space (some i) = some (r.sys.mm.satp, sp) := by
  obtain ⟨_, hrunning, hsatp⟩ := h.current hcur
  obtain ⟨sp, hseat⟩ := h.seated i hcur
  have hused : (r.sys.procs i).state ≠ .unused := by simp [hrunning]
  obtain ⟨_, _, hsz, _⟩ := h.housed.tenant hused
  rw [hsatp] at hseat
  have hheld := h.housed.estate.held hseat
  have hlow : LowVa va := Nat.lt_trans hva (by decide)
  have huser := userPa_of_run hwalk
  cases hu : sp.page (va / 4096) with
  | none => exact absurd (huser.symm.trans (userPa_none hheld hlow hu)) hpa
  | some u =>
      have heq : pa = u.pa + va % 4096 := huser.symm.trans (userPa_page hheld hlow hu).1
      have hstep : SpaceStep kt r.sys.mm _ sp l
          (r.sys.mm.storeAt (u.pa + va % 4096) [byte].length [byte]) (sp.put va [byte]) l :=
        hheld.storePage hu (show va % 4096 + 1 ≤ 4096 by omega)
      have hmem : r.sys.mm.storeAt (u.pa + va % 4096) [byte].length [byte] =
          { r.sys.mm with mem := Function.update r.sys.mm.mem pa byte } := by
        refine congrArg (fun m => { r.sys.mm with mem := m }) (funext fun x => ?_)
        by_cases hx : x = pa
        · rw [hx, Function.update_self, heq, overlay_of_mem ⟨Nat.le_refl _, Nat.lt_succ_self _⟩]
          rw [Nat.sub_self]
          rfl
        · rw [Function.update_of_ne hx, overlay_of_not_mem]
          have hone : [byte].length = 1 := rfl
          omega
      rw [hmem] at hstep
      have halter := h.housed.estate.alter hseat hstep
      have hhoused := h.housed.resize hused halter.estate hsz
      have hsame := Sys.setProc_same { r.sys with
        mm := { r.sys.mm with mem := Function.update r.sys.mm.mem pa byte } } i
      refine ⟨_, .of_step ?_ halter rfl fun k hk => ?_, sp.put va [byte], ?_⟩
      · rw [← hsame]
        exact hhoused
      · have hki : some k ≠ some i := fun heq => hk (Option.some.inj heq ▸ hcur)
        exact ⟨rfl, Tenants.withSpace_of_ne hki _⟩
      · rw [hsatp]
        exact Tenants.withSpace_self _

/-- `proc_alloc` in `kernel_main`. -/
theorem Tenancy.alloc {np : Option Nat} (h : Tenancy kt own r t l) (hboot : r.booting = true)
    (hrun : procAlloc r.sys = (.ok np, s')) :
    ∃ t' l', Handled kt own r t l .alloc s' t' l' ∧ s'.mm.satp = r.sys.mm.satp := by
  have hhoused := h.housed
  have hroot := h.rooted_booting hboot
  cases hfind : procFindUnused r.sys with
  | none =>
      have halloc : procAlloc r.sys = (.ok none, r.sys) := by
        rw [procAlloc, Prog.get_bind, hfind, Option.elim_none, Prog.pure_apply]
      obtain ⟨_, rfl⟩ := Prod.mk.inj (halloc.symm.trans hrun)
      exact ⟨t, l, .of_quiet h hhoused rfl rfl rfl, rfl⟩
  | some j =>
      obtain ⟨hframe, hspace⟩ := hhoused.vacant (procFindUnused_some hfind).2
      by_cases hshort : l.length < 3
      · obtain ⟨mm, l', q, hrun', hq, hsatp, hstep⟩ :=
          procAlloc_full hfind hhoused.estate hframe hshort
        obtain ⟨_, rfl⟩ := Prod.mk.inj (hrun'.symm.trans hrun)
        refine ⟨t, l', .of_step ?_ hstep rfl fun _ _ => ⟨rfl, rfl⟩, hsatp⟩
        exact hhoused.setSlot hstep.estate (fun _ _ => rfl) (fun _ _ => rfl)
          (.vacant hq hframe hspace) rfl rfl rfl
      · obtain ⟨p, pt, low, l, rfl⟩ := exists_three hshort
        obtain ⟨mm, hrun', hsatp, hstep⟩ :=
          procAlloc_made hfind hhoused.estate hframe hspace hroot
        obtain ⟨_, rfl⟩ := Prod.mk.inj (hrun'.symm.trans hrun)
        refine ⟨_, l, .of_step ?_ hstep rfl fun k hk => ?_, hsatp⟩
        · exact hhoused.setSlot (q := Proc.fresh r.sys j p pt) hstep.estate
            (fun k hk => Tenants.withFrame_of_ne hk _)
            (fun k hk => Tenants.withSpace_of_ne hk _)
            (.tenant (fun h => by cases h) (Tenants.withFrame_self _) (Tenants.withSpace_self _)
              (Nat.zero_le _) rfl) rfl rfl rfl
        · have hkj : some k ≠ some j := fun heq => hk (Option.some.inj heq ▸ hfind)
          exact ⟨Tenants.withFrame_of_ne hkj _, Tenants.withSpace_of_ne hkj _⟩

/-- `proc_exec_on` in `kernel_main`. -/
theorem Tenancy.execOn {path : CName} {argv : Option (List CName)} {v : Outcome Errno Int}
    (h : Tenancy kt own r t l) (hkt : IsPage kt) (hboot : r.booting = true)
    (hused : (r.sys.procs i).state = .used) (hsound : SoundFiles r.sys.fs)
    (hrun : procExecOn i path argv r.sys = (v, s')) :
    ∃ t' l', Handled kt own r t l (.execOn i path argv) s' t' l' ∧ s'.current = none ∧
      OwnTable kt own s'.mm := by
  obtain ⟨hidle, htable⟩ := h.booting hboot
  have hsame := (procExecCommon_sameProcs i path argv).returns (.refl r.sys) hrun
  have hdone := procExecCommon_housed h.housed hkt (i := i) (by simp [hused])
    (h.rooted_booting hboot) hsound path argv
  have hrun' : procExecCommon i path argv r.sys = (v, s') := hrun
  rw [hrun'] at hdone
  obtain ⟨t', l', hhandled, hseats⟩ := handled_of_exec (e := .execOn i path argv) rfl
    (fun hfails v => by rw [hrun]; exact hfails v) hsame.image hdone
  have hsatp : s'.mm.satp = r.sys.mm.satp := by
    rcases hseats with ⟨_, hsatp⟩ | ⟨newpt, sp, _, hsatp⟩
    · exact hsatp
    · rwa [hidle, if_neg (by simp)] at hsatp
  exact ⟨t', l', hhandled, hsame.current.trans hidle,
    htable.kept h.housed.estate hhandled.shift hsatp⟩

/-- `proc_wait` gives back a zombie, or it changes nothing. -/
theorem Tenancy.reap {pid : Int} {v : Outcome Errno (Option (Int × Int))}
    (h : Tenancy kt own r t l) (hkt : IsPage kt) (hcur : r.sys.current = some i)
    (hrun : procWaitPass i pid r.sys = (v, s')) :
    ∃ t' l', Handled kt own r t l (.wait pid) s' t' l' ∧ s'.mm.satp = r.sys.mm.satp ∧
      t'.space (some i) = t.space (some i) := by
  obtain ⟨_, hrunning, _⟩ := h.current hcur
  cases hzombie : waitZombie r.sys i pid with
  | none =>
      have hsame : s' = r.sys := by
        rw [procWaitPass_none hzombie] at hrun
        split at hrun
        · exact (Prod.mk.inj hrun).2.symm
        · exact (Prod.mk.inj hrun).2.symm
      subst hsame
      exact ⟨t, l, .of_quiet h h.housed rfl rfl rfl, rfl, rfl⟩
  | some c =>
      have hstate := (waitZombie_some hzombie).2.2.2
      obtain ⟨s₁, l', hreap, hhoused, hstep, hsatp, himage⟩ :=
        procReap_housed h.housed hkt (c := c) (by simp [hstate])
      have hpass : procWaitPass i pid r.sys =
          (.ok (some ((r.sys.procs c).pid, (r.sys.procs c).exitStatus)), s₁) := by
        rw [procWaitPass, Prog.get_bind, hzombie, Option.elim_some, Prog.bind_ok hreap,
          Prog.pure_apply]
      obtain ⟨_, rfl⟩ := Prod.mk.inj (hpass.symm.trans hrun)
      have hic : some i ≠ some c := by
        intro heq
        obtain rfl := Option.some.inj heq
        rw [hrunning] at hstate
        cases hstate
      refine ⟨_, l', .of_step hhoused hstep himage fun k hk => ?_, hsatp, ?_⟩
      · have hkc : some k ≠ some c := fun heq => hk ⟨i, hcur, Option.some.inj heq ▸ hzombie⟩
        exact ⟨Tenants.withFrame_of_ne hkc _, Tenants.withSpace_of_ne hkc _⟩
      · exact Tenants.withSpace_of_ne hic _

/-- A step that says who is current afterwards. -/
theorem Tenancy.after (h : Tenancy kt own r t l) (hhandled : Handled kt own r t l e r'.sys t' l')
    (hcounted : Counted r'.sys none)
    (hbooting : r'.booting = true → r'.sys.current = none ∧ OwnTable kt own r'.sys.mm)
    (hseated : ∀ i, r'.sys.current = some i → ∃ sp, t'.space (some i) = some (r'.sys.mm.satp, sp)) :
    Tenancy kt own r' t' l' where
  housed := hhandled.housed
  counted := hcounted
  booting := hbooting
  seated := hseated
  kstacks := hhandled.image ▸ h.kstacks

/-- Every step keeps the books, and changes what a process holds only as it may. -/
theorem Step.tenancy (h : Tenancy kt own r t l) (hkt : IsPage kt) (hsound : Sound e r)
    (hstep : Step r e r') :
    ∃ t' l', Tenancy kt own r' t' l' ∧ Handled kt own r t l e r'.sys t' l' := by
  have hcounted := hstep.counted h.counted
  -- the scheduler runs already when there is a current process
  have hrunning : ∀ {i b} {P : Prop}, r.sys.current = some i → r.booting = b → b = true → P := by
    rintro i _ P hcur rfl hb
    rw [(h.booting hb).1] at hcur
    cases hcur
  have hnobody : ∀ {s : Sys} {t' : Tenants (Option Nat)}, s.current = none →
      ∀ i, s.current = some i → ∃ sp, t'.space (some i) = some (s.mm.satp, sp) := by
    intro s t' hidle i hcur
    rw [hidle] at hcur
    cases hcur
  cases hstep with
  | @alloc np s' hboot hrun =>
      obtain ⟨t', l', hhandled, hsatp⟩ := h.alloc hboot hrun
      obtain ⟨hidle, htable⟩ := h.booting hboot
      have hidle' : s'.current = none := procAlloc_current.returns hidle hrun
      exact ⟨t', l', h.after hhandled hcounted
        (fun _ => ⟨hidle', htable.kept h.housed.estate hhandled.shift hsatp⟩) (hnobody hidle'),
        hhandled⟩
  | @execOn i path argv v s' hboot hlt hused hrun =>
      obtain ⟨t', l', hhandled, hidle, htable⟩ := h.execOn hkt hboot hused hsound hrun
      have hsame := (procExecCommon_sameProcs i path argv).ok (.refl r.sys) hrun
      have hused' : (s'.procs i).state ≠ .unused := by simp [hsame.state, hused]
      have hhandled' : Handled kt own r t l (.execOn i path argv) (s'.setState i .runnable) t' l' :=
        hhandled.relabel (hhandled.housed.setProc hused' (fun h => by cases h) rfl rfl rfl rfl)
          rfl rfl rfl
      exact ⟨t', l', h.after hhandled' hcounted (fun _ => ⟨hidle, htable⟩) (hnobody hidle), hhandled'⟩
  | @execOnFails i path argv er s' hboot hlt hused hrun =>
      obtain ⟨t', l', hhandled, hidle, htable⟩ := h.execOn hkt hboot hused hsound hrun
      exact ⟨t', l', h.after hhandled hcounted (fun _ => ⟨hidle, htable⟩) (hnobody hidle), hhandled⟩
  | @schedule i hlt hidle hready =>
      obtain ⟨_, ⟨sp, hspace⟩, _⟩ := h.housed.tenant (k := i) (by simp [hready])
      have hhoused : Housed kt own (r.sys.setState i .running) t l :=
        h.housed.setProc (by simp [hready]) (fun h => by cases h) rfl rfl rfl rfl
      have hhandled : Handled kt own r t l (.schedule i) { r.sys.setState i .running with
          current := some i
          mm := { r.sys.mm with satp := (r.sys.procs i).pagetable } } t l :=
        .of_quiet h ((hhoused.withCurrent (some i)).registers rfl rfl) rfl rfl rfl
      refine ⟨t, l, h.after hhandled hcounted (fun hboot => by cases hboot) fun j hj => ?_, hhandled⟩
      obtain rfl := Option.some.inj hj
      exact ⟨sp, hspace⟩
  | @preempt i s' hcur hwait hrun =>
      obtain rfl : { r.sys.unrun i with current := none } = s' := (Prod.mk.inj hrun).2
      have hhandled : Handled kt own r t l .preempt { r.sys.unrun i with current := none } t l :=
        .of_quiet h (h.housed.unrun.withCurrent none) (by rw [Sys.unrun_mm]) (by rw [Sys.unrun_mm])
          (Sys.unrun_image _ _)
      exact ⟨t, l, h.after hhandled hcounted (hrunning hcur rfl) (hnobody rfl), hhandled⟩
  | @store i va pa byte hcur hwait hva hwalk hpa =>
      obtain ⟨t', hhandled, hseat⟩ := h.store byte hcur hva hwalk hpa
      refine ⟨t', l, h.after hhandled hcounted (hrunning hcur rfl) fun j hj => ?_, hhandled⟩
      obtain rfl := Option.some.inj (hcur.symm.trans hj)
      exact hseat
  | @call i c v s' hcur hwait hrun hreturns =>
      obtain ⟨t', l', hhandled, hseat⟩ := h.call hkt hcur hsound hrun
      have hcur' : s'.current = some i := (Call.run_current c).returns hcur hrun
      refine ⟨t', l', h.after hhandled hcounted (hrunning hcur rfl) fun j hj => ?_, hhandled⟩
      obtain rfl := Option.some.inj (hcur'.symm.trans hj)
      exact hseat
  | @trap i c s' s'' hcur hwait hrun hexit =>
      obtain ⟨t', l', hhandled, sp, hspace⟩ := h.call hkt hcur hsound hrun
      obtain ⟨hhoused, hmm, himage⟩ :=
        procExit_housed hhandled.housed (used_of_space hhandled.housed hspace) hexit
      have hhandled' := hhandled.relabel hhoused (by rw [hmm]) (by rw [hmm]) himage
      exact ⟨t', l', h.after hhandled' hcounted (hrunning hcur rfl) (hnobody (procExit_link hexit).1),
        hhandled'⟩
  | @exit i status s' hcur hwait hrun =>
      have hused : (r.sys.procs i).state ≠ .unused := by simp [(h.current hcur).2.1]
      obtain ⟨hhoused, hmm, himage⟩ := procExit_housed h.housed hused hrun
      have hhandled : Handled kt own r t l (.exit status) s' t l :=
        .of_quiet h hhoused (by rw [hmm]) (by rw [hmm]) himage
      exact ⟨t, l, h.after hhandled hcounted (hrunning hcur rfl) (hnobody (procExit_link hrun).1),
        hhandled⟩
  | @wait i pid v s' hcur hwait hrun hreturns hdone =>
      obtain ⟨t', l', hhandled, hsatp, hspace⟩ := h.reap hkt hcur hrun
      have hcur' : s'.current = some i := (procWaitPass_current i pid).returns hcur hrun
      refine ⟨t', l', h.after hhandled hcounted (hrunning hcur rfl) fun j hj => ?_, hhandled⟩
      obtain rfl := Option.some.inj (hcur'.symm.trans hj)
      rw [hsatp, hspace]
      exact h.seated i hcur
  | @waitYields i pid s' s'' hcur hwait hrun hyield =>
      obtain ⟨t', l', hhandled, _⟩ := h.reap hkt hcur hrun
      obtain rfl : { s'.unrun i with current := none } = s'' := (Prod.mk.inj hyield).2
      have hhandled' : Handled kt own r t l (.wait pid) { s'.unrun i with current := none } t' l' :=
        hhandled.relabel (hhandled.housed.unrun.withCurrent none) (by rw [Sys.unrun_mm])
          (by rw [Sys.unrun_mm]) (Sys.unrun_image _ _)
      exact ⟨t', l', h.after hhandled' hcounted (hrunning hcur rfl) (hnobody rfl), hhandled'⟩

end Steps

end Run

end OsAgentLab
