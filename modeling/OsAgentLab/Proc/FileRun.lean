/-
The reference counts of open files in whole runs.
-/
import OsAgentLab.Fat32.CreateLookup
import OsAgentLab.Proc.CallCounts
import OsAgentLab.Proc.FileFrame
import OsAgentLab.Proc.Run

namespace OsAgentLab

variable {s : Sys} {α : Type}

section Current

/-- `g_current` keeps its value. -/
def CurrentIs (cur : Option Nat) (s : Sys) : Prop := s.current = cur

variable {cur : Option Nat}

theorem onMm_current (m : Vm α) : Prog.Keeps (CurrentIs cur) (onMm m) :=
  Prog.Keeps.zoom fun _ _ h => h

theorem keeps_current_of_onlyFiles {m : SysM α} (h : ∀ s, Prog.Keeps (OnlyFiles s) m) :
    Prog.Keeps (CurrentIs cur) m := by
  intro s hs
  exact (h s).conseq (fun _ => id) (fun _ _ hsame => hsame.current.trans hs)
    (fun _ _ hsame => hsame.current.trans hs) (fun _ hsame => hsame.current.trans hs) s (.refl s)

theorem keeps_current_of_sameProcs {m : SysM α} (h : ∀ s, Prog.Keeps (SameProcs s) m) :
    Prog.Keeps (CurrentIs cur) m := by
  intro s hs
  exact (h s).conseq (fun _ => id) (fun _ _ hsame => hsame.current.trans hs)
    (fun _ _ hsame => hsame.current.trans hs) (fun _ hsame => hsame.current.trans hs) s (.refl s)

theorem procAlloc_current : Prog.Keeps (CurrentIs cur) procAlloc := by
  have hdrop : ∀ i, Prog.Keeps (CurrentIs cur) (procDrop i) := fun i =>
    Prog.Keeps.bind (Prog.Keeps.modify fun _ h => h) fun _ => Prog.Keeps.pure _
  refine Prog.Keeps.get_bind fun t => Prog.Keeps.elim (Prog.Keeps.pure _) fun i => ?_
  refine Prog.Keeps.bind (Prog.Keeps.modify fun _ h => h) fun _ => ?_
  refine Prog.Keeps.bind (onMm_current _) fun tf => Prog.Keeps.elim (hdrop i) fun tf => ?_
  refine Prog.Keeps.bind (Prog.Keeps.modify fun _ h => h) fun _ => ?_
  refine Prog.Keeps.bind (onMm_current _) fun pt => Prog.Keeps.elim ?_ fun pt => ?_
  · exact Prog.Keeps.bind (onMm_current _) fun _ => hdrop i
  · exact Prog.Keeps.bind (Prog.Keeps.modify fun _ h => h) fun _ => Prog.Keeps.pure _

theorem procFork_current (tf : Nat) : Prog.Keeps (CurrentIs cur) (procFork tf) := by
  refine Prog.Keeps.bind (procCurrent_keeps _) fun i => ?_
  refine Prog.Keeps.bind procAlloc_current fun np => ?_
  refine Prog.Keeps.elim (Prog.Keeps.fail _) fun j => Prog.Keeps.bind ?_ fun _ => ?_
  · refine Prog.Keeps.get_bind fun t => Prog.Keeps.onErr (onMm_current _) fun e => ?_
    refine Prog.Keeps.bind (onMm_current _) fun _ => Prog.Keeps.bind (onMm_current _) fun _ => ?_
    exact Prog.Keeps.bind (Prog.Keeps.modify fun _ h => h) fun _ => Prog.Keeps.fail _
  refine Prog.Keeps.bind (Prog.Keeps.modify fun _ h => h) fun _ => Prog.Keeps.get_bind fun t => ?_
  refine Prog.Keeps.bind (onMm_current _) fun _ => ?_
  refine Prog.Keeps.bind (Prog.Keeps.modify fun _ h => h) fun _ => ?_
  refine Prog.Keeps.bind (Prog.Keeps.forCount (fun fd => ?_) _ _) fun _ => ?_
  · refine Prog.Keeps.get_bind fun t => Prog.Keeps.elim (Prog.Keeps.pure _) fun f => ?_
    exact Prog.Keeps.bind (Prog.Keeps.modify fun _ h => h) fun _ => Prog.Keeps.modify fun _ h => h
  refine Prog.Keeps.bind (Prog.Keeps.modify fun _ h => h) fun _ => ?_
  exact Prog.Keeps.get_bind fun t => Prog.Keeps.pure _

/-- No call switches to another process. -/
theorem Call.run_current (c : Call) : Prog.Keeps (CurrentIs cur) c.run := by
  cases c with
  | openat dirfd path flags => exact keeps_current_of_onlyFiles fun _ => sysOpenat_onlyFiles _ _ _
  | close fd => exact keeps_current_of_onlyFiles fun _ => sysClose_onlyFiles fd
  | dup fd => exact keeps_current_of_onlyFiles fun _ => sysDup_onlyFiles fd
  | dup3 oldfd newfd => exact keeps_current_of_onlyFiles fun _ => sysDup3_onlyFiles oldfd newfd
  | fork => exact fun s h => procFork_current _ s h
  | exec path argv => exact keeps_current_of_sameProcs fun _ => procExec_sameProcs path argv
  | brk addr => exact keeps_current_of_sameProcs fun _ => sysBrk_sameProcs addr

end Current

theorem Call.run_counted (c : Call) : Prog.Keeps (fun s => Counted s none) c.run := by
  cases c with
  | openat dirfd path flags => exact sysOpenat_counted _ _ _
  | close fd => exact sysClose_counted fd
  | dup fd => exact sysDup_counted fd
  | dup3 oldfd newfd => exact sysDup3_counted oldfd newfd
  | fork => exact fun s h => procFork_counted _ s h
  | exec path argv => exact keeps_counted_of_sameProcs fun _ => procExec_sameProcs _ _
  | brk addr => exact keeps_counted_of_sameProcs fun _ => sysBrk_sameProcs _

/-- Every call that comes back keeps what it keeps however it ends. -/
theorem Prog.Keeps.returns {I : Sys → Prop} {m : SysM α} (h : Prog.Keeps I m) {s s' : Sys}
    {v : Outcome Errno α} (hs : I s) (hrun : m s = (v, s')) : I s' := by
  have hpost := h s hs
  rw [hrun] at hpost
  cases v <;> exact hpost

/-- The run of a call is known already. -/
theorem of_run {m : SysM α} {a : α} {s s' : Sys} {P : Sys → Prop}
    (h : ∃ s', m s = (.ok a, s') ∧ P s') (hrun : m s = (.ok a, s')) : P s' := by
  obtain ⟨s'', hrun', hp⟩ := h
  rw [hrun'] at hrun
  obtain rfl : s'' = s' := (Prod.mk.inj hrun).2
  exact hp

namespace Run

variable {r r' : Run}

theorem Initial.counted (h : Initial r) : Counted r.sys none where
  ref f _ := by
    have hnone : pointing descriptors r.sys.holds f = 0 := by
      rw [pointing, Finset.card_eq_zero, Finset.filter_eq_empty_iff]
      intro d _ hd
      rw [Sys.holds, h.procs] at hd
      cases hd
    rw [h.refs, hnone]
    rfl
  used f _ := by
    rw [h.unused, h.refs]
    decide
  lt d _ f hf := by
    rw [Sys.holds, h.procs] at hf
    cases hf
  idle d _ _ := by
    rw [Sys.holds, h.procs]
    rfl
  current i hi := by
    rw [h.current] at hi
    cases hi

/-- Every step of the kernel keeps the counts. -/
theorem Step.counted {e : Event} (h : Counted r.sys none) (hstep : Step r e r') :
    Counted r'.sys none := by
  cases hstep with
  | alloc hboot hrun => exact ((@procAlloc_counted r.sys.current).ok ⟨h, rfl⟩ hrun).1.1
  | @execOn i _ _ _ s' hboot hlt hused hrun =>
      have hsame := (procExecCommon_sameProcs _ _ _).ok (.refl r.sys) hrun
      refine (h.sameProcs hsame).setProc rfl (fun hidle => ?_) fun hcur => ?_
      · simp at hidle
      · have hrunning := (h.current i (hsame.current ▸ hcur)).2
        rw [hused] at hrunning
        cases hrunning
  | execOnFails hboot hlt hused hrun =>
      exact h.sameProcs ((procExecCommon_sameProcs _ _ _).err (.refl r.sys) hrun)
  | @schedule i hlt hidle hready =>
      have hholds : (r.sys.setState i .running).holds = r.sys.holds := Sys.holds_setProc rfl
      refine h.frame rfl (fun d _ => congrFun hholds d) (fun d hd hstate => ?_) fun j hj => ?_
      · by_cases hdi : d.1 = i
        · simp [Sys.setState, hdi] at hstate
        · simp only [Sys.setState, Sys.setProc_of_ne r.sys hdi] at hstate
          exact h.idle d hd hstate
      · obtain rfl : i = j := Option.some.inj hj
        exact ⟨hlt, by simp [Sys.setState]⟩
  | @preempt i _ hcur hwait hrun => exact of_run (procYield_counted i h) hrun
  | store hcur hwait hva hwalk hpa => exact h.withMm _
  | call hcur hwait hrun hreturns => exact (Call.run_counted _).returns h hrun
  | trap hcur hwait hrun hexit =>
      have hcounted := (Call.run_counted _).returns h hrun
      have hcurrent := (Call.run_current _).returns hcur hrun
      exact of_run (procExit_counted _ ⟨hcounted, hcurrent⟩) hexit
  | exit hcur hwait hrun => exact of_run (procExit_counted _ ⟨h, hcur⟩) hrun
  | wait hcur hwait hrun hreturns hdone => exact (procWaitPass_counted _ _).returns h hrun
  | waitYields hcur hwait hrun hyield =>
      exact of_run (procYield_counted _ ((procWaitPass_counted _ _).returns h hrun)) hyield

/-- The kernel when `proc_init` has returned, on an empty volume. -/
def bootRun : Run where
  sys :=
    { fs := emptyKernel
      mm := ⟨fun _ => 0, 0, 0⟩
      files := ⟨fun _ => false, fun _ => ⟨0, false, false, 0, none⟩⟩
      procs := fun _ => Proc.zero
      current := none
      nextPid := 1
      image := ⟨2147680256, 2147483648⟩
      sstatus := 0 }
  booting := true
  waiting := fun _ => none
  maker := fun _ => none

end Run

end OsAgentLab
