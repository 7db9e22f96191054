/-
What `proc_exec` and `sys_brk` leave alone: every field of the process table but
the page tables and the sizes, and the table of open files.
-/
import OsAgentLab.Proc.Calls
import OsAgentLab.Triple

namespace OsAgentLab

/-- Two states differ at most in the file system, in memory, and in the page
tables and sizes of the processes. -/
structure SameProcs (s s' : Sys) : Prop where
  files : s'.files = s.files
  current : s'.current = s.current
  nextPid : s'.nextPid = s.nextPid
  image : s'.image = s.image
  proc : ∀ i, ∃ pt sz, s'.procs i = { s.procs i with pagetable := pt, sz := sz }

variable {s s' : Sys} {α : Type}

namespace SameProcs

theorem refl (s : Sys) : SameProcs s s where
  files := rfl
  current := rfl
  nextPid := rfl
  image := rfl
  proc i := ⟨(s.procs i).pagetable, (s.procs i).sz, rfl⟩

theorem state (h : SameProcs s s') (i : Nat) : (s'.procs i).state = (s.procs i).state := by
  obtain ⟨pt, sz, heq⟩ := h.proc i
  rw [heq]

theorem ofile (h : SameProcs s s') (i : Nat) : (s'.procs i).ofile = (s.procs i).ofile := by
  obtain ⟨pt, sz, heq⟩ := h.proc i
  rw [heq]

theorem parent (h : SameProcs s s') (i : Nat) : (s'.procs i).parent = (s.procs i).parent := by
  obtain ⟨pt, sz, heq⟩ := h.proc i
  rw [heq]

theorem pid (h : SameProcs s s') (i : Nat) : (s'.procs i).pid = (s.procs i).pid := by
  obtain ⟨pt, sz, heq⟩ := h.proc i
  rw [heq]

theorem withFs (h : SameProcs s s') (k : Kernel) : SameProcs s { s' with fs := k } :=
  ⟨h.files, h.current, h.nextPid, h.image, h.proc⟩

theorem withMm (h : SameProcs s s') (mm : Mm) : SameProcs s { s' with mm := mm } :=
  ⟨h.files, h.current, h.nextPid, h.image, h.proc⟩

theorem setSpace (h : SameProcs s s') (i pt sz : Nat) :
    SameProcs s (s'.setProc i { s'.procs i with pagetable := pt, sz := sz }) where
  files := h.files
  current := h.current
  nextPid := h.nextPid
  image := h.image
  proc j := by
    by_cases hj : j = i
    · subst hj
      obtain ⟨_, _, heq⟩ := h.proc j
      exact ⟨pt, sz, by rw [Sys.setProc_self, heq]⟩
    · rw [Sys.setProc_of_ne s' hj]
      exact h.proc j

end SameProcs

section Calls

theorem onFs_sameProcs (m : Kern α) : Prog.Keeps (SameProcs s) (onFs m) :=
  Prog.Keeps.zoom fun k _ h => h.withFs k

theorem onMm_sameProcs (m : Vm α) : Prog.Keeps (SameProcs s) (onMm m) :=
  Prog.Keeps.zoom fun mm _ h => h.withMm mm

theorem readAt_sameProcs (vn len off : Nat) : Prog.Keeps (SameProcs s) (readAt vn len off) :=
  Prog.Keeps.bind (Prog.Keeps.orElse (onFs_sameProcs _)) fun _ =>
    Prog.Keeps.ite (Prog.Keeps.pure _) (Prog.Keeps.fail _)

theorem elfLoadSegment_sameProcs (pt vn : Nat) (ph : Phdr) (maxva : Nat) :
    Prog.Keeps (SameProcs s) (elfLoadSegment pt vn ph maxva) := by
  refine Prog.Keeps.ite (Prog.Keeps.fail _) (Prog.Keeps.bind (onMm_sameProcs _) fun _ => ?_)
  refine Prog.Keeps.bind ?_ fun _ => Prog.Keeps.pure _
  refine Prog.Keeps.forCount (fun i => ?_) _ _
  exact Prog.Keeps.bind (readAt_sameProcs _ _ _) fun _ => Prog.Keeps.orElse (onMm_sameProcs _)

theorem elfLoad_sameProcs (pt vn : Nat) : Prog.Keeps (SameProcs s) (elfLoad pt vn) := by
  refine Prog.Keeps.bind (readAt_sameProcs _ _ _) fun bytes => ?_
  refine Prog.Keeps.ite (Prog.Keeps.bind ?_ fun _ => Prog.Keeps.pure _) (Prog.Keeps.fail _)
  refine Prog.Keeps.foldlM (fun maxva i => ?_) _ _
  refine Prog.Keeps.bind (readAt_sameProcs _ _ _) fun header => ?_
  exact Prog.Keeps.ite (Prog.Keeps.pure _) (elfLoadSegment_sameProcs _ _ _ _)

theorem execSatp_sameProcs (i newpt : Nat) : Prog.Keeps (SameProcs s) (execSatp i newpt) := by
  refine Prog.Keeps.modify fun s' h => ?_
  split
  · exact h.withMm _
  · exact h

theorem execCommit_sameProcs (i newpt : Nat) (info stack : Nat × Nat) :
    Prog.Keeps (SameProcs s) (execCommit i newpt info stack) := by
  refine Prog.Keeps.get_bind fun t => ?_
  refine Prog.Keeps.bind (Prog.Keeps.modify fun _ h => h.setSpace i _ _) fun _ => ?_
  refine Prog.Keeps.bind (onMm_sameProcs _) fun _ => ?_
  refine Prog.Keeps.bind (execSatp_sameProcs _ _) fun _ => ?_
  exact Prog.Keeps.bind (onMm_sameProcs _) fun _ => Prog.Keeps.pure _

theorem execBinary_sameProcs (i vn : Nat) (argv : List CName) :
    Prog.Keeps (SameProcs s) (execBinary i vn argv) := by
  refine Prog.Keeps.bind (onMm_sameProcs _) fun newpt => ?_
  refine Prog.Keeps.elim (Prog.Keeps.fail _) fun newpt => ?_
  refine Prog.Keeps.bind (Prog.Keeps.onErr ?_ fun e => ?_) fun r => execCommit_sameProcs _ _ _ _
  · refine Prog.Keeps.bind (elfLoad_sameProcs _ _) fun info => ?_
    refine Prog.Keeps.bind (onMm_sameProcs _) fun _ => ?_
    exact Prog.Keeps.bind (onMm_sameProcs _) fun stack => Prog.Keeps.pure _
  · exact Prog.Keeps.bind (onMm_sameProcs _) fun _ => Prog.Keeps.fail _

theorem ofExcept_keeps {I : Sys → Prop} (r : Except Errno α) : Prog.Keeps I (ofExcept r) := by
  cases r with
  | error e => exact Prog.Keeps.fail e
  | ok a => exact Prog.Keeps.pure a

theorem execDepth_sameProcs {interpreter : CName → List CName → SysM Int}
    (hinterp : ∀ path argv, Prog.Keeps (SameProcs s) (interpreter path argv)) (i : Nat)
    (path : CName) (argv : Option (List CName)) :
    Prog.Keeps (SameProcs s) (execDepth interpreter i path argv) := by
  refine Prog.Keeps.get_bind fun t => Prog.Keeps.bind (onFs_sameProcs _) fun vn => ?_
  refine Prog.Keeps.bind ?_ fun script => ?_
  · exact Prog.Keeps.bind (onFs_sameProcs _) fun _ => ofExcept_keeps _
  · refine Prog.Keeps.elim (Prog.Keeps.elim Prog.Keeps.crash fun vn => ?_) fun words => ?_
    · exact execBinary_sameProcs _ _ _
    · exact Prog.Keeps.ite Prog.Keeps.crash (hinterp _ _)

theorem procExecCommon_sameProcs (i : Nat) (path : CName) (argv : Option (List CName)) :
    Prog.Keeps (SameProcs s) (procExecCommon i path argv) :=
  execDepth_sameProcs
    (fun _ _ => execDepth_sameProcs (fun _ _ => Prog.Keeps.fail _) _ _ _) _ _ _

theorem procExec_sameProcs (path : CName) (argv : Option (List CName)) :
    Prog.Keeps (SameProcs s) (procExec path argv) := by
  intro t h
  unfold procExec
  cases t.current with
  | none => exact h
  | some i => exact procExecCommon_sameProcs i path argv t h

theorem storeSz_sameProcs (i addr : Nat) : Prog.Keeps (SameProcs s) (storeSz i addr) :=
  Prog.Keeps.bind (Prog.Keeps.modify fun _ h => h.setSpace i _ _) fun _ => Prog.Keeps.pure _

theorem procCurrent_keeps {I : Sys → Prop} (e : Errno) : Prog.Keeps I (procCurrent e) := by
  intro t h
  unfold procCurrent
  cases t.current with
  | none => exact h
  | some i => exact h

theorem sysBrk_sameProcs (addr : Nat) : Prog.Keeps (SameProcs s) (sysBrk addr) := by
  refine Prog.Keeps.bind (procCurrent_keeps _) fun i => Prog.Keeps.get_bind fun t => ?_
  refine Prog.Keeps.ite (Prog.Keeps.pure _) (Prog.Keeps.ite ?_ (Prog.Keeps.ite ?_ ?_))
  · refine Prog.Keeps.bind (Prog.Keeps.attempt (onMm_sameProcs _)) fun grown => ?_
    exact Prog.Keeps.elim (Prog.Keeps.pure _) fun _ => storeSz_sameProcs _ _
  · exact Prog.Keeps.bind (onMm_sameProcs _) fun _ => storeSz_sameProcs _ _
  · exact Prog.Keeps.pure _

end Calls

end OsAgentLab
