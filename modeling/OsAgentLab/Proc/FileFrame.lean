/-
What the calls on descriptors leave alone: memory, and every field of the process
table but the open files.
-/
import OsAgentLab.Proc.ExecFrame

namespace OsAgentLab

/-- Two states differ at most in the file system, in the table of files, and in
the open files of the processes. -/
structure OnlyFiles (s s' : Sys) : Prop where
  mm : s'.mm = s.mm
  current : s'.current = s.current
  nextPid : s'.nextPid = s.nextPid
  image : s'.image = s.image
  sstatus : s'.sstatus = s.sstatus
  proc : ∀ i, ∃ ofile, s'.procs i = { s.procs i with ofile := ofile }

variable {s s' : Sys} {α : Type}

namespace OnlyFiles

theorem refl (s : Sys) : OnlyFiles s s where
  mm := rfl
  current := rfl
  nextPid := rfl
  image := rfl
  sstatus := rfl
  proc i := ⟨(s.procs i).ofile, rfl⟩

theorem withFs (h : OnlyFiles s s') (k : Kernel) : OnlyFiles s { s' with fs := k } :=
  ⟨h.mm, h.current, h.nextPid, h.image, h.sstatus, h.proc⟩

theorem withFiles (h : OnlyFiles s s') (files : Pool OpenFile) :
    OnlyFiles s { s' with files := files } :=
  ⟨h.mm, h.current, h.nextPid, h.image, h.sstatus, h.proc⟩

theorem setOfile (h : OnlyFiles s s') (i fd : Nat) (f : Option Nat) :
    OnlyFiles s (s'.setOfile i fd f) where
  mm := h.mm
  current := h.current
  nextPid := h.nextPid
  image := h.image
  sstatus := h.sstatus
  proc j := by
    by_cases hj : j = i
    · subst hj
      obtain ⟨ofile, heq⟩ := h.proc j
      exact ⟨_, by rw [Sys.setOfile, Sys.setProc_self, heq]⟩
    · rw [Sys.setOfile, Sys.setProc_of_ne s' hj]
      exact h.proc j

end OnlyFiles

section UserMemory

variable {mm : Mm}

/-- Reading the page tables does not change memory. -/
theorem walkPte_reads (pt va : Nat) : Prog.Keeps (fun m => m = mm) (walkPte pt va) := by
  have hload : ∀ a, Prog.Keeps (fun m => m = mm) (load64 a) := fun a m h => h
  have hlevel : ∀ pt idx, Prog.Keeps (fun m => m = mm) (walkLevel pt idx false) := by
    intro pt idx
    refine Prog.Keeps.bind (hload _) fun pte => Prog.Keeps.ite (Prog.Keeps.pure _) ?_
    exact Prog.Triple.ite (fun halloc => absurd halloc (by decide)) fun _ => Prog.Keeps.pure _
  refine Prog.Keeps.bind ?_ fun entry => Prog.Keeps.elim (Prog.Keeps.pure _) fun entry => ?_
  · refine Prog.Keeps.bind (hlevel _ _) fun l1 => Prog.Keeps.elim (Prog.Keeps.pure _) fun l1 => ?_
    refine Prog.Keeps.bind (hlevel _ _) fun l0 => ?_
    exact Prog.Keeps.elim (Prog.Keeps.pure _) fun l0 => Prog.Keeps.pure _
  · exact Prog.Keeps.bind (hload _) fun pte =>
      Prog.Keeps.ite (Prog.Keeps.pure _) (Prog.Keeps.pure _)

theorem walkaddr_reads (pt va : Nat) : Prog.Keeps (fun m => m = mm) (walkaddr pt va) := by
  refine Prog.Keeps.bind (walkPte_reads _ _) fun found => ?_
  refine Prog.Keeps.elim (Prog.Keeps.pure _) fun found => ?_
  exact Prog.Keeps.ite (Prog.Keeps.pure _) (Prog.Keeps.pure _)

theorem copyinstr_reads (pt srcva max : Nat) :
    Prog.Keeps (fun m => m = mm) (copyinstr pt srcva max) := by
  refine Prog.Keeps.bind (Prog.Keeps.loop (fun pos => ?_) _ _) fun last => ?_
  · obtain ⟨srcva, dst⟩ := pos
    refine Prog.Keeps.ite (Prog.Keeps.pure _) (Prog.Keeps.bind (walkaddr_reads _ _) fun pa => ?_)
    refine Prog.Keeps.ite (Prog.Keeps.fail _) ?_
    exact Prog.Keeps.get_bind fun t => Prog.Keeps.pure _
  · exact Prog.Keeps.ite (Prog.Keeps.pure _) (Prog.Keeps.fail _)

end UserMemory

section Calls

theorem onFs_onlyFiles (m : Kern α) : Prog.Keeps (OnlyFiles s) (onFs m) :=
  Prog.Keeps.zoom fun k _ h => h.withFs k

theorem copyinPath_onlyFiles (i ptr : Nat) : Prog.Keeps (OnlyFiles s) (copyinPath i ptr) := by
  refine Prog.Keeps.get_bind fun t => Prog.Keeps.bind (Prog.Keeps.orElse ?_) fun _ =>
    Prog.Keeps.pure _
  refine Prog.Triple.zoom fun u hu => ?_
  refine (@copyinstr_reads u.mm _ _ _).conseq (fun _ => id) ?_ ?_ ?_
  · rintro _ _ rfl
    exact hu
  · rintro _ _ rfl
    exact hu
  · rintro _ rfl
    exact hu

theorem ofileOf_onlyFiles (i fd : Nat) : Prog.Keeps (OnlyFiles s) (ofileOf i fd) := by
  intro t h
  unfold ofileOf
  by_cases hfd : nofile ≤ fd
  · rw [if_pos hfd]
    exact h
  · rw [if_neg hfd]
    cases (t.procs i).ofile fd with
    | none => exact h
    | some f => exact h

theorem fileDup_onlyFiles (f : Nat) : Prog.Keeps (OnlyFiles s) (fileDup f) :=
  Prog.Keeps.modify fun _ h => h.withFiles _

theorem fileClose_onlyFiles (f : Nat) : Prog.Keeps (OnlyFiles s) (fileClose f) :=
  Prog.Keeps.modify fun _ h => h.withFiles _

theorem fileFill_onlyFiles (f : Nat) (file : OpenFile) :
    Prog.Keeps (OnlyFiles s) (fileFill f file) :=
  Prog.Keeps.modify fun _ h => h.withFiles _

theorem fileAlloc_onlyFiles : Prog.Keeps (OnlyFiles s) fileAlloc := by
  intro t h
  unfold fileAlloc
  cases t.files.firstFree nfile with
  | none => exact h
  | some f => exact h.withFiles _

theorem storeOfile_onlyFiles (i fd : Nat) (f : Option Nat) :
    Prog.Keeps (OnlyFiles s) (storeOfile i fd f) :=
  Prog.Keeps.modify fun _ h => h.setOfile i fd f

theorem fdallocOrClose_onlyFiles (i f : Nat) : Prog.Keeps (OnlyFiles s) (fdallocOrClose i f) := by
  refine Prog.Keeps.onErr (fun t h => ?_) fun e => ?_
  · unfold fdalloc
    cases (List.range' 3 (nofile - 3)).find? fun fd => ((t.procs i).ofile fd).isNone with
    | none => exact h
    | some fd => exact h.setOfile i fd _
  · exact Prog.Keeps.bind (fileClose_onlyFiles f) fun _ => Prog.Keeps.fail e

theorem closeOfile_onlyFiles (i fd f : Nat) : Prog.Keeps (OnlyFiles s) (closeOfile i fd f) :=
  Prog.Keeps.bind (fileClose_onlyFiles f) fun _ => storeOfile_onlyFiles i fd none

theorem closeIfOpen_onlyFiles (i fd : Nat) : Prog.Keeps (OnlyFiles s) (closeIfOpen i fd) :=
  Prog.Keeps.get_bind fun _ =>
    Prog.Keeps.elim (Prog.Keeps.pure _) fun f => closeOfile_onlyFiles i fd f

theorem sysOpenat_onlyFiles (dirfd ptr flags : Nat) :
    Prog.Keeps (OnlyFiles s) (sysOpenat dirfd ptr flags) := by
  refine Prog.Keeps.bind (procCurrent_keeps _) fun i => Prog.Keeps.ite (Prog.Keeps.fail _) ?_
  refine Prog.Keeps.bind (copyinPath_onlyFiles _ _) fun path => ?_
  refine Prog.Keeps.ite (Prog.Keeps.fail _) (Prog.Keeps.get_bind fun t => ?_)
  refine Prog.Keeps.bind (onFs_onlyFiles _) fun vn => ?_
  refine Prog.Keeps.bind fileAlloc_onlyFiles fun found => ?_
  refine Prog.Keeps.elim (Prog.Keeps.fail _) fun f => ?_
  refine Prog.Keeps.bind (fileFill_onlyFiles _ _) fun _ => Prog.Keeps.bind ?_ fun off => ?_
  · refine Prog.Keeps.ite (Prog.Keeps.onErr ?_ fun e => ?_) (Prog.Keeps.pure _)
    · exact Prog.Keeps.bind (onFs_onlyFiles _) fun st => Prog.Keeps.pure _
    · exact Prog.Keeps.bind (fileClose_onlyFiles f) fun _ => Prog.Keeps.fail e
  refine Prog.Keeps.bind (fileFill_onlyFiles _ _) fun _ => ?_
  exact Prog.Keeps.bind (fdallocOrClose_onlyFiles i f) fun fd => Prog.Keeps.pure _

theorem sysClose_onlyFiles (fd : Nat) : Prog.Keeps (OnlyFiles s) (sysClose fd) := by
  refine Prog.Keeps.bind (procCurrent_keeps _) fun i => ?_
  refine Prog.Keeps.bind (ofileOf_onlyFiles i fd) fun f => ?_
  exact Prog.Keeps.bind (closeOfile_onlyFiles _ _ _) fun _ => Prog.Keeps.pure _

theorem sysDup_onlyFiles (fd : Nat) : Prog.Keeps (OnlyFiles s) (sysDup fd) := by
  refine Prog.Keeps.bind (procCurrent_keeps _) fun i => ?_
  refine Prog.Keeps.bind (ofileOf_onlyFiles i fd) fun f => ?_
  refine Prog.Keeps.bind (fileDup_onlyFiles f) fun _ => ?_
  exact Prog.Keeps.bind (fdallocOrClose_onlyFiles i f) fun _ => Prog.Keeps.pure _

theorem sysDup3_onlyFiles (oldfd newfd : Nat) :
    Prog.Keeps (OnlyFiles s) (sysDup3 oldfd newfd) := by
  refine Prog.Keeps.bind (procCurrent_keeps _) fun i => Prog.Keeps.ite (Prog.Keeps.fail _) ?_
  refine Prog.Keeps.bind (ofileOf_onlyFiles i oldfd) fun _ => ?_
  refine Prog.Keeps.ite (Prog.Keeps.pure _) ?_
  refine Prog.Keeps.bind (closeIfOpen_onlyFiles i newfd) fun _ => ?_
  refine Prog.Keeps.bind (ofileOf_onlyFiles i oldfd) fun f => ?_
  refine Prog.Keeps.bind (fileDup_onlyFiles f) fun _ => ?_
  exact Prog.Keeps.bind (storeOfile_onlyFiles i newfd _) fun _ => Prog.Keeps.pure _

end Calls

end OsAgentLab
