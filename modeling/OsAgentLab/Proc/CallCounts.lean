/-
The system calls keep the reference counts of open files exact.
-/
import OsAgentLab.Proc.ExecFrame
import OsAgentLab.Proc.FileSpec

namespace OsAgentLab

variable {s : Sys} {held : Option Nat} {i j fd f : Nat}

/-- The process in slot `i` is in a call that holds the reference `held`. -/
structure Calling (i : Nat) (held : Option Nat) (s : Sys) : Prop where
  counted : Counted s held
  current : s.current = some i

section Frames

theorem Calling.lt (h : Calling i held s) : i < nproc := (h.counted.current i h.current).1

theorem Calling.running (h : Calling i held s) : (s.procs i).state = .running :=
  (h.counted.current i h.current).2

theorem Calling.busy (h : Calling i held s) :
    (s.procs i).state ≠ .unused ∧ (s.procs i).state ≠ .zombie := by
  rw [h.running]
  exact ⟨by decide, by decide⟩

theorem Counted.withFs (h : Counted s held) (k : Kernel) : Counted { s with fs := k } held :=
  ⟨h.ref, h.used, h.lt, h.idle, h.current⟩

theorem Counted.withMm (h : Counted s held) (mm : Mm) : Counted { s with mm := mm } held :=
  ⟨h.ref, h.used, h.lt, h.idle, h.current⟩

theorem Sys.holds_setProc {p : Proc} (hofile : p.ofile = (s.procs i).ofile) :
    (s.setProc i p).holds = s.holds := by
  funext d
  by_cases hd : d.1 = i
  · rw [Sys.holds, Sys.holds, hd, Sys.setProc_self, hofile]
  · rw [Sys.holds, Sys.holds, Sys.setProc_of_ne s hd]

/-- A store into a process that leaves its open files alone. -/
theorem Counted.setProc (h : Counted s held) {p : Proc} (hofile : p.ofile = (s.procs i).ofile)
    (hidle : p.state = .unused ∨ p.state = .zombie → ∀ fd, fd < nofile → p.ofile fd = none)
    (hcurrent : s.current = some i → p.state = .running) : Counted (s.setProc i p) held := by
  refine h.frame rfl (fun d _ => congrFun (Sys.holds_setProc hofile) d) (fun d hd hstate => ?_) fun j hj => ?_
  · by_cases hdi : d.1 = i
    · rw [hdi, Sys.setProc_self] at hstate
      have hnone := hidle hstate d.2 (mem_descriptors.mp (Prod.eta d ▸ hd)).2
      rw [Sys.holds, hdi, ← hofile]
      exact hnone
    · rw [Sys.setProc_of_ne s hdi] at hstate
      exact h.idle d hd hstate
  · have hcur := h.current j hj
    by_cases hji : j = i
    · subst hji
      rw [Sys.setProc_self]
      exact ⟨hcur.1, hcurrent hj⟩
    · rw [Sys.setProc_of_ne s hji]
      exact hcur

theorem onFs_calling {α : Type} (m : Kern α) : Prog.Keeps (Calling i held) (onFs m) :=
  Prog.Keeps.zoom fun k _ h => ⟨h.counted.withFs k, h.current⟩

theorem onMm_calling {α : Type} (m : Vm α) : Prog.Keeps (Calling i held) (onMm m) :=
  Prog.Keeps.zoom fun mm _ h => ⟨h.counted.withMm mm, h.current⟩

end Frames

section Descriptors

theorem procCurrent_calling (e : Errno) :
    Prog.Triple (fun s => Counted s none) (procCurrent e) (fun i s => Calling i none s)
      (fun _ s => Counted s none) (fun s => Counted s none) := by
  intro s h
  unfold procCurrent
  cases hcur : s.current with
  | none => exact h
  | some i => exact ⟨h, hcur⟩

/-- The descriptor `fd` of the process in slot `i` points to `f`. -/
def PointsTo (i fd f : Nat) (s : Sys) : Prop := fd < nofile ∧ (s.procs i).ofile fd = some f

theorem ofileOf_points (i fd : Nat) (P : Sys → Prop) :
    Prog.Triple P (ofileOf i fd) (fun f s => P s ∧ PointsTo i fd f s) (fun _ => P) P := by
  intro s h
  unfold ofileOf
  by_cases hfd : nofile ≤ fd
  · rw [if_pos hfd]
    exact h
  · rw [if_neg hfd]
    cases hf : (s.procs i).ofile fd with
    | none => exact h
    | some f => exact ⟨h, Nat.lt_of_not_le hfd, hf⟩

/-- The descriptor `fd` of the process in slot `i` is closed. -/
theorem closeOfile_spec (h : Counted s none) (hi : i < nproc) (hf : PointsTo i fd f s) :
    ∃ s', closeOfile i fd f s = (.ok (), s') ∧ Counted s' none ∧ s'.current = s.current ∧
      (s'.procs i).ofile = Function.update (s.procs i).ofile fd none := by
  refine ⟨_, rfl, h.closeClear hi hf.1 hf.2, rfl, ?_⟩
  simp [Sys.setOfile]

/-- The descriptor `fd` is empty afterwards, the other ones are as before. -/
theorem closeIfOpen_spec (h : Counted s none) (hi : i < nproc) (hfd : fd < nofile) :
    ∃ s', closeIfOpen i fd s = (.ok (), s') ∧ Counted s' none ∧ s'.current = s.current ∧
      (s'.procs i).ofile = Function.update (s.procs i).ofile fd none := by
  cases hf : (s.procs i).ofile fd with
  | none =>
      refine ⟨s, ?_, h, rfl, ?_⟩
      · rw [closeIfOpen, Prog.get_bind, hf, Option.elim_none, Prog.pure_apply]
      · rw [← hf, Function.update_eq_self]
  | some f =>
      obtain ⟨s', hrun, hspec⟩ := closeOfile_spec h hi ⟨hfd, hf⟩
      refine ⟨s', ?_, hspec⟩
      rw [closeIfOpen, Prog.get_bind, hf, Option.elim_some]
      exact hrun

/-- `fdalloc` takes over the reference, or it is given back. -/
theorem fdallocOrClose_calling (hf : f < nfile) :
    Prog.Triple (Calling i (some f)) (fdallocOrClose i f) (fun _ s => Counted s none)
      (fun _ s => Counted s none) (fun s => Counted s none) := by
  refine Prog.Triple.onErr (F := fun _ => Calling i (some f)) ?_ fun e => ?_
  · intro s h
    unfold fdalloc
    cases hfd : (List.range' 3 (nofile - 3)).find? fun fd => ((s.procs i).ofile fd).isNone with
    | none => exact h
    | some fd =>
        have hmem := List.mem_range'_1.mp (List.mem_of_find?_eq_some hfd)
        have hfound := List.find?_some hfd
        have hnone := Option.isNone_iff_eq_none.mp hfound
        exact h.counted.store hf h.lt (by simp only [nofile] at hmem ⊢; omega) hnone h.busy
  · exact Prog.Triple.bind
      ((fileClose_counted hf).conseq (fun s h => h.counted) (fun _ _ => id)
        (fun _ _ => False.elim) fun _ => False.elim)
      fun _ => Prog.Triple.fail fun s h => h

theorem sysClose_counted (fd : Nat) : Prog.Keeps (fun s => Counted s none) (sysClose fd) := by
  refine Prog.Triple.bind (procCurrent_calling _) fun i => ?_
  refine Prog.Triple.bind (R := fun f s => Calling i none s ∧ PointsTo i fd f s) ?_ fun f => ?_
  · exact (ofileOf_points i fd (Calling i none)).conseq (fun _ => id) (fun _ _ => id)
      (fun _ s h => h.counted) fun s h => h.counted
  · refine Prog.Triple.of_ok fun s ⟨h, hf⟩ => ?_
    obtain ⟨s', hrun, hcounted, _⟩ := closeOfile_spec h.counted h.lt hf
    exact ⟨0, s', by rw [Prog.bind_ok hrun, Prog.pure_apply], hcounted⟩

theorem sysDup_counted (fd : Nat) : Prog.Keeps (fun s => Counted s none) (sysDup fd) := by
  refine Prog.Triple.bind (procCurrent_calling _) fun i => ?_
  refine Prog.Triple.bind (R := fun f s => Calling i none s ∧ PointsTo i fd f s) ?_ fun f => ?_
  · exact (ofileOf_points i fd (Calling i none)).conseq (fun _ => id) (fun _ _ => id)
      (fun _ s h => h.counted) fun s h => h.counted
  · refine Prog.Triple.assume (p := f < nfile) (fun hlt => ?_) fun s ⟨h, hf⟩ =>
      (h.counted.used_of_holds h.lt hf.1 hf.2).1
    refine Prog.Triple.bind (R := fun _ => Calling i (some f)) ?_ fun _ => ?_
    · intro s ⟨h, hf⟩
      have hused := (h.counted.used_of_holds h.lt hf.1 hf.2).2
      exact ⟨fileDup_counted hlt s ⟨h.counted, hused⟩, h.current⟩
    · exact Prog.Triple.bind (fdallocOrClose_calling hlt) fun fd' =>
        Prog.Triple.pure fun s h => h

theorem sysDup3_counted (oldfd newfd : Nat) :
    Prog.Keeps (fun s => Counted s none) (sysDup3 oldfd newfd) := by
  refine Prog.Triple.bind (procCurrent_calling _) fun i => ?_
  refine Prog.Triple.ite (fun _ => Prog.Triple.fail fun s h => h.counted) fun hnew => ?_
  refine Prog.Triple.bind (R := fun _ => Calling i none) ?_ fun _ => ?_
  · exact (ofileOf_points i oldfd (Calling i none)).conseq (fun _ => id) (fun _ _ h => h.1)
      (fun _ s h => h.counted) fun s h => h.counted
  refine Prog.Triple.ite (fun _ => Prog.Triple.pure fun s h => h.counted) fun _ => ?_
  have hlt : newfd < nofile := Nat.lt_of_not_le hnew
  let Emptied := fun s => Calling i none s ∧ (s.procs i).ofile newfd = none
  refine Prog.Triple.bind (R := fun _ => Emptied) ?_ fun _ => ?_
  · refine Prog.Triple.of_ok fun s h => ?_
    obtain ⟨s', hrun, hcounted, hcurrent, hofile⟩ := closeIfOpen_spec h.counted h.lt hlt
    refine ⟨(), s', hrun, ⟨hcounted, hcurrent.trans h.current⟩, ?_⟩
    rw [hofile, Function.update_self]
  refine Prog.Triple.bind (R := fun f s => Emptied s ∧ PointsTo i oldfd f s) ?_ fun f => ?_
  · exact (ofileOf_points i oldfd Emptied).conseq (fun _ => id) (fun _ _ => id)
      (fun _ s h => h.1.counted) fun s h => h.1.counted
  refine Prog.Triple.of_ok fun s ⟨⟨h, hnone⟩, hf⟩ => ?_
  obtain ⟨hfile, hused⟩ := h.counted.used_of_holds h.lt hf.1 hf.2
  have hdup : Counted _ (some f) := fileDup_counted hfile s ⟨h.counted, hused⟩
  exact ⟨_, _, rfl, hdup.store hfile h.lt hlt hnone h.busy⟩

end Descriptors

section Open

theorem fileFill_calling (file : OpenFile) : Prog.Keeps (Calling i held) (fileFill f file) := by
  intro s h
  exact ⟨fileFill_counted file s h.counted, h.current⟩

/-- `vfs_stat` of a vnode returns. -/
theorem vfsStat_returns (vn : Nat) (k : Kernel) :
    (vfsStat (some vn) k).1.IsOk ∨ (vfsStat (some vn) k).1.IsErr := by
  simp only [vfsStat, vfsDispatch, Prog.get_bind]
  cases (k.vnode vn).ops with
  | none => exact Or.inr trivial
  | some ops =>
      cases ops with
      | fat32 => exact Or.inl trivial
      | ramfs => exact Or.inl trivial

theorem onFs_vfsStat_calling (vn : Nat) :
    Prog.Triple (Calling i held) (onFs (vfsStat (some vn))) (fun _ => Calling i held)
      (fun _ => Calling i held) (fun _ => False) := by
  intro s h
  have hkeep := (onFs_calling (vfsStat (some vn)) : Prog.Keeps (Calling i held) _) s h
  have hreturns := vfsStat_returns vn s.fs
  unfold onFs Prog.zoom at hkeep ⊢
  cases hrun : vfsStat (some vn) s.fs with
  | mk r k =>
      rw [hrun] at hkeep hreturns
      cases r with
      | ok st => exact hkeep
      | err e => exact hkeep
      | fault => simp [Outcome.IsOk, Outcome.IsErr] at hreturns
      | diverges => simp [Outcome.IsOk, Outcome.IsErr] at hreturns

/-- The reference is given back when `vfs_stat` fails. -/
theorem openOffset_calling (hf : f < nfile) (vn flags : Nat) :
    Prog.Triple (Calling i (some f)) (openOffset f vn flags) (fun _ => Calling i (some f))
      (fun _ s => Counted s none) (fun s => Counted s none) := by
  refine Prog.Triple.ite (fun _ => ?_) fun _ => Prog.Triple.pure fun _ => id
  refine Prog.Triple.onErr (F := fun _ => Calling i (some f)) ?_ fun e => ?_
  · exact Prog.Triple.bind ((onFs_vfsStat_calling vn).conseq (fun _ => id) (fun _ _ => id)
      (fun _ _ => id) fun _ => False.elim) fun st => Prog.Triple.pure fun _ => id
  · exact Prog.Triple.bind
      ((fileClose_counted hf).conseq (fun s h => h.counted) (fun _ _ => id)
        (fun _ _ => False.elim) fun _ => False.elim)
      fun _ => Prog.Triple.fail fun s h => h

theorem copyinPath_calling (ptr : Nat) : Prog.Keeps (Calling i held) (copyinPath i ptr) :=
  Prog.Keeps.get_bind fun _ =>
    Prog.Keeps.bind (Prog.Keeps.orElse (onMm_calling _)) fun _ => Prog.Keeps.pure _

theorem sysOpenat_counted (dirfd ptr flags : Nat) :
    Prog.Keeps (fun s => Counted s none) (sysOpenat dirfd ptr flags) := by
  have hdone : ∀ (i : Nat) (s : Sys), Calling i none s → Counted s none := fun _ _ h => h.counted
  refine Prog.Triple.bind (procCurrent_calling _) fun i => ?_
  refine Prog.Triple.ite (fun _ => Prog.Triple.fail (hdone i)) fun _ => ?_
  refine Prog.Triple.bind (R := fun _ => Calling i none) ?_ fun path => ?_
  · exact (copyinPath_calling ptr).conseq (fun _ => id) (fun _ _ => id) (fun _ => hdone i) (hdone i)
  refine Prog.Triple.ite (fun _ => Prog.Triple.fail (hdone i)) fun _ => ?_
  refine Prog.Triple.get_bind fun t ht => Prog.Triple.pre ?_ fun s hs => hs ▸ ht
  refine Prog.Triple.bind (R := fun _ => Calling i none) ?_ fun vn => ?_
  · exact (onFs_calling _).conseq (fun _ => id) (fun _ _ => id) (fun _ => hdone i) (hdone i)
  refine Prog.Triple.bind (R := fun r s => Calling i r s ∧ ∀ f, r = some f → f < nfile) ?_
    fun found => ?_
  · refine Prog.Triple.of_ok fun s h => ?_
    obtain ⟨r, s', hrun, hcounted, _, hcurrent, hlt⟩ := fileAlloc_spec h.counted
    exact ⟨r, s', hrun, ⟨hcounted, hcurrent.trans h.current⟩, hlt⟩
  cases found with
  | none => exact Prog.Triple.fail fun s h => h.1.counted
  | some f =>
      refine Prog.Triple.assume (p := f < nfile) (fun hlt => ?_) fun s h => h.2 f rfl
      have hfill : ∀ file, Prog.Triple (Calling i (some f)) (fileFill f file)
          (fun _ => Calling i (some f)) (fun _ s => Counted s none) (fun s => Counted s none) :=
        fun file s h => fileFill_calling file s h
      refine Prog.Triple.bind ((hfill _).pre fun s h => h.1) fun _ => ?_
      refine Prog.Triple.bind (openOffset_calling hlt vn flags) fun off => ?_
      refine Prog.Triple.bind (hfill _) fun _ => ?_
      exact Prog.Triple.bind (fdallocOrClose_calling hlt) fun fd => Prog.Triple.pure fun s h => h

end Open

section Exec

theorem Counted.sameProcs {s' : Sys} (h : Counted s held) (hsame : SameProcs s s') :
    Counted s' held := by
  refine h.frame hsame.files (fun d _ => ?_) (fun d hd hstate => ?_) fun i hi => ?_
  · rw [Sys.holds, Sys.holds, hsame.ofile]
  · rw [hsame.state] at hstate
    exact h.idle d hd hstate
  · rw [hsame.current] at hi
    rw [hsame.state]
    exact h.current i hi

theorem keeps_counted_of_sameProcs {α : Type} {m : SysM α}
    (h : ∀ s, Prog.Keeps (SameProcs s) m) : Prog.Keeps (fun s => Counted s held) m := by
  intro s hs
  exact (h s).conseq (fun s' hs' => hs') (fun _ _ => hs.sameProcs) (fun _ _ => hs.sameProcs)
    (fun _ => hs.sameProcs) s (.refl s)

end Exec

section Alloc

variable {cur : Option Nat}

/-- Slot `j` was just taken by `proc_alloc`. -/
structure Fresh (cur : Option Nat) (j : Nat) (s : Sys) : Prop where
  counted : Counted s none
  current : s.current = cur
  lt : j < nproc
  state : (s.procs j).state = .used
  ofile : ∀ fd, (s.procs j).ofile fd = none

theorem onMm_fresh {α : Type} (m : Vm α) : Prog.Keeps (Fresh cur j) (onMm m) :=
  Prog.Keeps.zoom fun mm _ h => ⟨h.counted.withMm mm, h.current, h.lt, h.state, h.ofile⟩

/-- Stores into the other fields of the new process. -/
theorem Fresh.setProc (h : Fresh cur j s) {p : Proc} (hstate : p.state = .used)
    (hofile : p.ofile = (s.procs j).ofile) : Fresh cur j (s.setProc j p) where
  counted := by
    refine h.counted.setProc hofile (fun hidle => ?_) fun hcur => ?_
    · rw [hstate] at hidle
      simp at hidle
    · have hrunning := (h.counted.current j hcur).2
      rw [h.state] at hrunning
      cases hrunning
  current := h.current
  lt := h.lt
  state := by rw [Sys.setProc_self, hstate]
  ofile fd := by rw [Sys.setProc_self, hofile, h.ofile]

theorem Fresh.modify {f : Sys → Proc} (hstate : ∀ s, (f s).state = (s.procs j).state)
    (hofile : ∀ s, (f s).ofile = (s.procs j).ofile) {E : Errno → Sys → Prop} {C : Sys → Prop} :
    Prog.Triple (Fresh cur j) (Prog.modify fun s => s.setProc j (f s)) (fun _ => Fresh cur j)
      E C :=
  Prog.Triple.modify fun s h => h.setProc ((hstate s).trans h.state) (hofile s)

/-- The slot is given back. -/
theorem Fresh.drop (h : Fresh cur j s) : Counted (s.setState j .unused) none := by
  refine h.counted.setProc rfl (fun _ fd _ => h.ofile fd) fun hcur => ?_
  have hrunning := (h.counted.current j hcur).2
  rw [h.state] at hrunning
  cases hrunning

theorem procFindUnused_some (h : procFindUnused s = some j) :
    j < nproc ∧ (s.procs j).state = .unused := by
  have hmem := List.mem_range.mp (List.mem_of_find?_eq_some h)
  have hstate := List.find?_some h
  exact ⟨hmem, of_decide_eq_true hstate⟩

theorem procClaim_spec (h : Counted s none) (hj : procFindUnused s = some j) :
    ∃ s', procClaim j s = (.ok (), s') ∧ Fresh s.current j s' := by
  obtain ⟨hlt, hunused⟩ := procFindUnused_some hj
  have hnot : s.current ≠ some j := fun hcur => by
    have hrunning := (h.current j hcur).2
    rw [hunused] at hrunning
    cases hrunning
  have hzero : ∀ d ∈ descriptors, d.1 = j → s.holds d = none := fun d hd hdj =>
    h.idle d hd (Or.inl (hdj ▸ hunused))
  let p : Proc := { Proc.zero with state := .used, pid := s.nextPid }
  have hself : (s.setProc j p).procs j = p := s.setProc_self j p
  refine ⟨{ s.setProc j p with nextPid := Int.bmod (s.nextPid + 1) 4294967296 }, rfl, ?_, rfl, hlt,
    congrArg Proc.state hself, fun fd => congrFun (congrArg Proc.ofile hself) fd⟩
  refine h.frame rfl (fun d hd => ?_) (fun d hd hstate => ?_) fun i hi => ?_
  · by_cases hdj : d.1 = j
    · rw [hzero d hd hdj]
      change ((s.setProc j p).procs d.1).ofile d.2 = none
      rw [hdj, hself]
      rfl
    · exact congrFun (congrArg Proc.ofile (s.setProc_of_ne hdj p)) d.2
  · by_cases hdj : d.1 = j
    · exact hzero d hd hdj
    · exact h.idle d hd ((congrArg Proc.state (s.setProc_of_ne hdj p)) ▸ hstate)
  · have hij : i ≠ j := fun hij => hnot (hij ▸ hi)
    rw [show (s.setProc j p).procs i = s.procs i from s.setProc_of_ne hij p]
    exact h.current i hi

theorem procDrop_spec (h : Fresh cur j s) :
    ∃ s', procDrop j s = (.ok none, s') ∧ Counted s' none ∧ s'.current = cur :=
  ⟨_, rfl, h.drop, h.current⟩

/-- What `proc_alloc` delivers keeps the counts. -/
def ProcAllocated (cur : Option Nat) (r : Option Nat) (s : Sys) : Prop :=
  (Counted s none ∧ s.current = cur) ∧ ∀ j, r = some j → Fresh cur j s

theorem procAlloc_counted :
    Prog.Triple (fun s => Counted s none ∧ s.current = cur) procAlloc (ProcAllocated cur)
      (fun _ s => Counted s none) (fun s => Counted s none) := by
  have hfresh : ∀ (α : Type) (j : Nat) (m : Vm α), Prog.Triple (Fresh cur j) (onMm m)
      (fun _ => Fresh cur j) (fun _ s => Counted s none) (fun s => Counted s none) :=
    fun α j m => (onMm_fresh m).conseq (fun _ => id) (fun _ _ => id) (fun _ _ h => h.counted)
      fun _ h => h.counted
  have hdrop : ∀ j, Prog.Triple (Fresh cur j) (procDrop j) (ProcAllocated cur)
      (fun _ s => Counted s none) (fun s => Counted s none) := fun j =>
    Prog.Triple.of_ok fun s h => by
      obtain ⟨s', hrun, hcounted, hcurrent⟩ := procDrop_spec h
      exact ⟨none, s', hrun, ⟨hcounted, hcurrent⟩, fun j hj => by cases hj⟩
  refine Prog.Triple.get_bind fun t ht => ?_
  refine Prog.Triple.elim (Prog.Triple.pure fun s hs => ?_) fun j hj => ?_
  · exact hs ▸ ⟨ht, fun j hj => by cases hj⟩
  refine Prog.Triple.bind (R := fun _ => Fresh cur j) (Prog.Triple.of_ok fun s hs => ?_) fun _ => ?_
  · subst hs
    obtain ⟨s', hrun, hnew⟩ := procClaim_spec ht.1 hj
    exact ⟨(), s', hrun, ht.2 ▸ hnew⟩
  refine Prog.Triple.bind (hfresh _ j _) fun tf => Prog.Triple.elim (hdrop j) fun tf _ => ?_
  refine Prog.Triple.bind (Fresh.modify (fun _ => by rfl) fun _ => by rfl) fun _ => ?_
  refine Prog.Triple.bind (hfresh _ j _) fun pt => Prog.Triple.elim ?_ fun pt _ => ?_
  · exact Prog.Triple.bind (hfresh _ j _) fun _ => hdrop j
  refine Prog.Triple.bind (Fresh.modify (fun _ => by rfl) fun _ => by rfl) fun _ => ?_
  exact Prog.Triple.pure fun s h => ⟨⟨h.counted, h.current⟩, fun k hk => Option.some.inj hk ▸ h⟩

end Alloc

section Fork

/-- The state of a fork from slot `i` into slot `j` that has shared the
descriptors below `fd`. -/
structure Forking (i j fd : Nat) (s : Sys) : Prop where
  counted : Counted s none
  current : s.current = some i
  lt : j < nproc
  state : (s.procs j).state = .used
  ofile : ∀ n, fd ≤ n → (s.procs j).ofile n = none

theorem Fresh.forking (h : Fresh (some i) j s) : Forking i j 0 s :=
  ⟨h.counted, h.current, h.lt, h.state, fun n _ => h.ofile n⟩

theorem forkSpace_counted :
    Prog.Triple (Fresh (some i) j) (forkSpace i j) (fun _ => Fresh (some i) j)
      (fun _ s => Counted s none) (fun s => Counted s none) := by
  refine Prog.Triple.get_bind fun t ht => Prog.Triple.pre ?_ fun s hs => hs ▸ ht
  refine Prog.Triple.onErr (F := fun _ => Fresh (some i) j) ?_ fun e => ?_
  · exact (onMm_fresh _).conseq (fun _ => id) (fun _ _ => id) (fun _ _ => id) fun _ h => h.counted
  have hfresh : ∀ m : Vm Unit, Prog.Triple (Fresh (some i) j) (onMm m)
      (fun _ => Fresh (some i) j) (fun _ s => Counted s none) (fun s => Counted s none) :=
    fun m => (onMm_fresh m).conseq (fun _ => id) (fun _ _ => id) (fun _ _ h => h.counted)
      fun _ h => h.counted
  refine Prog.Triple.bind (hfresh _) fun _ => Prog.Triple.bind (hfresh _) fun _ => ?_
  refine Prog.Triple.bind (R := fun _ s => Counted s none) ?_ fun _ => Prog.Triple.fail fun _ => id
  exact Prog.Triple.modify fun s h => h.drop

/-- One descriptor is shared with the child. -/
theorem forkFile_spec (h : Forking i j fd s) (hfd : fd < nofile) :
    ∃ s', forkFile i j fd s = (.ok (), s') ∧ Forking i j (fd + 1) s' := by
  cases hf : (s.procs i).ofile fd with
  | none =>
      refine ⟨s, ?_, ⟨h.counted, h.current, h.lt, h.state, fun n hn => h.ofile n (by omega)⟩⟩
      rw [forkFile, Prog.get_bind, hf, Option.elim_none, Prog.pure_apply]
  | some f =>
      have hi := h.counted.current i h.current
      obtain ⟨hfile, hused⟩ := h.counted.used_of_holds hi.1 hfd hf
      have hdup : Counted _ (some f) := fileDup_counted hfile s ⟨h.counted, hused⟩
      have hbusy : (s.procs j).state ≠ .unused ∧ (s.procs j).state ≠ .zombie := by
        rw [h.state]
        exact ⟨by decide, by decide⟩
      have hstored := hdup.store hfile h.lt hfd (h.ofile fd (Nat.le_refl fd)) hbusy
      refine ⟨_, ?_, ⟨hstored, h.current, h.lt, ?_, fun n hn => ?_⟩⟩
      · rw [forkFile, Prog.get_bind, hf, Option.elim_some]
        rfl
      · simp only [Sys.setOfile, Sys.setProc_self]
        exact h.state
      · simp only [Sys.setOfile, Sys.setProc_self]
        rw [Function.update_of_ne (by omega)]
        exact h.ofile n (by omega)

/-- The child is complete. -/
theorem Forking.ready (h : Forking i j fd s) {p : Proc} (hofile : p.ofile = (s.procs j).ofile)
    (hstate : p.state = .runnable) : Counted (s.setProc j p) none := by
  refine h.counted.setProc hofile (fun hidle => ?_) fun hcur => ?_
  · rw [hstate] at hidle
    simp at hidle
  · have hrunning := (h.counted.current j hcur).2
    rw [h.state] at hrunning
    cases hrunning

theorem procFork_counted (tf : Nat) : Prog.Keeps (fun s => Counted s none) (procFork tf) := by
  refine Prog.Triple.bind (procCurrent_calling _) fun i => ?_
  refine Prog.Triple.bind (R := ProcAllocated (some i)) ?_ fun np => ?_
  · exact procAlloc_counted.pre fun s h => ⟨h.counted, h.current⟩
  refine Prog.Triple.elim (Prog.Triple.fail fun s h => h.1.1) fun j hj => ?_
  subst hj
  refine Prog.Triple.bind (forkSpace_counted.pre fun s h => h.2 j rfl) fun _ => ?_
  refine Prog.Triple.bind (Fresh.modify (fun _ => by rfl) fun _ => by rfl) fun _ => ?_
  refine Prog.Triple.get_bind fun t ht => Prog.Triple.pre ?_ fun s hs => hs ▸ ht
  refine Prog.Triple.bind (R := fun _ => Fresh (some i) j) ?_ fun _ => ?_
  · exact (onMm_fresh _).conseq (fun _ => id) (fun _ _ => id) (fun _ _ h => h.counted)
      fun _ h => h.counted
  refine Prog.Triple.bind (Fresh.modify (fun _ => by rfl) fun _ => by rfl) fun _ => ?_
  refine Prog.Triple.bind (R := fun _ => Forking i j nofile) ?_ fun _ => ?_
  · refine Prog.Triple.of_ok fun s h => ?_
    obtain ⟨s', hrun, hshared⟩ := Prog.forCount_inv (forkFile i j) (Forking i j) nofile 0 s
      h.forking fun fd s _ hlt hs => forkFile_spec hs (by omega)
    rw [Nat.zero_add] at hshared
    exact ⟨(), s', hrun, hshared⟩
  refine Prog.Triple.bind (R := fun _ s => Counted s none) ?_ fun _ => ?_
  · exact Prog.Triple.modify fun s h => h.ready rfl rfl
  · exact Prog.Keeps.get_bind fun t => Prog.Keeps.pure _

end Fork

section Exit

theorem Sys.unrun_files (s : Sys) (i : Nat) : (s.unrun i).files = s.files := by
  unfold Sys.unrun
  split <;> rfl

theorem Sys.unrun_holds (s : Sys) (i : Nat) : (s.unrun i).holds = s.holds := by
  unfold Sys.unrun
  split
  · exact Sys.holds_setProc rfl
  · rfl

/-- Yielding neither frees a slot nor ends a process. -/
theorem Sys.unrun_state (s : Sys) (i j : Nat) :
    ((s.unrun i).procs j).state = (s.procs j).state ∨
      (s.procs j).state = .running ∧ ((s.unrun i).procs j).state = .runnable := by
  unfold Sys.unrun
  split
  · rename_i hrunning
    by_cases hj : j = i
    · subst hj
      exact Or.inr ⟨hrunning, by simp [Sys.setState]⟩
    · exact Or.inl (by rw [Sys.setState, Sys.setProc_of_ne s hj])
  · exact Or.inl rfl

/-- The processor goes back to the scheduler. -/
theorem Counted.yield (i : Nat) (href : ∀ f, f < nfile →
      (s.files.slot f).ref = pointing descriptors s.holds f + if held = some f then 1 else 0)
    (hused : ∀ f, f < nfile → (s.files.used f = true ↔ 1 ≤ (s.files.slot f).ref))
    (hlt : ∀ d ∈ descriptors, ∀ f, s.holds d = some f → f < nfile)
    (hidle : ∀ d ∈ descriptors,
      (s.procs d.1).state = .unused ∨ (s.procs d.1).state = .zombie → s.holds d = none) :
    ∃ s', procYield i s = (.ok (), s') ∧ Counted s' held := by
  refine ⟨{ s.unrun i with current := none }, rfl, ?_, ?_, ?_, ?_, fun j hj => by cases hj⟩
  · intro f hf
    change ((s.unrun i).files.slot f).ref = pointing descriptors (s.unrun i).holds f + _
    rw [s.unrun_files, s.unrun_holds]
    exact href f hf
  · intro f hf
    change (s.unrun i).files.used f = true ↔ 1 ≤ ((s.unrun i).files.slot f).ref
    rw [s.unrun_files]
    exact hused f hf
  · intro d hd f hf
    change (s.unrun i).holds d = some f at hf
    rw [s.unrun_holds] at hf
    exact hlt d hd f hf
  · intro d hd hstate
    change (s.unrun i).holds d = none
    rw [s.unrun_holds]
    refine hidle d hd ?_
    rcases s.unrun_state i d.1 with hsame | ⟨_, hrunnable⟩
    · exact hsame ▸ hstate
    · exact absurd (hrunnable ▸ hstate) (by decide)

theorem procYield_counted (i : Nat) (h : Counted s held) :
    ∃ s', procYield i s = (.ok (), s') ∧ Counted s' held :=
  Counted.yield i h.ref h.used h.lt h.idle

theorem procExit_counted (status : Int) (h : Calling i none s) :
    ∃ s', procExit i status s = (.ok (), s') ∧ Counted s' none := by
  obtain ⟨s₁, hloop, ⟨hcounted, hcurrent⟩, hempty⟩ :=
    Prog.forCount_inv (closeIfOpen i)
      (fun fd s => Calling i none s ∧ ∀ n, n < fd → (s.procs i).ofile n = none) nofile 0 s
      ⟨h, fun n hn => absurd hn (Nat.not_lt_zero n)⟩ fun fd s _ hlt ⟨hs, hn⟩ => by
        obtain ⟨s', hrun, hcounted, hcurrent, hofile⟩ :=
          closeIfOpen_spec hs.counted hs.lt (show fd < nofile by omega)
        refine ⟨s', hrun, ⟨hcounted, hcurrent.trans hs.current⟩, fun n hlt => ?_⟩
        rw [hofile]
        by_cases hnfd : n = fd
        · rw [hnfd, Function.update_self]
        · rw [Function.update_of_ne hnfd]
          exact hn n (by omega)
  let p : Proc := { s₁.procs i with exitStatus := status, state := .zombie }
  have hholds : (s₁.setProc i p).holds = s₁.holds := Sys.holds_setProc rfl
  obtain ⟨s', hyield, hcounted'⟩ := @Counted.yield (s₁.setProc i p) none i
    (fun f hf => hholds ▸ hcounted.ref f hf) hcounted.used
    (fun d hd f hf => hcounted.lt d hd f (hholds ▸ hf)) fun d hd hstate => by
      rw [hholds]
      by_cases hdi : d.1 = i
      · have hfd : d.2 < 0 + nofile := by
          rw [Nat.zero_add]
          exact (mem_descriptors.mp (Prod.eta d ▸ hd)).2
        rw [Sys.holds, hdi]
        exact hempty d.2 hfd
      · rw [Sys.setProc_of_ne s₁ hdi] at hstate
        exact hcounted.idle d hd hstate
  refine ⟨s', ?_, hcounted'⟩
  rw [procExit, Prog.bind_ok hloop, Prog.modify_bind]
  exact hyield

end Exit

section Wait

theorem waitZombie_some {pid : Int} {c : Nat} (h : waitZombie s i pid = some c) :
    c < nproc ∧ (s.procs c).parent = some i ∧ (pid = -1 ∨ (s.procs c).pid = pid) ∧
      (s.procs c).state = .zombie := by
  have hreap := List.find?_some h
  simp only [isReapable, isChild, Bool.and_eq_true, decide_eq_true_eq] at hreap
  exact ⟨List.mem_range.mp (List.mem_of_find?_eq_some h), hreap.1.1.1, hreap.1.2, hreap.2⟩

/-- A zombie has closed its files, so that its slot can be given back. -/
theorem procWaitPass_counted (i : Nat) (pid : Int) :
    Prog.Keeps (fun s => Counted s none) (procWaitPass i pid) := by
  refine Prog.Triple.get_bind fun t ht => ?_
  refine Prog.Triple.elim ?_ fun c hc => ?_
  · exact Prog.Triple.ite (fun _ => Prog.Triple.pure fun s hs => hs ▸ ht)
      fun _ => Prog.Triple.fail fun s hs => hs ▸ ht
  obtain ⟨hlt, _, _, hstate⟩ := waitZombie_some hc
  let Zombie := fun s : Sys => Counted s none ∧ (s.procs c).state = .zombie
  have hmm : ∀ m : Vm Unit, Prog.Triple Zombie (onMm m) (fun _ => Zombie)
      (fun _ s => Counted s none) (fun s => Counted s none) := fun m =>
    Prog.Triple.conseq
      (Prog.Keeps.zoom fun mm (s : Sys) (h : Zombie s) =>
        (⟨h.1.withMm mm, h.2⟩ : Zombie { s with mm := mm }))
      (fun _ => id) (fun _ _ => id) (fun _ _ h => h.1) fun _ h => h.1
  refine Prog.Triple.bind (R := fun _ s => Counted s none) ?_ fun r => Prog.Triple.pure fun _ => id
  refine Prog.Triple.get_bind fun u hu => Prog.Triple.pre (P := Zombie) ?_ fun s hs => ?_
  · refine Prog.Triple.bind (hmm _) fun _ => Prog.Triple.bind (hmm _) fun _ => ?_
    refine Prog.Triple.bind (R := fun _ s => Counted s none) ?_ fun _ => Prog.Triple.pure fun _ => id
    refine Prog.Triple.modify fun s ⟨h, hzombie⟩ => h.setProc rfl (fun _ fd hfd => ?_) fun hcur => ?_
    · exact h.idle (c, fd) (mem_descriptors.mpr ⟨hlt, hfd⟩) (Or.inr hzombie)
    · have hrunning := (h.current c hcur).2
      rw [hzombie] at hrunning
      cases hrunning
  · rw [hs, hu]
    exact ⟨ht, hstate⟩

end Wait

end OsAgentLab
