/-
What a redirected builtin leaves alone while it runs: processes and open files, up to
directories and positions.
-/
import OsAgentLab.Proc.CallCounts
import OsAgentLab.Proc.FileBytes
import OsAgentLab.Proc.Redirect

namespace OsAgentLab

variable {s s' : Sys} {held : Option Nat} {i fd f : Nat} {α β : Type}

section Frame

/-- Processes and open files are the same up to directories and positions. -/
structure SameFiles (s s' : Sys) : Prop where
  current : s'.current = s.current
  proc : ∀ j, ∃ cwd, s'.procs j = { s.procs j with cwd := cwd }
  used : s'.files.used = s.files.used
  slot : ∀ g, ∃ off, s'.files.slot g = { s.files.slot g with off := off }

namespace SameFiles

theorem refl (s : Sys) : SameFiles s s where
  current := rfl
  proc j := ⟨(s.procs j).cwd, rfl⟩
  used := rfl
  slot g := ⟨(s.files.slot g).off, rfl⟩

theorem holds (h : SameFiles s s') : s'.holds = s.holds := by
  funext d
  obtain ⟨cwd, hproc⟩ := h.proc d.1
  rw [Sys.holds, hproc, Sys.holds]

theorem ref (h : SameFiles s s') (g : Nat) : (s'.files.slot g).ref = (s.files.slot g).ref := by
  obtain ⟨off, hslot⟩ := h.slot g
  rw [hslot]

theorem counted (h : SameFiles s s') (hc : Counted s held) : Counted s' held where
  ref g hg := by rw [h.ref, h.holds, hc.ref g hg]
  used g hg := by rw [h.used, h.ref, hc.used g hg]
  lt d hd g := by
    rw [h.holds]
    exact hc.lt d hd g
  idle d hd := by
    obtain ⟨cwd, hproc⟩ := h.proc d.1
    rw [hproc, h.holds]
    exact hc.idle d hd
  current j := by
    obtain ⟨cwd, hproc⟩ := h.proc j
    rw [hproc, h.current]
    exact hc.current j

/-- A state that differs in memory and file system only. -/
theorem withFs (h : SameFiles s s') (k : Kernel) : SameFiles s { s' with fs := k } :=
  ⟨h.current, h.proc, h.used, h.slot⟩

theorem withMm (h : SameFiles s s') (mm : Mm) : SameFiles s { s' with mm := mm } :=
  ⟨h.current, h.proc, h.used, h.slot⟩

end SameFiles

end Frame

section Kernel

theorem onFs_sameFiles (m : Kern α) : Prog.Keeps (SameFiles s) (onFs m) :=
  Prog.Keeps.zoom fun k _ h => h.withFs k

theorem onMm_sameFiles (m : Vm α) : Prog.Keeps (SameFiles s) (onMm m) :=
  Prog.Keeps.zoom fun mm _ h => h.withMm mm

theorem procCurrent_reads {I : Sys → Prop} (e : Errno) : Prog.Keeps I (procCurrent e) := by
  refine Prog.Keeps.of_snd fun t => ?_
  rw [procCurrent]
  cases t.current <;> rfl

theorem copyinPath_sameFiles (i ptr : Nat) : Prog.Keeps (SameFiles s) (copyinPath i ptr) :=
  Prog.Keeps.get_bind fun _ =>
    Prog.Keeps.bind (Prog.Keeps.orElse (onMm_sameFiles _)) fun _ => Prog.Keeps.pure _

theorem storeOff_sameFiles (f off : Nat) : Prog.Keeps (SameFiles s) (storeOff f off) := by
  refine Prog.Keeps.modify fun t h => ⟨h.current, h.proc, h.used, fun g => ?_⟩
  obtain ⟨off', hslot⟩ := h.slot g
  by_cases hg : g = f
  · subst hg
    refine ⟨off, ?_⟩
    rw [Pool.setSlot_slot, if_pos rfl, hslot]
  · refine ⟨off', ?_⟩
    rw [Pool.setSlot_slot, if_neg hg, hslot]

theorem fileWrite_sameFiles (f : Nat) (buf : List UInt8) :
    Prog.Keeps (SameFiles s) (fileWrite f buf) := by
  refine Prog.Keeps.get_bind fun t => Prog.Keeps.ite (Prog.Keeps.fail _) ?_
  refine Prog.Keeps.bind (onFs_sameFiles _) fun n => Prog.Keeps.bind ?_ fun _ => Prog.Keeps.pure _
  exact Prog.Keeps.ite (Prog.Keeps.get_bind fun t => storeOff_sameFiles f _) (Prog.Keeps.pure _)

theorem writeChunk_sameFiles (i f buf : Nat) (pos : Nat × Nat × Int) :
    Prog.Keeps (SameFiles s) (writeChunk i f buf pos) := by
  obtain ⟨left, off, total⟩ := pos
  refine Prog.Keeps.ite (Prog.Keeps.pure _) (Prog.Keeps.get_bind fun t => ?_)
  refine Prog.Keeps.bind (Prog.Keeps.orElse (onMm_sameFiles _)) fun tmp => ?_
  refine Prog.Keeps.bind (fileWrite_sameFiles f tmp) fun n => ?_
  exact Prog.Keeps.ite (Prog.Keeps.pure _) (Prog.Keeps.pure _)

theorem sysWriteFile_sameFiles (i f buf len : Nat) :
    Prog.Keeps (SameFiles s) (sysWriteFile i f buf len) :=
  Prog.Keeps.bind (Prog.Keeps.loop (writeChunk_sameFiles i f buf) _ _) fun _ => Prog.Keeps.pure _

theorem sysChdir_sameFiles (path_ptr : Nat) : Prog.Keeps (SameFiles s) (sysChdir path_ptr) := by
  refine Prog.Keeps.bind (procCurrent_reads _) fun i => ?_
  refine Prog.Keeps.bind (copyinPath_sameFiles i _) fun path => Prog.Keeps.get_bind fun t => ?_
  refine Prog.Keeps.bind (onFs_sameFiles _) fun vn => Prog.Keeps.get_bind fun t => ?_
  refine Prog.Keeps.ite (Prog.Keeps.fail _) (Prog.Keeps.bind ?_ fun _ => Prog.Keeps.pure _)
  refine Prog.Keeps.modify fun t h => ⟨h.current, fun j => ?_, h.used, h.slot⟩
  by_cases hj : j = i
  · subst hj
    obtain ⟨cwd, hproc⟩ := h.proc j
    exact ⟨some vn, by rw [Sys.setProc_self, hproc]⟩
  · rw [Sys.setProc_of_ne t hj]
    exact h.proc j

theorem sysGetcwd_sameFiles (buf_ptr size : Nat) :
    Prog.Keeps (SameFiles s) (sysGetcwd buf_ptr size) := by
  refine Prog.Keeps.bind (procCurrent_reads _) fun i => Prog.Keeps.get_bind fun t => ?_
  refine Prog.Keeps.bind (onFs_sameFiles _) fun tmp => Prog.Keeps.ite (Prog.Keeps.fail _) ?_
  refine Prog.Keeps.get_bind fun t => ?_
  exact Prog.Keeps.bind (Prog.Keeps.orElse (onMm_sameFiles _)) fun _ => Prog.Keeps.pure _

end Kernel

section Terminal

/-- A fact about the kernel state, in programs over the terminal as well. -/
def WithTty (I : Sys → Prop) (t : Sys × Tty) : Prop := I t.1

theorem onSys_keeps {I : Sys → Prop} {m : SysM α} (h : Prog.Keeps I m) :
    Prog.Keeps (WithTty I) (onSys m) := by
  refine Prog.Triple.zoom fun t ht => ?_
  refine h.conseq ?_ (fun _ _ hs => hs) (fun _ _ hs => hs) fun _ hs => hs
  rintro _ rfl
  exact ht

theorem uartPutc_keeps {I : Sys → Prop} (c : UInt8) : Prog.Keeps (WithTty I) (uartPutc c) :=
  Prog.Keeps.modify fun _ h => h

theorem ttyWrite_sameFiles (i buf len : Nat) :
    Prog.Keeps (WithTty (SameFiles s)) (ttyWrite i buf len) := by
  refine Prog.Keeps.bind (Prog.Keeps.loop (fun pos => ?_) _ _) fun _ => Prog.Keeps.pure _
  obtain ⟨left, off⟩ := pos
  refine Prog.Keeps.ite (Prog.Keeps.pure _) (Prog.Keeps.get_bind fun t => ?_)
  refine Prog.Keeps.bind (Prog.Keeps.orElse (onSys_keeps (onMm_sameFiles _))) fun tmp => ?_
  refine Prog.Keeps.bind (Prog.Keeps.forCount (fun k => uartPutc_keeps _) _ _) fun _ => ?_
  exact Prog.Keeps.pure _

theorem sysWrite_sameFiles (fd buf len : Nat) :
    Prog.Keeps (WithTty (SameFiles s)) (sysWrite fd buf len) := by
  refine Prog.Keeps.bind (onSys_keeps (procCurrent_reads _)) fun i => ?_
  refine Prog.Keeps.get_bind fun t => Prog.Keeps.ite (Prog.Keeps.fail _) ?_
  refine Prog.Keeps.elim ?_ fun f => onSys_keeps (sysWriteFile_sameFiles i f buf len)
  exact Prog.Keeps.ite (ttyWrite_sameFiles i buf len) (Prog.Keeps.fail _)

theorem sameFiles_of_run {m : TtyM α} {a : α} {tty tty' : Tty}
    (h : Prog.Keeps (WithTty (SameFiles s)) m) (hrun : m (s, tty) = (.ok a, (s', tty'))) :
    SameFiles s s' := by
  have hpost := h (s, tty) (SameFiles.refl s)
  rw [hrun] at hpost
  exact hpost

end Terminal

namespace Shell

section Builtins

variable {I : Sys × Tty → Prop} {write : Nat → Nat → Nat → TtyM Int}

theorem wrapRet_keeps {m : TtyM Int} (h : Prog.Keeps I m) : Prog.Keeps I (wrapRet m) :=
  Prog.Keeps.bind (Prog.Keeps.onErr h fun _ => Prog.Keeps.pure _) fun _ =>
    Prog.Keeps.ite (Prog.Keeps.pure _) (Prog.Keeps.pure _)

theorem outPieces_keeps (h : ∀ fd buf len, Prog.Keeps I (write fd buf len)) (fd : Nat)
    (pieces : List (Nat × Nat)) : Prog.Keeps I (outPieces write fd pieces) := by
  induction pieces with
  | nil => exact Prog.Keeps.pure _
  | cons piece pieces ih =>
      exact Prog.Keeps.bind
        (Prog.Keeps.ite (Prog.Keeps.pure _) (wrapRet_keeps (h fd piece.1 piece.2))) fun _ => ih

theorem builtinPwd_sameFiles (i : Nat) (strings : Strings) :
    Prog.Keeps (WithTty (SameFiles s)) (builtinPwd sysWrite i strings) := by
  refine Prog.Keeps.bind (wrapRet_keeps (onSys_keeps (sysGetcwd_sameFiles _ _))) fun ret => ?_
  refine Prog.Keeps.ite (outPieces_keeps sysWrite_sameFiles _ _) (Prog.Keeps.get_bind fun t => ?_)
  exact Prog.Keeps.elim Prog.Keeps.crash fun len => outPieces_keeps sysWrite_sameFiles _ _

theorem builtinCd_sameFiles (strings : Strings) :
    Prog.Keeps (WithTty (SameFiles s)) (builtinCd strings) := by
  refine Prog.Keeps.bind (wrapRet_keeps (onSys_keeps (sysChdir_sameFiles _))) fun ret => ?_
  exact Prog.Keeps.ite (outPieces_keeps sysWrite_sameFiles _ _) (Prog.Keeps.pure _)

end Builtins

section Output

/-- Writing where descriptor 1 is the open file `f`. -/
def writeTo (i f fd buf len : Nat) : TtyM Int :=
  if fd = 1 then onSys (sysWriteFile i f buf len) else sysWrite fd buf len

/-- The process in slot `i` runs, and its descriptor 1 is the open file `f`. -/
def OutputIs (i f : Nat) (t : Sys × Tty) : Prop :=
  t.1.current = some i ∧ (t.1.procs i).ofile 1 = some f

variable {I : Sys × Tty → Prop} {m m' : TtyM α} {k k' : α → TtyM β}

/-- Two programs that do the same wherever `I` holds. -/
def Agree (I : Sys × Tty → Prop) (m m' : TtyM α) : Prop := ∀ t, I t → m t = m' t

theorem Agree.refl (m : TtyM α) : Agree I m m := fun _ _ => rfl

theorem Agree.bind (h : Agree I m m') (hm : Prog.Keeps I m) (hk : ∀ a, Agree I (k a) (k' a)) :
    Agree I (m >>= k) (m' >>= k') := by
  intro t ht
  have hpost := hm t ht
  simp only [Bind.bind, ← h t ht]
  cases hrun : m t with
  | mk r t' =>
      rw [hrun] at hpost
      cases r with
      | ok a => exact hk a t' hpost
      | err e => rfl
      | fault => rfl
      | diverges => rfl

theorem Agree.wrapRet {m m' : TtyM Int} (h : Agree I m m') :
    Agree I (Shell.wrapRet m) (Shell.wrapRet m') := by
  intro t ht
  simp only [Shell.wrapRet, Bind.bind, Prog.onErr, h t ht]

theorem sysWrite_writeTo (fd buf len : Nat) :
    Agree (OutputIs i f) (sysWrite fd buf len) (writeTo i f fd buf len) := by
  rintro ⟨s, tty⟩ ⟨hcur, hout⟩
  rw [writeTo]
  by_cases hfd : fd = 1
  · subst hfd
    rw [if_pos rfl, sysWrite_open hcur (by decide) hout]
    rfl
  · rw [if_neg hfd]

theorem outPieces_writeTo (hkeep : ∀ fd buf len, Prog.Keeps (OutputIs i f) (sysWrite fd buf len))
    (fd : Nat) (pieces : List (Nat × Nat)) :
    Agree (OutputIs i f) (outPieces sysWrite fd pieces) (outPieces (writeTo i f) fd pieces) := by
  induction pieces with
  | nil => exact fun t _ => rfl
  | cons piece pieces ih =>
      refine Agree.bind (fun t ht => ?_)
        (Prog.Keeps.ite (Prog.Keeps.pure _) (wrapRet_keeps (hkeep fd _ _))) fun _ => ih
      rw [outFd, outFd]
      by_cases hlen : piece.2 = 0
      · rw [if_pos hlen, if_pos hlen]
      · rw [if_neg hlen, if_neg hlen]
        exact (sysWrite_writeTo fd piece.1 piece.2).wrapRet t ht

theorem output_of_sameFiles {t : Sys × Tty} (h : SameFiles t.1 s) (ht : OutputIs i f t) (tty : Tty) :
    OutputIs i f (s, tty) := by
  obtain ⟨cwd, hproc⟩ := h.proc i
  exact ⟨h.current.trans ht.1, by rw [hproc]; exact ht.2⟩

theorem keeps_output {m : TtyM α} (h : ∀ s, Prog.Keeps (WithTty (SameFiles s)) m) :
    Prog.Keeps (OutputIs i f) m := by
  intro t ht
  have hpost := h t.1 t (SameFiles.refl t.1)
  split at hpost
  all_goals exact output_of_sameFiles hpost ht _

/-- With descriptor 1 on an open file, everything that `pwd` writes there goes to the file. -/
theorem builtinPwd_writeTo (strings : Strings) :
    Agree (OutputIs i f) (builtinPwd sysWrite i strings) (builtinPwd (writeTo i f) i strings) := by
  have hwrite : ∀ fd buf len, Prog.Keeps (OutputIs i f) (sysWrite fd buf len) :=
    fun fd buf len => keeps_output fun s => sysWrite_sameFiles fd buf len
  have hgetcwd : Prog.Keeps (OutputIs i f) (wrapRet (onSys (sysGetcwd strings.buf 256))) :=
    wrapRet_keeps (keeps_output fun s => onSys_keeps (sysGetcwd_sameFiles _ _))
  rw [builtinPwd, builtinPwd]
  refine Agree.bind (Agree.refl _) hgetcwd fun ret => ?_
  by_cases hret : ret < 0
  · rw [if_pos hret, if_pos hret]
    exact outPieces_writeTo hwrite _ _
  · rw [if_neg hret, if_neg hret]
    intro t ht
    rw [Prog.get_bind, Prog.get_bind]
    cases userStrlen t.1.mm (t.1.procs i).pagetable 256 strings.buf with
    | none => rw [Option.elim_none, Option.elim_none]
    | some len =>
        rw [Option.elim_some, Option.elim_some]
        exact outPieces_writeTo hwrite _ _ t ht

end Output

end Shell

end OsAgentLab
