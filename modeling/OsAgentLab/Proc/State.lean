/-
The state of the whole kernel: the file system, physical memory, the table of
open files and the process table.
-/
import Mathlib.Logic.Function.Basic
import OsAgentLab.Vfs
import OsAgentLab.Vm.PageTable

namespace OsAgentLab

/-- `NPROC`, `NOFILE`, `NFILE` and `KSTACK_SIZE`. -/
def nproc : Nat := 16
def nofile : Nat := 16
def nfile : Nat := 64
def kstackSize : Nat := 8192

/-- `enum proc_state`. -/
inductive ProcState where
  | unused
  | used
  | runnable
  | running
  | sleeping
  | zombie
deriving DecidableEq, Repr

/-- `struct context`; `s i` is `s0` up to `s11`. -/
structure Context where
  ra : Nat
  sp : Nat
  s : Nat → Nat

/-- `struct file`. -/
structure OpenFile where
  ref : Int
  readable : Bool
  writable : Bool
  off : Nat
  vn : Option Nat
deriving DecidableEq, Repr

/-- `struct proc`.  Trapframe and page table are addresses, open files are
indices into `g_file`, and the parent is an index into `g_procs`. -/
structure Proc where
  pid : Int
  state : ProcState
  tf : Nat
  ctx : Context
  pagetable : Nat
  sz : Nat
  kstack : Nat
  cwd : Option Nat
  ofile : Nat → Option Nat
  parent : Option Nat
  exitStatus : Int

/-- `memset(p, 0, sizeof(*p))`. -/
def Proc.zero : Proc where
  pid := 0
  state := .unused
  tf := 0
  ctx := ⟨0, 0, fun _ => 0⟩
  pagetable := 0
  sz := 0
  kstack := 0
  cwd := none
  ofile _ := none
  parent := none
  exitStatus := 0

/-- Where the linker put `g_kstacks` and `proc_start`. -/
structure Image where
  kstacks : Nat
  procStart : Nat

/-- The kernel state; `sstatus` is the control register. -/
structure Sys where
  fs : Kernel
  mm : Mm
  files : Pool OpenFile
  procs : Nat → Proc
  current : Option Nat
  nextPid : Int
  image : Image
  sstatus : Nat

/-- Programs over the kernel state. -/
abbrev SysM (α : Type) : Type := Prog Sys Errno α

/-- A file-system call. -/
def onFs {α : Type} (m : Kern α) : SysM α :=
  Prog.zoom Sys.fs (fun k s => { s with fs := k }) m

/-- A call that works on physical memory. -/
def onMm {α : Type} (m : Vm α) : SysM α :=
  Prog.zoom Sys.mm (fun mm s => { s with mm := mm }) m

namespace Sys

variable (s : Sys)

/-- A store into slot `i` of the process table. -/
def setProc (i : Nat) (p : Proc) : Sys := { s with procs := Function.update s.procs i p }

/-- `p->state = state` for the process in slot `i`. -/
def setState (i : Nat) (state : ProcState) : Sys :=
  s.setProc i { s.procs i with state := state }

/-- `p->ofile[fd] = f` for the process in slot `i`. -/
def setOfile (i fd : Nat) (f : Option Nat) : Sys :=
  s.setProc i { s.procs i with ofile := Function.update (s.procs i).ofile fd f }

@[simp] theorem setProc_self (i : Nat) (p : Proc) : (s.setProc i p).procs i = p :=
  Function.update_self ..

theorem setProc_of_ne {i j : Nat} (h : j ≠ i) (p : Proc) : (s.setProc i p).procs j = s.procs j :=
  Function.update_of_ne h ..

@[simp] theorem setProc_files (i : Nat) (p : Proc) : (s.setProc i p).files = s.files := rfl

@[simp] theorem setState_files (i : Nat) (state : ProcState) :
    (s.setState i state).files = s.files := rfl

@[simp] theorem setOfile_files (i fd : Nat) (f : Option Nat) :
    (s.setOfile i fd f).files = s.files := rfl

end Sys

end OsAgentLab
