/-
Runs of the kernel: `kernel_main` starts processes, the scheduler hands the
processor from one to the next, and the running process makes system calls.
-/
import OsAgentLab.Proc.Calls

namespace OsAgentLab

/-- The system calls that come back without waiting for another process. -/
inductive Call where
  | openat (dirfd path flags : Nat)
  | close (fd : Nat)
  | dup (fd : Nat)
  | dup3 (oldfd newfd : Nat)
  | fork
  | exec (path : CName) (argv : Option (List CName))
  | brk (addr : Nat)

/-- Where the trap handler left the trapframe of the current process: below the
top of its kernel stack. -/
def callFrame (s : Sys) : Nat :=
  s.current.elim 0 fun i => (s.procs i).kstack + kstackSize - 264

/-- `syscall_dispatch`. -/
def Call.run : Call → SysM Int
  | openat dirfd path flags => sysOpenat dirfd path flags
  | close fd => sysClose fd
  | dup fd => sysDup fd
  | dup3 oldfd newfd => sysDup3 oldfd newfd
  | fork => fun s => procFork (callFrame s) s
  | exec path argv => procExec path argv
  | brk addr => sysBrk addr

/-- What can happen next. -/
inductive Event where
  | alloc
  | execOn (i : Nat) (path : CName) (argv : Option (List CName))
  | schedule (i : Nat)
  | preempt
  | store (va : Nat) (byte : UInt8)
  | call (c : Call)
  | exit (status : Int)
  | wait (pid : Int)

/-- The kernel between two steps.  `booting` holds until `scheduler` is entered;
`waiting` is the argument of the `proc_wait` in which a process yielded; `maker`
remembers the slot and the pid of the process whose `proc_fork` made the process
in a slot. -/
structure Run where
  sys : Sys
  booting : Bool
  waiting : Nat → Option Int
  maker : Nat → Option (Nat × Int)

/-- Who made which process, behind a call. -/
def Call.maker (c : Call) (s : Sys) (v : Outcome Errno Int) (maker : Nat → Option (Nat × Int)) :
    Nat → Option (Nat × Int) :=
  match c, v, s.current, procFindUnused s with
  | fork, .ok _, some i, some j => Function.update maker j (some (i, (s.procs i).pid))
  | _, _, _, _ => maker

namespace Run

/-- The call comes back, with a value or with an error. -/
def Returns {α : Type} (r : Outcome Errno α) : Prop := r.IsOk ∨ r.IsErr

/-- One step of the kernel. -/
inductive Step (r : Run) : Event → Run → Prop
  /-- `proc_alloc` in `kernel_main`. -/
  | alloc {np : Option Nat} {s' : Sys} (hboot : r.booting = true)
      (hrun : procAlloc r.sys = (.ok np, s')) : Step r .alloc { r with sys := s' }
  /-- `proc_exec_on` in `kernel_main`; the process becomes runnable. -/
  | execOn {i : Nat} {path : CName} {argv : Option (List CName)} {v : Int} {s' : Sys}
      (hboot : r.booting = true) (hlt : i < nproc) (hused : (r.sys.procs i).state = .used)
      (hrun : procExecOn i path argv r.sys = (.ok v, s')) :
      Step r (.execOn i path argv) { r with sys := s'.setState i .runnable }
  /-- `proc_exec_on` in `kernel_main` fails. -/
  | execOnFails {i : Nat} {path : CName} {argv : Option (List CName)} {e : Errno}
      {s' : Sys} (hboot : r.booting = true) (hlt : i < nproc)
      (hused : (r.sys.procs i).state = .used)
      (hrun : procExecOn i path argv r.sys = (.err e, s')) :
      Step r (.execOn i path argv) { r with sys := s' }
  /-- The scheduler switches to a process. -/
  | schedule {i : Nat} (hlt : i < nproc) (hidle : r.sys.current = none)
      (hready : (r.sys.procs i).state = .runnable) :
      Step r (.schedule i)
        { r with
          booting := false
          sys := { r.sys.setState i .running with
            current := some i
            mm := { r.sys.mm with satp := (r.sys.procs i).pagetable } } }
  /-- A timer interrupt in user mode. -/
  | preempt {i : Nat} {s' : Sys} (hcur : r.sys.current = some i)
      (hwait : r.waiting i = none) (hrun : procYield i r.sys = (.ok (), s')) :
      Step r .preempt { r with sys := s' }
  /-- A store of the process into a page of its own. -/
  | store {i va pa : Nat} {byte : UInt8} (hcur : r.sys.current = some i)
      (hwait : r.waiting i = none) (hva : va < userLimit)
      (hwalk : walkaddr (r.sys.procs i).pagetable va r.sys.mm = (.ok pa, r.sys.mm))
      (hpa : pa ≠ 0) :
      Step r (.store va byte)
        { r with sys := { r.sys with
          mm := { r.sys.mm with mem := Function.update r.sys.mm.mem pa byte } } }
  /-- A system call that comes back. -/
  | call {i : Nat} {c : Call} {v : Outcome Errno Int} {s' : Sys}
      (hcur : r.sys.current = some i) (hwait : r.waiting i = none)
      (hrun : c.run r.sys = (v, s')) (hreturns : Returns v) :
      Step r (.call c) { r with sys := s', maker := c.maker r.sys v r.maker }
  /-- The kernel runs into an invalid access in a call, and the trap handler ends
  the process. -/
  | trap {i : Nat} {c : Call} {s' s'' : Sys} (hcur : r.sys.current = some i)
      (hwait : r.waiting i = none) (hrun : c.run r.sys = (.fault, s'))
      (hexit : procExit i (-1) s' = (.ok (), s'')) : Step r (.call c) { r with sys := s'' }
  /-- `proc_exit`, by the process or on its behalf. -/
  | exit {i : Nat} {status : Int} {s' : Sys} (hcur : r.sys.current = some i)
      (hwait : r.waiting i = none) (hrun : procExit i status r.sys = (.ok (), s')) :
      Step r (.exit status) { r with sys := s' }
  /-- `proc_wait` comes back. -/
  | wait {i : Nat} {pid : Int} {v : Outcome Errno (Option (Int × Int))} {s' : Sys}
      (hcur : r.sys.current = some i) (hwait : r.waiting i = none ∨ r.waiting i = some pid)
      (hrun : procWaitPass i pid r.sys = (v, s')) (hreturns : Returns v) (hdone : v ≠ .ok none) :
      Step r (.wait pid) { r with sys := s', waiting := Function.update r.waiting i none }
  /-- `proc_wait` finds no zombie and yields. -/
  | waitYields {i : Nat} {pid : Int} {s' s'' : Sys} (hcur : r.sys.current = some i)
      (hwait : r.waiting i = none ∨ r.waiting i = some pid)
      (hrun : procWaitPass i pid r.sys = (.ok none, s')) (hyield : procYield i s' = (.ok (), s'')) :
      Step r (.wait pid) { r with sys := s'', waiting := Function.update r.waiting i (some pid) }

/-- Any number of steps, each of which meets `ok` in the state before it. -/
inductive Steps (ok : Event → Run → Prop) : Run → Run → Prop
  | refl (r : Run) : Steps ok r r
  | tail {r r' r'' : Run} {e : Event} : Steps ok r r' → ok e r' → Step r' e r'' → Steps ok r r''

/-- The kernel when `proc_init` has returned: no process, and no open file. -/
structure Initial (r : Run) : Prop where
  booting : r.booting = true
  current : r.sys.current = none
  procs : ∀ i, r.sys.procs i = Proc.zero
  unused : ∀ f, r.sys.files.used f = false
  refs : ∀ f, (r.sys.files.slot f).ref = 0
  waiting : ∀ i, r.waiting i = none

/-- Any step may be taken. -/
def anyStep (_ : Event) (_ : Run) : Prop := True

/-- What holds at first and is kept by every step holds in every run. -/
theorem Steps.invariant {ok : Event → Run → Prop} {P : Run → Prop} {r r' : Run}
    (h : Steps ok r r') (hfirst : P r)
    (hstep : ∀ e r r', P r → ok e r → Step r e r' → P r') : P r' := by
  induction h with
  | refl => exact hfirst
  | tail _ hok hlast ih => exact hstep _ _ _ ih hok hlast

end Run

end OsAgentLab
