/-
The process table: allocation of a slot, `proc_fork`, `proc_wait`, `proc_exit`,
`sys_brk` and `sys_getppid`.
-/
import OsAgentLab.Proc.Files
import OsAgentLab.Proc.Exec

namespace OsAgentLab

section Alloc

/-- `proc_find_unused`. -/
def procFindUnused (s : Sys) : Option Nat :=
  (List.range nproc).find? fun i => decide ((s.procs i).state = .unused)

/-- `g_next_pid++` and the stores into the slot that was found. -/
def procClaim (i : Nat) : SysM Unit := Prog.modify fun s =>
  { s.setProc i { Proc.zero with state := .used, pid := s.nextPid } with
    nextPid := Int.bmod (s.nextPid + 1) 4294967296 }

/-- `p->state = PROC_UNUSED` and the null pointer that `proc_alloc` returns. -/
def procDrop (i : Nat) : SysM (Option Nat) := do
  Prog.modify fun s => s.setState i .unused
  pure none

/-- `proc_alloc`: the slot of the new process. -/
def procAlloc : SysM (Option Nat) := do
  let s ← Prog.get
  (procFindUnused s).elim (pure none) fun i => do
    procClaim i
    let tf ← onMm kalloc
    tf.elim (procDrop i) fun tf => do
      Prog.modify fun s =>
        s.setProc i { s.procs i with kstack := s.image.kstacks + i * kstackSize, tf := tf }
      let pt ← onMm uvmCreate
      pt.elim (onMm (kfree tf) >>= fun _ => procDrop i) fun pt => do
        Prog.modify fun s =>
          s.setProc i { s.procs i with
            pagetable := pt
            ctx := ⟨s.image.procStart, s.image.kstacks + i * kstackSize + kstackSize, fun _ => 0⟩
            cwd := s.fs.root }
        pure (some i)

end Alloc

section Fork

/-- The address space of the process in slot `i` is copied to that in slot `j`;
when memory runs out, everything that slot `j` holds is given back. -/
def forkSpace (i j : Nat) : SysM Unit := do
  let s ← Prog.get
  let p := s.procs i
  let np := s.procs j
  Prog.onErr
    (onMm do
      uvmCopy p.pagetable np.pagetable p.sz
      uvmCopyRange p.pagetable np.pagetable userStackBase userStackTop)
    fun _ => do
      onMm (uvmFree np.pagetable)
      onMm (kfree np.tf)
      Prog.modify fun s => s.setState j .unused
      Prog.fail .nomem

/-- `memcpy(np->tf, tf, sizeof(*tf))` and `np->tf->a0 = 0`. -/
def forkTrapframe (dst src : Nat) : Vm Unit := do
  Prog.modify fun s => { s with mem := overlay s.mem dst 264 fun i => s.mem (src + i) }
  store64 (dst + 176) 0

/-- The loop body that shares one descriptor with the child. -/
def forkFile (i j fd : Nat) : SysM Unit := do
  let s ← Prog.get
  ((s.procs i).ofile fd).elim (pure ()) fun f => do
    fileDup f
    storeOfile j fd (some f)

/-- `proc_fork`; `tf` is the trapframe of the system call, or a null pointer. -/
def procFork (tf : Nat) : SysM Int := do
  let i ← procCurrent .inval
  let np ← procAlloc
  np.elim (Prog.fail .nomem) fun j => do
    forkSpace i j
    Prog.modify fun s => s.setProc j { s.procs j with sz := (s.procs i).sz }
    let s ← Prog.get
    onMm (forkTrapframe (s.procs j).tf (if tf = 0 then (s.procs i).tf else tf))
    Prog.modify fun s => s.setProc j { s.procs j with parent := some i }
    Prog.forCount (forkFile i j) nofile 0
    Prog.modify fun s =>
      s.setProc j { s.procs j with cwd := (s.procs i).cwd, state := .runnable }
    let s ← Prog.get
    pure (s.procs j).pid

end Fork

section Wait

/-- `c->parent == p`, and the slot is in use. -/
def isChild (s : Sys) (i c : Nat) : Bool :=
  decide ((s.procs c).parent = some i) && decide ((s.procs c).state ≠ .unused)

/-- A child that `proc_wait` gives back when it is asked for `pid`. -/
def isReapable (s : Sys) (i : Nat) (pid : Int) (c : Nat) : Bool :=
  isChild s i c && decide (pid = -1 ∨ (s.procs c).pid = pid) &&
    decide ((s.procs c).state = .zombie)

/-- The first child that `proc_wait` of the process in slot `i` gives back. -/
def waitZombie (s : Sys) (i : Nat) (pid : Int) : Option Nat :=
  (List.range nproc).find? (isReapable s i pid)

/-- The slot `c` of a zombie is given back; the result is its pid and its exit
status. -/
def procReap (c : Nat) : SysM (Int × Int) := do
  let s ← Prog.get
  let p := s.procs c
  onMm (uvmFree p.pagetable)
  onMm (kfree p.tf)
  Prog.modify fun s => s.setProc c { s.procs c with parent := none, state := .unused }
  pure (p.pid, p.exitStatus)

/-- One pass of the endless loop of `proc_wait`, for the process in slot `i`;
`none` means that it yields and tries again. -/
def procWaitPass (i : Nat) (pid : Int) : SysM (Option (Int × Int)) := do
  let s ← Prog.get
  (waitZombie s i pid).elim
    (if (List.range nproc).any (isChild s i) then pure none else Prog.fail .child)
    fun c => do
      let r ← procReap c
      pure (some r)

end Wait

section Exit

/-- A running process becomes runnable. -/
def Sys.unrun (s : Sys) (i : Nat) : Sys :=
  if (s.procs i).state = .running then s.setState i .runnable else s

/-- `proc_yield`, up to the point where the scheduler has the processor again
and has cleared `g_current`. -/
def procYield (i : Nat) : SysM Unit := Prog.modify fun s => { s.unrun i with current := none }

/-- `proc_exit` for the process in slot `i`. -/
def procExit (i : Nat) (status : Int) : SysM Unit := do
  Prog.forCount (closeIfOpen i) nofile 0
  Prog.modify fun s => s.setProc i { s.procs i with exitStatus := status, state := .zombie }
  procYield i

/-- `sys_getppid`. -/
def sysGetppid : SysM Int := do
  let i ← procCurrent .inval
  let s ← Prog.get
  (s.procs i).parent.elim (pure 0) fun p => pure (s.procs p).pid

end Exit

section Brk

/-- The break of the process in slot `i` moves to `addr`. -/
def storeSz (i addr : Nat) : SysM Int := do
  Prog.modify fun s => s.setProc i { s.procs i with sz := addr }
  pure addr

/-- `sys_brk`. -/
def sysBrk (addr : Nat) : SysM Int := do
  let i ← procCurrent .inval
  let s ← Prog.get
  let p := s.procs i
  if addr = 0 ∨ addr < userBase ∨ userStackBase < addr then pure p.sz
  else if p.sz < addr then do
    let grown ← Prog.attempt (onMm (uvmAlloc p.pagetable p.sz addr (pteR ||| pteW ||| pteU)))
    grown.toOption.elim (pure p.sz) fun _ => storeSz i addr
  else if addr < p.sz then do
    onMm (uvmDealloc p.pagetable p.sz addr)
    storeSz i addr
  else pure p.sz

end Brk

end OsAgentLab
