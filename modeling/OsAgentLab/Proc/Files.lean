/-
Open files: the table of `file.c`, and the system calls that open, close and
duplicate descriptors.
-/
import OsAgentLab.Proc.State

namespace OsAgentLab

section Table

/-- `file_alloc`. -/
def fileAlloc : SysM (Option Nat) := fun s =>
  match s.files.firstFree nfile with
  | none => (.ok none, s)
  | some f => (.ok (some f), { s with files := s.files.take f ⟨1, false, false, 0, none⟩ })

/-- `file_dup` of a file that is not null. -/
def fileDup (f : Nat) : SysM Unit := Prog.modify fun s =>
  { s with files := s.files.setSlot f { s.files.slot f with ref := (s.files.slot f).ref + 1 } }

/-- What `file_close` does to the table of files. -/
def closeEntry (files : Pool OpenFile) (f : Nat) : Pool OpenFile :=
  if (files.slot f).ref - 1 = 0 then (files.setSlot f ⟨0, false, false, 0, none⟩).release f
  else files.setSlot f { files.slot f with ref := (files.slot f).ref - 1 }

/-- `file_close` of a file that is not null. -/
def fileClose (f : Nat) : SysM Unit := Prog.modify fun s =>
  { s with files := closeEntry s.files f }

/-- `f->vn`, `f->readable`, `f->writable` and `f->off` are stored. -/
def fileFill (f : Nat) (file : OpenFile) : SysM Unit := Prog.modify fun s =>
  { s with files := s.files.setSlot f { file with ref := (s.files.slot f).ref } }

end Table

section Descriptors

/-- The current process; without one the calls return an error. -/
def procCurrent (e : Errno) : SysM Nat := fun s =>
  match s.current with
  | none => (.err e, s)
  | some i => (.ok i, s)

/-- `p->ofile[fd]`, with an error for a bad descriptor. -/
def ofileOf (i fd : Nat) : SysM Nat := fun s =>
  if nofile ≤ fd then (.err .badf, s)
  else match (s.procs i).ofile fd with
    | none => (.err .badf, s)
    | some f => (.ok f, s)

/-- `p->ofile[fd] = f`. -/
def storeOfile (i fd : Nat) (f : Option Nat) : SysM Unit := Prog.modify fun s => s.setOfile i fd f

/-- `fdalloc`. -/
def fdalloc (i f : Nat) : SysM Nat := fun s =>
  match (List.range' 3 (nofile - 3)).find? fun fd => ((s.procs i).ofile fd).isNone with
  | none => (.err .mfile, s)
  | some fd => (.ok fd, s.setOfile i fd (some f))

/-- `fdalloc`, after which `file_close` gives the file back when it failed. -/
def fdallocOrClose (i f : Nat) : SysM Nat :=
  Prog.onErr (fdalloc i f) fun e => do
    fileClose f
    Prog.fail e

/-- `file_close(p->ofile[fd])` and `p->ofile[fd] = NULL`. -/
def closeOfile (i fd f : Nat) : SysM Unit := do
  fileClose f
  storeOfile i fd none

/-- `closeOfile` where the descriptor is open. -/
def closeIfOpen (i fd : Nat) : SysM Unit := do
  let s ← Prog.get
  ((s.procs i).ofile fd).elim (pure ()) fun f => closeOfile i fd f

/-- `sys_close`. -/
def sysClose (fd : Nat) : SysM Int := do
  let i ← procCurrent .badf
  let f ← ofileOf i fd
  closeOfile i fd f
  pure 0

/-- `sys_dup`. -/
def sysDup (fd : Nat) : SysM Int := do
  let i ← procCurrent .badf
  let f ← ofileOf i fd
  fileDup f
  let newfd ← fdallocOrClose i f
  pure newfd

/-- `sys_dup3`. -/
def sysDup3 (oldfd newfd : Nat) : SysM Int := do
  let i ← procCurrent .badf
  if nofile ≤ newfd then Prog.fail .badf
  else do
    let _ ← ofileOf i oldfd
    if oldfd = newfd then pure newfd
    else do
      closeIfOpen i newfd
      -- the pointer is read again, behind the close
      let f ← ofileOf i oldfd
      fileDup f
      storeOfile i newfd (some f)
      pure newfd

end Descriptors

section Open

/-- `AT_FDCWD` as a register value. -/
def atFdcwd : Nat := 18446744073709551516

/-- `O_WRONLY`, `O_RDWR`, `O_CREAT`, `O_TRUNC`, `O_APPEND` and `O_DIRECTORY`. -/
def oWronly : Nat := 1
def oRdwr : Nat := 2
def oCreat : Nat := 0x40
def oTrunc : Nat := 0x200
def oAppend : Nat := 0x400
def oDirectory : Nat := 0x10000

/-- `copyinstr` of a path of at most 256 characters, without its final zero. -/
def copyinPath (i ptr : Nat) : SysM CName := do
  let s ← Prog.get
  let path ← Prog.orElse (onMm (copyinstr (s.procs i).pagetable ptr 256)) .fault
  pure path.dropLast

/-- The vnode that `sys_openat` opens, with its checks of the flags. -/
def openVnode (cwd : Option Nat) (path : CName) (flags : Nat) : Kern Nat := do
  let found ← if flags &&& oCreat ≠ 0 then vfsCreateAt cwd path true else vfsLookupAt cwd path
  let vn ← deref found
  let k ← Prog.get
  if (k.vnode vn).type = .dir then
    if flags &&& (oWronly ||| oRdwr ||| oTrunc) ≠ 0 then Prog.fail .isdir else pure vn
  else if flags &&& oDirectory ≠ 0 then Prog.fail .notdir
  else if flags &&& oTrunc ≠ 0 then do
    vfsTruncate (some vn) 0
    pure vn
  else pure vn

/-- The position at which a file opened with `flags` starts; the file is given
back when `vfs_stat` fails. -/
def openOffset (f vn flags : Nat) : SysM Nat :=
  if flags &&& oAppend ≠ 0 then
    Prog.onErr (do let st ← onFs (vfsStat (some vn)); pure st.stSize) fun e => do
      fileClose f
      Prog.fail e
  else pure 0

/-- `sys_openat`. -/
def sysOpenat (dirfd path_ptr flags : Nat) : SysM Int := do
  let i ← procCurrent .inval
  if dirfd ≠ atFdcwd then Prog.fail .nosys
  else do
    let path ← copyinPath i path_ptr
    if flags &&& oTrunc ≠ 0 ∧ flags &&& (oWronly ||| oRdwr) = 0 then Prog.fail .inval
    else do
      let s ← Prog.get
      let vn ← onFs (openVnode (s.procs i).cwd path flags)
      let found ← fileAlloc
      found.elim (Prog.fail .mfile) fun f => do
        let readable := decide (flags &&& oWronly = 0)
        let writable := decide (flags &&& oWronly ≠ 0 ∨ flags &&& oRdwr ≠ 0)
        fileFill f ⟨1, readable, writable, 0, some vn⟩
        let off ← openOffset f vn flags
        fileFill f ⟨1, readable, writable, off, some vn⟩
        let fd ← fdallocOrClose i f
        pure fd

end Open

end OsAgentLab
