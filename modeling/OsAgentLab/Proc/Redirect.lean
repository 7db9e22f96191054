/-
The builtins of the shell with a redirection, down to the system calls they make.
-/
import OsAgentLab.Getcwd
import OsAgentLab.Proc.Io

namespace OsAgentLab

section Directory

/-- `sys_chdir`. -/
def sysChdir (path_ptr : Nat) : SysM Int := do
  let i ← procCurrent .inval
  let path ← copyinPath i path_ptr
  let s ← Prog.get
  let vn ← onFs (vfsLookupAt (s.procs i).cwd path >>= deref)
  let s ← Prog.get
  if (s.fs.vnode vn).type ≠ .dir then Prog.fail .notdir
  else do
    Prog.modify fun s => s.setProc i { s.procs i with cwd := some vn }
    pure 0

/-- `sys_getcwd`. -/
def sysGetcwd (buf_ptr size : Nat) : SysM Int := do
  let i ← procCurrent .inval
  let size := min size 256
  let s ← Prog.get
  let tmp ← onFs (vfsGetcwdAt (s.procs i).cwd size)
  if size < tmp.length + 1 then Prog.fail .range
  else do
    let s ← Prog.get
    Prog.orElse (onMm (copyout (s.procs i).pagetable buf_ptr (tmp ++ [0]))) .fault
    pure (cInt buf_ptr)

end Directory

namespace Shell

section Library

/-- A system call behind `wrap_ret`. -/
def wrapRet (m : TtyM Int) : TtyM Int := do
  let ret ← Prog.onErr m fun _ => pure (-1)
  if ret < 0 then pure (-1) else pure ret

/-- `strlen` of the string at `p` in user memory, with `fuel` characters at most. -/
def userStrlen (mm : Mm) (pt : Nat) : Nat → Nat → Option Nat
  | 0, _ => none
  | fuel + 1, p =>
      (userByte mm pt p).bind fun c =>
        if c = 0 then some 0 else (userStrlen mm pt fuel (u64 (p + 1))).map (· + 1)

/-- `out_fd`, with the system call that writes. -/
def outFd (write : Nat → Nat → Nat → TtyM Int) (fd buf len : Nat) : TtyM Int :=
  if len = 0 then pure 0 else wrapRet (write fd buf len)

/-- `vformat` with `out_fd`: it hands over one piece of the text after the other, each an
address and a length. -/
def outPieces (write : Nat → Nat → Nat → TtyM Int) (fd : Nat) : List (Nat × Nat) → TtyM Unit
  | [] => pure ()
  | (buf, len) :: pieces => do
      let _ ← outFd write fd buf len
      outPieces write fd pieces

end Library

section Builtins

/-- Where the shell has its strings: `redir_path`, the path for `chdir`, `buf` of
`builtin_pwd`, the newline of its format, and the pieces of the messages. -/
structure Strings where
  path : Nat
  cdPath : Nat
  buf : Nat
  newline : Nat
  pwdFailed : List (Nat × Nat)
  cdFailed : List (Nat × Nat)
  redirectFailed : List (Nat × Nat)

/-- `builtin_pwd` of the process in slot `i`. -/
def builtinPwd (write : Nat → Nat → Nat → TtyM Int) (i : Nat) (strings : Strings) :
    TtyM Unit := do
  let ret ← wrapRet (onSys (sysGetcwd strings.buf 256))
  if ret < 0 then outPieces write 2 strings.pwdFailed
  else do
    let t ← Prog.get
    (userStrlen t.1.mm (t.1.procs i).pagetable 256 strings.buf).elim Prog.crash fun len =>
      outPieces write 1 [(strings.buf, len), (strings.newline, 1)]

/-- `builtin_cd`. -/
def builtinCd (strings : Strings) : TtyM Unit := do
  let ret ← wrapRet (onSys (sysChdir strings.cdPath))
  if ret < 0 then outPieces sysWrite 2 strings.cdFailed else pure ()

/-- `O_CREAT | O_WRONLY | (redir_append ? O_APPEND : O_TRUNC)`. -/
def redirectFlags (append : Bool) : Nat := oCreat ||| oWronly ||| if append then oAppend else oTrunc

/-- `saved = dup(1)`, `dup2(fd, 1)` and `close(fd)`. -/
def redirectOut (fd : Nat) : TtyM Int := do
  let saved ← wrapRet (onSys (sysDup 1))
  let _ ← wrapRet (onSys (sysDup3 fd 1))
  let _ ← wrapRet (onSys (sysClose fd))
  pure saved

/-- `if (saved >= 0)` with `dup2(saved, 1)` and `close(saved)`. -/
def restoreOut (saved : Int) : TtyM Unit :=
  if 0 ≤ saved then do
    let _ ← wrapRet (onSys (sysDup3 saved.toNat 1))
    let _ ← wrapRet (onSys (sysClose saved.toNat))
    pure ()
  else pure ()

/-- The branch of `run_command` for `pwd` with a redirection. -/
def redirectPwd (i : Nat) (strings : Strings) (append : Bool) : TtyM Unit := do
  let fd ← wrapRet (onSys (sysOpenat atFdcwd strings.path (redirectFlags append)))
  if fd < 0 then outPieces sysWrite 2 strings.redirectFailed
  else do
    let saved ← redirectOut fd.toNat
    builtinPwd sysWrite i strings
    restoreOut saved

/-- The builtins after which the shell goes on. -/
inductive Builtin
  | cd
  | pwd
deriving DecidableEq, Repr

/-- `run_command` for a builtin with a redirection, which only `pwd` uses. -/
def runRedirected (i : Nat) (strings : Strings) (append : Bool) : Builtin → TtyM Unit
  | .cd => builtinCd strings
  | .pwd => redirectPwd i strings append

end Builtins

end Shell

end OsAgentLab
