/-
`proc_exec` and `proc_exec_on`: scripts, the new address space with its stack
and arguments, and the switch to it.
-/
import OsAgentLab.Proc.Elf

namespace OsAgentLab

section Shebang

/-- A result computed without the state. -/
def ofExcept {α : Type} : Except Errno α → SysM α
  | .error e => Prog.fail e
  | .ok a => pure a

/-- `SHEBANG_MAX`. -/
def shebangMax : Nat := 128

/-- A blank in the first line of a script. -/
def isBlank (c : UInt8) : Bool := c = 32 || c = 9

/-- A character at which a word of the first line ends. -/
def endsWord (c : UInt8) : Bool := isBlank c || c = 10 || c = 13

/-- The interpreter and its argument in the text behind `#!`. -/
def shebangWords (text : List UInt8) : Except Errno (CName × CName) :=
  let word := text.dropWhile isBlank
  let interp := word.takeWhile fun c => !endsWord c
  if interp = [] then .error .noexec
  else if 64 ≤ interp.length then .error .toobig
  else
    let rest := (word.dropWhile fun c => !endsWord c).dropWhile isBlank
    let arg := rest.takeWhile fun c => !endsWord c
    if 64 ≤ arg.length then .error .toobig else .ok (interp, arg)

/-- What `parse_shebang` makes of the bytes it read; `none` is the result 0. -/
def shebangOf (bytes : List UInt8) : Except Errno (Option (CName × CName)) :=
  if bytes.length < 2 ∨ bytes.getD 0 0 ≠ 35 ∨ bytes.getD 1 0 ≠ 33 then .ok none
  else (shebangWords ((bytes.drop 2).takeWhile fun c => c ≠ 0)).map some

/-- `parse_shebang`. -/
def parseShebang (vn : Option Nat) : SysM (Option (CName × CName)) := do
  let r ← onFs (vfsRead vn (shebangMax - 1) 0)
  ofExcept (shebangOf r.2)

end Shebang

section Image

/-- `MAX_ARG` and `ARG_MAX_LEN`. -/
def maxArg : Nat := 16
def argMaxLen : Nat := 128

/-- The argument list that a script is run with.  The code reads `argv[1]`, so
that an argument list without `argv[0]` is read behind its end. -/
def scriptArgv (interp arg path : CName) (argv : Option (List CName)) : List CName :=
  (interp :: (if arg = [] then [] else [arg]) ++ path :: (argv.getD []).drop 1).take maxArg

/-- The loop body that adds one page to the stack of a new program. -/
def execStackPage (pt va : Nat) : Vm Unit := do
  let mem ← kalloc
  mem.elim (Prog.fail .nomem) fun mem =>
    Prog.orElse (uvmMap pt va mem pageSize (pteR ||| pteW ||| pteU)) .nomem

/-- The stack of a new program. -/
def execStack (pt : Nat) : Vm Unit :=
  Prog.forCount (fun n => execStackPage pt (n * pageSize)) (userStackSize / pageSize)
    (userStackBase / pageSize)

/-- `sp & ~0xF`. -/
def alignDown16 (sp : Nat) : Nat := sp / 16 * 16

/-- One argument is pushed; the result is the new stack pointer behind the
addresses of the arguments so far. -/
def execPushArg (pt : Nat) (pos : Nat × List Nat) (arg : CName) : Vm (Nat × List Nat) :=
  let len := arg.length + 1
  if argMaxLen < len then Prog.fail .toobig
  else
    let sp := alignDown16 (pos.1 - len)
    if sp < userStackBase then Prog.fail .toobig
    else do
      Prog.orElse (copyout pt sp (arg ++ [0])) .fault
      pure (sp, pos.2 ++ [sp])

/-- The bytes of an array of 64-bit words. -/
def wordBytes (words : List Nat) : List UInt8 :=
  words.flatMap fun w => (List.range 8).map (byteOf w)

/-- The arguments and the array of their addresses on the stack: the number of
arguments and the stack pointer. -/
def execPushArgs (pt : Nat) (argv : List CName) : Vm (Nat × Nat) := do
  let pos ← (argv.take maxArg).foldlM (execPushArg pt) (userStackTop, [])
  let argc := pos.2.length
  let sp := alignDown16 (pos.1 - (argc + 1) * 8)
  if sp < userStackBase then Prog.fail .toobig
  else do
    Prog.orElse (copyout pt sp (wordBytes (pos.2 ++ [0]))) .fault
    pure (argc, sp)

/-- The new program in the page table `pt`: entry, size, argument count and
stack pointer. -/
def execLoad (pt : Nat) (vn : Nat) (argv : List CName) : SysM ((Nat × Nat) × (Nat × Nat)) := do
  let info ← elfLoad pt vn
  onMm (execStack pt)
  let stack ← onMm (execPushArgs pt argv)
  pure (info, stack)

end Image

section Exec

/-- `memset` and the stores that fill the trapframe of a new program. -/
def execTrapframe (tf entry sstatus sp argc : Nat) : Vm Unit := do
  Prog.modify fun s => { s with mem := overlay s.mem tf 264 fun _ => 0 }
  store64 (tf + 240) entry
  store64 (tf + 248) sstatus
  store64 (tf + 256) sp
  store64 (tf + 176) argc
  store64 (tf + 184) sp
  store64 (tf + 192) 0

/-- `(read_csr(sstatus) & ~(SSTATUS_SPP | SSTATUS_SIE)) | SSTATUS_SPIE`. -/
def execSstatus (sstatus : Nat) : Nat := (sstatus &&& 0xfffffffffffffefd) ||| 0x20

/-- `satp` is switched when the process in slot `i` is the current one. -/
def execSatp (i newpt : Nat) : SysM Unit := Prog.modify fun s =>
  if s.current = some i then { s with mm := { s.mm with satp := newpt } } else s

/-- The second half of `proc_exec_common_depth`: the process in slot `i` switches
to the program in `newpt`, and its old address space is freed. -/
def execCommit (i newpt : Nat) (info stack : Nat × Nat) : SysM Int := do
  let s ← Prog.get
  let p := s.procs i
  Prog.modify fun s =>
    s.setProc i { s.procs i with pagetable := newpt, sz := pgRoundUp info.2 }
  onMm (execTrapframe p.tf info.1 (execSstatus s.sstatus) stack.2 stack.1)
  execSatp i newpt
  onMm (uvmFree p.pagetable)
  pure 0

/-- `proc_exec_common_depth` behind `parse_shebang`, for a file that is not a
script. -/
def execBinary (i vn : Nat) (argv : List CName) : SysM Int := do
  let newpt ← onMm uvmCreate
  newpt.elim (Prog.fail .nomem) fun newpt => do
    let r ← Prog.onErr (execLoad newpt vn argv) fun e => do
      onMm (uvmFree newpt)
      Prog.fail e
    execCommit i newpt r.1 r.2

/-- `proc_exec_common_depth` for the process in slot `i`; `interpreter` is the
recursive call that runs a script. -/
def execDepth (interpreter : CName → List CName → SysM Int) (i : Nat) (path : CName)
    (argv : Option (List CName)) : SysM Int := do
  let s ← Prog.get
  let vn ← onFs (vfsLookupAt (s.procs i).cwd path)
  let script ← parseShebang vn
  script.elim
    (vn.elim Prog.crash fun vn => execBinary i vn (argv.getD []))
    fun words =>
      if argv = some [] then Prog.crash
      else interpreter words.1 (scriptArgv words.1 words.2 path argv)

/-- `proc_exec_common`: a script may name a program, but not another script. -/
def procExecCommon (i : Nat) (path : CName) (argv : Option (List CName)) : SysM Int :=
  execDepth
    (fun interp argv => execDepth (fun _ _ => Prog.fail .loop) i interp (some argv))
    i path argv

/-- `proc_exec`. -/
def procExec (path : CName) (argv : Option (List CName)) : SysM Int := fun s =>
  match s.current with
  | none => (.err .inval, s)
  | some i => procExecCommon i path argv s

/-- `proc_exec_on`. -/
def procExecOn (i : Nat) (path : CName) (argv : Option (List CName)) : SysM Int :=
  procExecCommon i path argv

end Exec

end OsAgentLab
