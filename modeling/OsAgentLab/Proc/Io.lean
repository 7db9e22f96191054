/-
Reading and writing through descriptors: `file_read`, `file_write` and
`file_truncate` of `file.c`, and `sys_read`, `sys_write`, `sys_lseek` and
`sys_ftruncate` with the console behind descriptors that have no file.
-/
import OsAgentLab.Proc.Files

namespace OsAgentLab

section File

/-- `f->off = off`. -/
def storeOff (f off : Nat) : SysM Unit := Prog.modify fun s =>
  { s with files := s.files.setSlot f { s.files.slot f with off := off } }

/-- `if (n > 0) f->off += (uint64_t)n`. -/
def advanceOff (f : Nat) (n : Int) : SysM Unit :=
  if 0 < n then do
    let s ← Prog.get
    storeOff f (u64 ((s.files.slot f).off + n.toNat))
  else pure ()

/-- `file_read` of a file that is not null: the return value and the bytes stored
in `buf`. -/
def fileRead (f len : Nat) : SysM (Int × List UInt8) := do
  let s ← Prog.get
  let file := s.files.slot f
  if file.readable = false then Prog.fail .badf
  else do
    let r ← onFs (vfsRead file.vn len file.off)
    advanceOff f r.1
    pure r

/-- `file_write` to a file that is not null. -/
def fileWrite (f : Nat) (buf : List UInt8) : SysM Int := do
  let s ← Prog.get
  let file := s.files.slot f
  if file.writable = false then Prog.fail .badf
  else do
    let n ← onFs (vfsWrite file.vn buf file.off)
    advanceOff f n
    pure n

/-- `file_truncate` of a file that is not null. -/
def fileTruncate (f size : Nat) : SysM Unit := do
  let s ← Prog.get
  let file := s.files.slot f
  if file.writable = false then Prog.fail .badf
  else do
    onFs (vfsTruncate file.vn size)
    let s ← Prog.get
    if size < (s.files.slot f).off then storeOff f size else pure ()

end File

section Chunks

/-- `total += n` for an `int`. -/
def addInt (total n : Int) : Int := Int.bmod (total + n) 4294967296

/-- One pass of the loop of `sys_write` over an open file, with `left`, `off` and
`total`. -/
def writeChunk (i f buf : Nat) (pos : Nat × Nat × Int) : SysM (Option (Nat × Nat × Int)) :=
  let (left, off, total) := pos
  if left = 0 then pure none
  else do
    let chunk := min left 256
    let s ← Prog.get
    let tmp ← Prog.orElse (onMm (copyin (s.procs i).pagetable (u64 (buf + off)) chunk)) .fault
    let n ← fileWrite f tmp
    -- nothing is left to do after a short transfer
    if n < chunk then pure (some (0, off, addInt total n))
    else pure (some (left - chunk, u64 (off + chunk), addInt total n))

/-- `sys_write` to an open file. -/
def sysWriteFile (i f buf len : Nat) : SysM Int := do
  let last ← Prog.loop (writeChunk i f buf) len (len, 0, 0)
  pure last.2.2

/-- One pass of the loop of `sys_read` over an open file. -/
def readChunk (i f buf : Nat) (pos : Nat × Nat × Int) : SysM (Option (Nat × Nat × Int)) :=
  let (left, off, total) := pos
  if left = 0 then pure none
  else do
    let r ← fileRead f (min left 256)
    if r.1 = 0 then pure none
    else do
      let s ← Prog.get
      Prog.orElse
        (onMm (copyout (s.procs i).pagetable (u64 (buf + off)) (r.2.take r.1.toNat))) .fault
      pure (some (left - r.1.toNat, u64 (off + r.1.toNat), addInt total r.1))

/-- `sys_read` from an open file. -/
def sysReadFile (i f buf len : Nat) : SysM Int := do
  let last ← Prog.loop (readChunk i f buf) len (len, 0, 0)
  pure last.2.2

end Chunks

section Console

/-- The terminal: `g_tty_lflag`, the characters that the UART will receive, and
those it has sent. -/
structure Tty where
  lflag : Nat
  input : List UInt8
  output : List UInt8
deriving DecidableEq, Repr

/-- `ICANON` and `ECHO`. -/
def iCanon : Nat := 2
def ttyEcho : Nat := 8

/-- Programs over the kernel state and the terminal. -/
abbrev TtyM (α : Type) : Type := Prog (Sys × Tty) Errno α

/-- A call that leaves the terminal alone. -/
def onSys {α : Type} (m : SysM α) : TtyM α := Prog.zoom Prod.fst (fun s t => (s, t.2)) m

/-- `uart_putc`; a newline is sent behind a carriage return. -/
def uartPutc (c : UInt8) : TtyM Unit := Prog.modify fun t =>
  (t.1, { t.2 with output := t.2.output ++ if c = 10 then [13, 10] else [c] })

/-- `while ((c = uart_getc()) < 0) {}` and the change of `\r` to `\n` behind it;
the loop does not end when no character comes. -/
def uartWait : TtyM UInt8 := fun t =>
  match t.2.input with
  | [] => (.diverges, t)
  | c :: rest => (.ok (if c = 13 then 10 else c), (t.1, { t.2 with input := rest }))

/-- One pass of the loop of `sys_write` over the console. -/
def ttyWriteChunk (i buf : Nat) (pos : Nat × Nat) : TtyM (Option (Nat × Nat)) :=
  let (left, off) := pos
  if left = 0 then pure none
  else do
    let chunk := min left 128
    let t ← Prog.get
    let tmp ←
      Prog.orElse (onSys (onMm (copyin (t.1.procs i).pagetable (u64 (buf + off)) chunk))) .fault
    Prog.forCount (fun k => uartPutc (tmp.getD k 0)) chunk 0
    pure (some (left - chunk, u64 (off + chunk)))

/-- `sys_write` to the console. -/
def ttyWrite (i buf len : Nat) : TtyM Int := do
  let _ ← Prog.loop (ttyWriteChunk i buf) len (len, 0)
  pure (cInt len)

/-- One pass of the canonical loop of `sys_read`, with the characters in `tmp`;
the flag tells that the line is complete. -/
def ttyLinePass (len : Nat) (pos : List UInt8 × Bool) : TtyM (Option (List UInt8 × Bool)) :=
  let (tmp, complete) := pos
  if complete ∨ ¬ (tmp.length < len ∧ tmp.length < 128) then pure none
  else do
    let c ← uartWait
    let t ← Prog.get
    if (c = 127 ∨ c = 8) ∧ t.2.lflag &&& ttyEcho ≠ 0 then
      if 0 < tmp.length then do
        uartPutc 8
        uartPutc 32
        uartPutc 8
        pure (some (tmp.dropLast, false))
      else pure (some (tmp, false))
    else do
      if t.2.lflag &&& ttyEcho ≠ 0 then uartPutc c else pure ()
      if c = 127 ∨ c = 8 then pure (some (tmp.dropLast, false))
      else pure (some (tmp ++ [c], c == 10))

/-- The raw branch of `sys_read`: at most one character. -/
def ttyRaw (len : Nat) : TtyM (List UInt8) :=
  if 0 < len then do
    let c ← uartWait
    let t ← Prog.get
    if t.2.lflag &&& ttyEcho ≠ 0 then uartPutc c else pure ()
    pure [c]
  else pure []

/-- `sys_read` from the console. -/
def ttyRead (i buf len : Nat) : TtyM Int := do
  let t ← Prog.get
  let tmp ←
    if t.2.lflag &&& iCanon ≠ 0 then
      Prog.loop (ttyLinePass len) (t.2.input.length + 1) ([], false) >>= fun last => pure last.1
    else ttyRaw len
  let t ← Prog.get
  Prog.orElse (onSys (onMm (copyout (t.1.procs i).pagetable buf tmp))) .fault
  pure (cInt tmp.length)

end Console

section Calls

/-- `sys_write`. -/
def sysWrite (fd buf len : Nat) : TtyM Int := do
  let i ← onSys (procCurrent .inval)
  let t ← Prog.get
  if nofile ≤ fd then Prog.fail .badf
  else
    ((t.1.procs i).ofile fd).elim
      (if fd = 1 ∨ fd = 2 then ttyWrite i buf len else Prog.fail .badf)
      fun f => onSys (sysWriteFile i f buf len)

/-- `sys_read`. -/
def sysRead (fd buf len : Nat) : TtyM Int := do
  let i ← onSys (procCurrent .inval)
  let t ← Prog.get
  if nofile ≤ fd then Prog.fail .badf
  else
    ((t.1.procs i).ofile fd).elim
      (if fd = 0 then ttyRead i buf len else Prog.fail .badf)
      fun f => onSys (sysReadFile i f buf len)

/-- `SEEK_SET`, `SEEK_CUR` and `SEEK_END`. -/
def seekSet : Nat := 0
def seekCur : Nat := 1
def seekEnd : Nat := 2

/-- The value of `(int64_t)n`. -/
def cInt64 (n : Nat) : Int := Int.bmod n 18446744073709551616

/-- The position that `sys_lseek` counts from. -/
def seekBase (f whence : Nat) : SysM Int := do
  let s ← Prog.get
  if whence = seekSet then pure 0
  else if whence = seekCur then pure (cInt64 (s.files.slot f).off)
  else if whence = seekEnd then do
    let st ← onFs (vfsStat (s.files.slot f).vn)
    pure (cInt64 st.stSize)
  else Prog.fail .inval

/-- `sys_lseek`. -/
def sysLseek (fd : Nat) (offset : Int) (whence : Nat) : SysM Int := do
  let i ← procCurrent .badf
  let f ← ofileOf i fd
  let base ← seekBase f whence
  let next := Int.bmod (base + offset) 18446744073709551616
  if next < 0 then Prog.fail .inval
  else do
    storeOff f next.toNat
    pure next

/-- `sys_ftruncate`. -/
def sysFtruncate (fd : Nat) (length : Int) : SysM Unit := do
  let i ← procCurrent .badf
  let f ← ofileOf i fd
  if length < 0 then Prog.fail .inval
  else fileTruncate f length.toNat

end Calls

end OsAgentLab
