/-
The input functions of the C library's streams: one push-back slot, two flags and the offset of
a descriptor, over a `read` that delivers any part of what it is asked for.
-/
import OsAgentLab.Bytes

namespace OsAgentLab

namespace Stdio

/-- `'\n'`. -/
def newline : UInt8 := 10

/-- How a `read` is answered: with an error, or with one byte and up to so many more. -/
inductive Answer
  | fails
  | upTo (more : Nat)
deriving DecidableEq, Repr

/-- A `FILE`, and its descriptor: the bytes of the file, the offset in it, how reads are going to
be answered and how many there were. -/
structure Stream where
  file : List UInt8
  pos : Nat
  answers : Nat → Answer
  reads : Nat
  eof : Bool
  err : Bool
  ungot : Bool
  ungotCh : UInt8

namespace Stream

/-- The bytes of the file behind the offset. -/
def rest (s : Stream) : List UInt8 := s.file.drop s.pos

/-- `read(fd, buf, count)`; `none` for an error. -/
def read (s : Stream) (count : Nat) : Option (List UInt8) × Stream :=
  match s.answers s.reads with
  | .fails => (none, { s with reads := s.reads + 1 })
  | .upTo more =>
      let got := s.rest.take (min count (more + 1))
      (some got, { s with pos := s.pos + got.length, reads := s.reads + 1 })

/-- `lseek(fd, offset, whence)`: the new offset, or `none` for an error. -/
def lseek (s : Stream) (offset : Int) (whence : Nat) : Option Nat :=
  let base? : Option Nat :=
    match whence with
    | 0 => some 0
    | 1 => some s.pos
    | 2 => some s.file.length
    | _ => none
  base?.bind fun base =>
    let next := Int.bmod (base + offset) 18446744073709551616
    if next < 0 then none else some next.toNat

/-- `fgetc`; `none` for `EOF`. -/
def fgetc (s : Stream) : Option UInt8 × Stream :=
  if s.ungot = true then (some s.ungotCh, { s with ungot := false })
  else
    match s.read 1 with
    | (some (ch :: _), s') => (some ch, s')
    | (some [], s') => (none, { s' with eof := true })
    | (none, s') => (none, { s' with err := true })

/-- `ungetc`; `none` for `EOF`. -/
def ungetc (s : Stream) (c : Int) : Option Int × Stream :=
  if c = -1 then (none, s)
  else if s.ungot = true then (none, s)
  else (some c, { s with ungot := true, ungotCh := UInt8.ofNat (c % 256).toNat, eof := false })

/-- The loop of `fgets`, with room for so many characters. -/
def fgetsLoop (s : Stream) : Nat → List UInt8 × Stream
  | 0 => ([], s)
  | room + 1 =>
      match s.fgetc with
      | (none, s') => ([], s')
      | (some c, s') =>
          if c = newline then ([c], s')
          else
            let (got, s'') := fgetsLoop s' room
            (c :: got, s'')

/-- `fgets`: the characters in front of the NUL; `none` for a null pointer. -/
def fgets (s : Stream) (size : Int) : Option (List UInt8) × Stream :=
  if size ≤ 0 then (none, s)
  else
    match s.fgetsLoop (size - 1).toNat with
    | ([], s') => (none, s')
    | (got, s') => (some got, s')

/-- `fread`: the number of items, and the bytes that were put into the buffer. -/
def fread (s : Stream) (size nmemb : Nat) : Nat × List UInt8 × Stream :=
  if size = 0 ∨ nmemb = 0 then (0, [], s)
  else
    match s.read (u64 (size * nmemb)) with
    | (none, s') => (0, [], { s' with err := true })
    | (some [], s') => (0, [], { s' with eof := true })
    | (some got, s') => (got.length / size, got, s')

/-- `fseek`; `none` for -1, otherwise the new offset. -/
def fseek (s : Stream) (offset : Int) (whence : Nat) : Option Nat × Stream :=
  match s.lseek offset whence with
  | none => (none, { s with err := true })
  | some p => (some p, { s with pos := p, eof := false })

/-- The buffer of `getline`: its size, after `malloc` if there was none; `none` when that
fails. -/
def lineBuffer (buffer : Option Nat) (mallocOk : Bool) : Option Nat :=
  match buffer with
  | some (n + 1) => some (n + 1)
  | _ => if mallocOk = true then some 128 else none

/-- The characters that `strlen` counts in what `fgets` left. -/
def measured : Option (List UInt8) × Stream → Option (List UInt8) × Stream
  | (none, s') => (none, s')
  | (some got, s') => (some (got.takeWhile (· ≠ 0)), s')

/-- `getline`: the characters that the caller gets with the returned length, which is `strlen` of
the buffer; `none` for -1. -/
def getline (s : Stream) (buffer : Option Nat) (mallocOk : Bool) : Option (List UInt8) × Stream :=
  match lineBuffer buffer mallocOk with
  | none => (none, s)
  | some n => measured (s.fgets (cInt n))

/-- What is still to be delivered: the pushed-back character and the rest of the file. -/
def pending (s : Stream) : List UInt8 :=
  if s.ungot = true then s.ungotCh :: s.rest else s.rest

end Stream

end Stdio

end OsAgentLab
