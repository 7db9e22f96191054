/-
The page allocator of `mm.c`: a list of free pages that is linked through the
first words of the pages.
-/
import OsAgentLab.Memory
import OsAgentLab.Program

namespace OsAgentLab

/-- Physical memory, `g_freelist`, and the root table that `satp` names. -/
structure Mm where
  mem : Nat → UInt8
  freelist : Nat
  satp : Nat

/-- Programs over physical memory. -/
abbrev Vm (α : Type) : Type := Prog Mm Errno α

/-- `PAGE_SIZE`. -/
def pageSize : Nat := 4096

/-- `*(uint64_t *)a`. -/
def load64 (a : Nat) : Vm Nat := fun s => (.ok (le64 s.mem a), s)

/-- `*(uint64_t *)a = w`. -/
def store64 (a w : Nat) : Vm Unit := Prog.modify fun s => { s with mem := put64 s.mem a w }

/-- `memset(p, 0, PAGE_SIZE)`. -/
def zeroPage (p : Nat) : Vm Unit :=
  Prog.modify fun s => { s with mem := putPage s.mem p fun _ => 0 }

/-- `memcpy(p, q, PAGE_SIZE)`. -/
def copyPage (p q : Nat) : Vm Unit :=
  Prog.modify fun s => { s with mem := putPage s.mem p fun i => s.mem (q + i) }

/-- `kfree`. -/
def kfree (pa : Nat) : Vm Unit := fun s =>
  if pa % pageSize ≠ 0 then (.ok (), s)
  else (.ok (), { s with mem := put64 s.mem pa s.freelist, freelist := pa })

/-- `kalloc`; the result is a null pointer when the list is empty. -/
def kalloc : Vm (Option Nat) := fun s =>
  if s.freelist = 0 then (.ok none, s)
  else
    let r := s.freelist
    (.ok (some r), { s with freelist := le64 s.mem r, mem := putPage s.mem r fun _ => 0 })

end OsAgentLab
