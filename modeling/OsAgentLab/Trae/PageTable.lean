/-
The page tables of the kernel under `Trae/Auto`: its page allocator, the Sv39 walk, and the
calls that create, fill and destroy a table.
-/
import Mathlib.Logic.Function.Basic
import OsAgentLab.Bytes
import OsAgentLab.Program

namespace OsAgentLab

namespace Trae

/-- `PAGE_SIZE`. -/
def pageSize : Nat := 4096

/-- Physical memory, as the 64-bit word at an address, with `g_freelist` and the range of the
allocator. -/
structure Ram where
  mem : Nat → Nat
  freelist : Nat
  allocStart : Nat
  allocEnd : Nat

/-- The calls of `panic`. -/
inductive Panic
  | createFailed
  | walkFailed
  | notMapped
  | notAligned
  | outOfRange
deriving DecidableEq, Repr

/-- Programs over physical memory; `panic` does not come back. -/
abbrev RamM (α : Type) : Type := Prog Ram Panic α

/-- `*a = w`. -/
def store (a w : Nat) : RamM Unit := Prog.modify fun s =>
  { s with mem := Function.update s.mem a w }

section Allocator

/-- `kalloc`; the page is not cleared. -/
def kalloc : RamM Nat := fun s =>
  if s.freelist ≠ 0 then (.ok s.freelist, { s with freelist := s.mem s.freelist })
  else (.ok 0, s)

/-- `kfree`. -/
def kfree (pa : Nat) : RamM Unit := do
  let s ← Prog.get
  if pa % pageSize ≠ 0 then Prog.fail .notAligned
  else if pa < s.allocStart ∨ s.allocEnd ≤ pa then Prog.fail .outOfRange
  else do
    store pa s.freelist
    Prog.modify fun s => { s with freelist := pa }

end Allocator

section Entries

/-- `PTE_V` and `PTE_PS`. -/
def pteV : Nat := 1
def ptePs : Nat := 128

/-- `PTE_PPN`, `PPN_PTE`, `PA_PPN` and `PPN_PA`. -/
def ptePpn (pte : Nat) : Nat := pte >>> 10
def ppnPte (ppn : Nat) : Nat := u64 (ppn <<< 10)
def paPpn (pa : Nat) : Nat := pa >>> 12
def ppnPa (ppn : Nat) : Nat := u64 (ppn <<< 12)

/-- `VA_VPN0`, `VA_VPN1` and `VA_VPN2`. -/
def vaVpn (level va : Nat) : Nat := va >>> (12 + 9 * level) &&& 0x1ff

end Entries

section Tables

/-- `pagetable_create`. -/
def pagetableCreate : RamM Nat := do
  let pagetable ← kalloc
  if pagetable = 0 then Prog.fail .createFailed else pure pagetable

/-- `pagetable_destroy`. -/
def pagetableDestroy (pagetable : Nat) : RamM Unit := kfree pagetable

/-- The loop of `walk` from `level` on: the address of an entry, or a null pointer. -/
def walkFrom (va : Nat) (alloc : Bool) : Nat → Nat → RamM Nat
  | 0, pagetable => do
      let pte := pagetable + 8 * vaVpn 0 va
      let s ← Prog.get
      if s.mem pte &&& pteV ≠ 0 then pure pte
      else if alloc = false then pure 0
      else do
        let newPagetable ← kalloc
        if newPagetable = 0 then pure 0
        else do
          -- a page is taken here as well, though no table follows
          store pte (ppnPte (paPpn newPagetable) ||| pteV)
          pure pte
  | level + 1, pagetable => do
      let pte := pagetable + 8 * vaVpn (level + 1) va
      let s ← Prog.get
      if s.mem pte &&& pteV ≠ 0 then
        if level + 1 = 1 ∧ s.mem pte &&& ptePs ≠ 0 then pure pte
        else walkFrom va alloc level (ppnPa (ptePpn (s.mem pte)))
      else if alloc = false then pure 0
      else do
        let newPagetable ← kalloc
        if newPagetable = 0 then pure 0
        else do
          store pte (ppnPte (paPpn newPagetable) ||| pteV)
          walkFrom va alloc level newPagetable

/-- `walk`. -/
def walk (pagetable va : Nat) (alloc : Bool) : RamM Nat := walkFrom va alloc 2 pagetable

/-- One pass of the loop of `map_pages`. -/
def mapPage (pagetable va pa perm : Nat) : RamM Unit := do
  let pte ← walk pagetable va true
  if pte = 0 then Prog.fail .walkFailed
  else store pte (ppnPte (paPpn pa) ||| perm ||| pteV)

/-- The loop of `map_pages`; it never ends when `va` starts again at zero. -/
def mapLoop (pagetable stop perm : Nat) : Nat → Nat → Nat → RamM Unit
  | 0, va, _ => if va < stop then Prog.hang else pure ()
  | fuel + 1, va, pa =>
      if va < stop then do
        mapPage pagetable va pa perm
        mapLoop pagetable stop perm fuel (u64 (va + pageSize)) (u64 (pa + pageSize))
      else pure ()

/-- `map_pages`. -/
def mapPages (pagetable va pa size perm : Nat) : RamM Unit :=
  mapLoop pagetable (u64 (va + size)) perm (size / pageSize + 2) (va / pageSize * pageSize)
    (pa / pageSize * pageSize)

/-- One pass of the loop of `unmap_pages`. -/
def unmapPage (pagetable va : Nat) (doFree : Bool) : RamM Unit := do
  let pte ← walk pagetable va false
  let s ← Prog.get
  if pte = 0 ∨ s.mem pte &&& pteV = 0 then Prog.fail .notMapped
  else do
    if doFree = true then kfree (ppnPa (ptePpn (s.mem pte))) else pure ()
    store pte 0

/-- `unmap_pages`. -/
def unmapPages (pagetable va npages : Nat) (doFree : Bool) : RamM Unit :=
  Prog.forCount (fun i => unmapPage pagetable (u64 (va + i * pageSize)) doFree) npages 0

end Tables

end Trae

end OsAgentLab
