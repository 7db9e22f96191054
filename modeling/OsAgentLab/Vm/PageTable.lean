/-
The Sv39 page tables of `vm.c`: entries, the walk, and the calls that create,
fill, copy and free the tables of user processes.
-/
import OsAgentLab.Vm.Mm

namespace OsAgentLab

section Entries

/-- `PTE_V`, `PTE_R`, `PTE_W`, `PTE_X`, `PTE_U`, `PTE_G`, `PTE_A` and `PTE_D`. -/
def pteV : Nat := 1
def pteR : Nat := 2
def pteW : Nat := 4
def pteX : Nat := 8
def pteU : Nat := 16
def pteG : Nat := 32
def pteA : Nat := 64
def pteD : Nat := 128

/-- `PTE2PA`. -/
def pte2pa (pte : Nat) : Nat := u64 ((pte >>> 10) <<< 12)

/-- `PA2PTE`. -/
def pa2pte (pa : Nat) : Nat := u64 ((pa >>> 12) <<< 10)

/-- `pte_make`. -/
def pteMake (pa flags : Nat) : Nat := pa2pte pa ||| flags

/-- `VPN2`. -/
def vpn2 (va : Nat) : Nat := va / 1073741824 % 512

/-- `VPN1`. -/
def vpn1 (va : Nat) : Nat := va / 2097152 % 512

/-- `VPN0`. -/
def vpn0 (va : Nat) : Nat := va / 4096 % 512

/-- `PGROUNDDOWN`. -/
def pgRoundDown (a : Nat) : Nat := a / pageSize * pageSize

/-- `PGROUNDUP`. -/
def pgRoundUp (a : Nat) : Nat := u64 (a + pageSize - 1) / pageSize * pageSize

/-- `va_sign_extend` of an address below 2^39. -/
def vaSignExtend (va : Nat) : Nat :=
  if va &&& 0x4000000000 ≠ 0 then va ||| 0xffffff8000000000 else va

end Entries

section Layout

/-- `USER_BASE`, `USER_LIMIT`, `USER_STACK_TOP`, `USER_STACK_SIZE` and
`USER_STACK_BASE`. -/
def userBase : Nat := 0x400000
def userLimit : Nat := 0x1400000
def userStackTop : Nat := userLimit
def userStackSize : Nat := 0x80000
def userStackBase : Nat := userStackTop - userStackSize

/-- `UART0_BASE`, `CLINT_BASE` and `PLIC_BASE`. -/
def uart0Base : Nat := 0x10000000
def clintBase : Nat := 0x2000000
def plicBase : Nat := 0xc000000

/-- `KERNEL_VIRT_BASE`. -/
def kernelVirtBase : Nat := 0xffffffff80000000

end Layout

/-- One level of `walk`: the table of the next level, which `alloc` creates
where there is none. -/
def walkLevel (pt idx : Nat) (alloc : Bool) : Vm (Option Nat) := do
  let pte ← load64 (pt + 8 * idx)
  if pte &&& pteV ≠ 0 then pure (some (pte2pa pte))
  else if alloc then do
    let page ← kalloc
    page.elim (pure none) fun page => do
      zeroPage page
      store64 (pt + 8 * idx) (pa2pte page ||| pteV)
      pure (some page)
  else pure none

/-- `walk`: the address of the last-level entry of `va`. -/
def walk (pt va : Nat) (alloc : Bool) : Vm (Option Nat) := do
  let l1 ← walkLevel pt (vpn2 va) alloc
  l1.elim (pure none) fun l1 => do
    let l0 ← walkLevel l1 (vpn1 va) alloc
    l0.elim (pure none) fun l0 => pure (some (l0 + 8 * vpn0 va))

/-- The entry that `walk(pt, va, 0)` leads to, when it is valid. -/
def walkPte (pt va : Nat) : Vm (Option (Nat × Nat)) := do
  let entry ← walk pt va false
  entry.elim (pure none) fun entry => do
    let pte ← load64 entry
    if pte &&& pteV = 0 then pure none
    else pure (some (entry, pte))

section Create

/-- `mmio_flags` in `uvm_create`. -/
def mmioFlags : Nat := pteV ||| pteR ||| pteW ||| pteG ||| pteA ||| pteD

/-- `uvm_create`. -/
def uvmCreate : Vm (Option Nat) := do
  let pt ← kalloc
  pt.elim (pure none) fun pt => do
    zeroPage pt
    let s ← Prog.get
    copyPage pt s.satp
    let low ← kalloc
    low.elim (kfree pt >>= fun _ => pure none) fun low => do
      zeroPage low
      store64 (low + 8 * vpn1 uart0Base) (pteMake uart0Base mmioFlags)
      store64 (low + 8 * vpn1 clintBase) (pteMake clintBase mmioFlags)
      store64 (low + 8 * vpn1 plicBase) (pteMake plicBase mmioFlags)
      store64 (pt + 8 * vpn2 0) (pa2pte low ||| pteV)
      pure (some pt)

end Create

section Free

/-- The loop body of `freewalk` at one entry; `descend` is the recursive call. -/
def freeEntry (descend : Nat → Nat → Vm Unit) (pt : Nat) (leafLevel : Bool) (shift vaBase i : Nat) :
    Vm Unit := do
  let pte ← load64 (pt + 8 * i)
  if pte &&& pteV = 0 then pure ()
  else
    let va := u64 (vaBase + i <<< shift)
    let sva := vaSignExtend va
    if leafLevel ∨ pte &&& (pteR ||| pteW ||| pteX) ≠ 0 then
      if pte &&& pteU ≠ 0 ∧ sva < kernelVirtBase then do
        kfree (pte2pa pte)
        store64 (pt + 8 * i) 0
      else store64 (pt + 8 * i) 0
    else if kernelVirtBase ≤ sva then pure ()
    else do
      descend (pte2pa pte) va
      kfree (pte2pa pte)
      store64 (pt + 8 * i) 0

/-- `freewalk`. -/
def freewalk : Nat → Nat → Nat → Vm Unit
  | 0, pt, vaBase =>
      Prog.forCount (fun i => freeEntry (fun _ _ => pure ()) pt true 12 vaBase i) 512 0
  | level + 1, pt, vaBase =>
      Prog.forCount (fun i => freeEntry (freewalk level) pt false (12 + 9 * (level + 1)) vaBase i)
        512 0

/-- `uvm_free`. -/
def uvmFree (pt : Nat) : Vm Unit :=
  if pt = 0 then pure ()
  else do
    freewalk 2 pt 0
    kfree pt

end Free

section Map

/-- The loop body of `uvm_map`. -/
def uvmMapPage (pt a pa perm : Nat) : Vm Unit := do
  let entry ← walk pt a true
  entry.elim (Prog.fail .nomem) fun entry => do
    let pte ← load64 entry
    if pte &&& pteV ≠ 0 then Prog.fail .exist
    else store64 entry (pa2pte pa ||| perm ||| pteV)

/-- The loop of `uvm_map`; `left` is the number of passes behind this one. -/
def uvmMapLoop (pt perm : Nat) : Nat → Nat → Nat → Vm Unit
  | 0, a, pa => uvmMapPage pt a pa perm
  | left + 1, a, pa => do
      uvmMapPage pt a pa perm
      uvmMapLoop pt perm left (u64 (a + pageSize)) (u64 (pa + pageSize))

/-- The passes that `uvm_map` makes behind its first one: those from `a` up to
`last`, with wrap-around. -/
def mapPasses (va sz : Nat) : Nat :=
  u64 (pgRoundDown (u64 (va + sz + 18446744073709551615)) + 18446744073709551616 -
    pgRoundDown va) / pageSize

/-- `uvm_map`. -/
def uvmMap (pt va pa sz perm : Nat) : Vm Unit :=
  uvmMapLoop pt perm (mapPasses va sz) (pgRoundDown va) pa

/-- The loop body of `uvm_unmap`. -/
def uvmUnmapPage (pt a : Nat) : Vm Unit := do
  let found ← walkPte pt a
  found.elim (pure ()) fun found =>
    if found.2 &&& pteU ≠ 0 then do
      kfree (pte2pa found.2)
      store64 found.1 0
    else store64 found.1 0

/-- `uvm_unmap`; the loop counts in page numbers. -/
def uvmUnmap (pt va npages : Nat) : Vm Unit :=
  Prog.forCount (fun n => uvmUnmapPage pt (n * pageSize)) npages (va / pageSize)

/-- `uvm_map` of one new page at `a`, which is given back when that fails: the
loop body that `uvm_alloc`, `uvm_copy` and `elf_load` share. -/
def uvmMapNew (pt a mem perm : Nat) : Vm Unit :=
  Prog.onErr (uvmMap pt a mem pageSize perm) fun _ => do
    kfree mem
    Prog.fail .nomem

/-- The loop body of `uvm_alloc`, and that of `elf_load`. -/
def uvmAllocPage (pt a perm : Nat) : Vm Unit := do
  let mem ← kalloc
  mem.elim (Prog.fail .nomem) fun mem => uvmMapNew pt a mem perm

/-- The loop of `uvm_alloc` over the pages from the page-aligned `a` up to
`last`, and that of `elf_load`; it counts in page numbers. -/
def uvmAllocLoop (pt a last perm : Nat) : Vm Unit :=
  Prog.forCount (fun n => uvmAllocPage pt (n * pageSize) perm) (last / pageSize - a / pageSize)
    (a / pageSize)

/-- `uvm_alloc`. -/
def uvmAlloc (pt oldsz newsz perm : Nat) : Vm Unit :=
  if newsz < oldsz then pure ()
  else uvmAllocLoop pt (pgRoundUp oldsz) (pgRoundUp newsz) perm

/-- `uvm_dealloc`. -/
def uvmDealloc (pt oldsz newsz : Nat) : Vm Unit :=
  if oldsz ≤ newsz then pure ()
  else
    let a := pgRoundUp newsz
    let stop := pgRoundUp oldsz
    if a < stop then uvmUnmap pt a ((stop - a) / pageSize) else pure ()

end Map

section Copy

/-- The loop body of `uvm_copy` and of `uvm_copy_range`. -/
def uvmCopyPage (src dst va : Nat) : Vm Unit := do
  let found ← walkPte src va
  found.elim (pure ()) fun found => do
    let mem ← kalloc
    mem.elim (Prog.fail .nomem) fun mem => do
      copyPage mem (pte2pa found.2)
      uvmMapNew dst va mem (found.2 &&& (pteR ||| pteW ||| pteX ||| pteU))

/-- The loop `for (va = start; va < end; va += PAGE_SIZE)` of `uvm_copy` and of
`uvm_copy_range` from a page-aligned `start`; it counts in page numbers. -/
def uvmCopyLoop (src dst start stop : Nat) : Vm Unit :=
  Prog.forCount (fun n => uvmCopyPage src dst (n * pageSize))
    ((stop - start + pageSize - 1) / pageSize) (start / pageSize)

/-- `uvm_copy`. -/
def uvmCopy (src dst sz : Nat) : Vm Unit := uvmCopyLoop src dst 0 sz

/-- `uvm_copy_range`. -/
def uvmCopyRange (src dst start stop : Nat) : Vm Unit :=
  if stop < start then Prog.fail .inval
  else uvmCopyLoop src dst (pgRoundDown start) stop

end Copy

section UserAccess

/-- `walkaddr`. -/
def walkaddr (pt va : Nat) : Vm Nat := do
  let found ← walkPte pt va
  found.elim (pure 0) fun found =>
    if found.2 &&& pteU = 0 then pure 0
    else pure (u64 (pte2pa found.2 + va % pageSize))

/-- One pass of `copyin`, with the address, the number of bytes left, and the
bytes that are in `dst` already. -/
def copyinPass (pt : Nat) (pos : Nat × Nat × List UInt8) : Vm (Option (Nat × Nat × List UInt8)) :=
  let (srcva, len, dst) := pos
  if len = 0 then pure none
  else do
    let pa ← walkaddr pt srcva
    if pa = 0 then Prog.fail .fault
    else do
      let n := min (pageSize - srcva % pageSize) len
      let s ← Prog.get
      pure (some (u64 (srcva + n), len - n, dst ++ (List.range n).map fun i => s.mem (pa + i)))

/-- `copyin`: the bytes stored in `dst`. -/
def copyin (pt srcva len : Nat) : Vm (List UInt8) := do
  let last ← Prog.loop (copyinPass pt) len (srcva, len, [])
  pure last.2.2

/-- One pass of `copyout`, with the address and the bytes that are left. -/
def copyoutPass (pt : Nat) (pos : Nat × List UInt8) : Vm (Option (Nat × List UInt8)) :=
  let (dstva, src) := pos
  if src = [] then pure none
  else do
    let pa ← walkaddr pt dstva
    if pa = 0 then Prog.fail .fault
    else do
      let n := min (pageSize - dstva % pageSize) src.length
      Prog.modify fun s => { s with mem := overlay s.mem pa n fun i => src.getD i 0 }
      pure (some (u64 (dstva + n), src.drop n))

/-- `copyout` of the bytes `src`. -/
def copyout (pt dstva : Nat) (src : List UInt8) : Vm Unit := do
  let _ ← Prog.loop (copyoutPass pt) src.length (dstva, src)
  pure ()

/-- One pass of `copyinstr`, with the address and the characters that are in
`dst` already; it ends behind a zero. -/
def copyinstrPass (pt : Nat) (pos : Nat × List UInt8) : Vm (Option (Nat × List UInt8)) :=
  let (srcva, dst) := pos
  if dst.getLast? = some 0 then pure none
  else do
    let pa ← walkaddr pt srcva
    if pa = 0 then Prog.fail .fault
    else do
      let s ← Prog.get
      pure (some (u64 (srcva + 1), dst ++ [s.mem pa]))

/-- `copyinstr`: the characters stored in `dst`, the final zero included. -/
def copyinstr (pt srcva max : Nat) : Vm (List UInt8) := do
  let last ← Prog.loop (copyinstrPass pt) max (srcva, [])
  if last.2.getLast? = some 0 then pure last.2 else Prog.fail .nametoolong

end UserAccess

end OsAgentLab
