/-
The scanners of the flattened device tree, in the kernel and in the firmware.
Addresses are offsets from `dtb`; a read outside of the memory that may be read,
or an access outside of `stack`, ends the run.
-/
import OsAgentLab.Bytes
import Mathlib.Logic.Function.Basic

namespace OsAgentLab

namespace Fdt

/-- Why a run stops. -/
inductive Stop where
  /-- `return -1`. -/
  | error
  | outside
  | endless
deriving DecidableEq, Repr

abbrev Run (α : Type) := Except Stop α

/-- The bytes that may be read. -/
abbrev Mem := Nat → Option UInt8

/-- The `total` bytes of a blob, and nothing else. -/
def blobMem (blob : Nat → UInt8) (total : Nat) : Mem :=
  fun a => if a < total then some (blob a) else none

/-- A string of the source, without its terminator. -/
abbrev Lit := List UInt8

section Runs

variable {α β : Type}

theorem bind_ok {m : Run α} {f : α → Run β} {b : β} (h : (m >>= f) = .ok b) :
    ∃ a, m = .ok a ∧ f a = .ok b := by
  cases m with
  | error => cases h
  | ok a => exact ⟨a, rfl, h⟩

theorem map_ok {m : Run α} {f : α → β} {b : β} (h : f <$> m = .ok b) :
    ∃ a, m = .ok a ∧ f a = b := by
  cases m with
  | error => cases h
  | ok a => exact ⟨a, rfl, Except.ok.inj h⟩

theorem ok_bind (a : α) (f : α → Run β) : ((.ok a : Run α) >>= f) = f a := rfl

end Runs

section Strings

variable (mem : Mem)

def rd8 (a : Nat) : Run UInt8 := (mem a).elim (.error .outside) .ok

/-- `fdt32_to_cpu(*(const uint32_t *)a)`. -/
def fdt32 (a : Nat) : Run Nat := do
  let b0 ← rd8 mem a
  let b1 ← rd8 mem (a + 1)
  let b2 ← rd8 mem (a + 2)
  let b3 ← rd8 mem (a + 3)
  pure (b0.toNat * 16777216 + b1.toNat * 65536 + b2.toNat * 256 + b3.toNat)

/-- `strlen`, with at most that many passes. -/
def strlen : Nat → Nat → Run Nat
  | 0, _ => .error .endless
  | passes + 1, s => do
      let b ← rd8 mem s
      if b = 0 then pure 0 else (· + 1) <$> strlen passes (s + 1)

/-- `fdt_strnlen(s, s + count)`. -/
def fdtStrnlen : Nat → Nat → Run Nat
  | 0, _ => pure 0
  | count + 1, s => do
      let b ← rd8 mem s
      if b = 0 then pure 0 else (· + 1) <$> fdtStrnlen count (s + 1)

/-- `strcmp(a, lit)` of the kernel. -/
def strcmp : Nat → Lit → Run Int
  | a, [] => do
      let x ← rd8 mem a
      pure (x.toNat : Int)
  | a, c :: lit => do
      let x ← rd8 mem a
      if x ≠ 0 ∧ x = c then strcmp (a + 1) lit else pure ((x.toNat : Int) - c.toNat)

/-- `strcmp(a, lit)` of the firmware. -/
def fwStrcmp : Nat → Lit → Run Int
  | a, [] => do
      let x ← rd8 mem a
      pure (if x = 0 then 0 else 1)
  | a, c :: lit => do
      let x ← rd8 mem a
      if x = c then (if x = 0 then pure 0 else fwStrcmp (a + 1) lit)
      else pure (if x < c then -1 else 1)

/-- `memcmp(a, lit, n)` of the kernel, for the `n` bytes of `lit`. -/
def memcmp : Nat → Lit → Run Int
  | _, [] => pure 0
  | a, c :: lit => do
      let x ← rd8 mem a
      if x ≠ c then pure ((x.toNat : Int) - c.toNat) else memcmp (a + 1) lit

/-- `memcmp(a, lit, n)` of the firmware. -/
def fwMemcmp : Nat → Lit → Run Int
  | _, [] => pure 0
  | a, c :: lit => do
      let x ← rd8 mem a
      if x ≠ c then pure (if x < c then -1 else 1) else fwMemcmp (a + 1) lit

end Strings

/-- The functions of `string.c` that a scanner is linked with. -/
structure StringOps where
  strcmp : Mem → Nat → Lit → Run Int
  memcmp : Mem → Nat → Lit → Run Int

/-- The kernel's and the firmware's. -/
def kernelOps : StringOps := ⟨strcmp, memcmp⟩
def firmwareOps : StringOps := ⟨fwStrcmp, fwMemcmp⟩

section Helpers

/-- `align4(p)`, for the offset `p` from `dtb`. -/
def align4 (dtb p : Nat) : Nat := (dtb + p + 3) / 4 * 4 - dtb

/-- The loop of `fdt_read_num`. -/
def fdtReadNumLoop (mem : Mem) : Nat → Nat → Nat → Run Nat
  | 0, _, val => pure val
  | count + 1, cells, val => do
      let cell ← fdt32 mem cells
      fdtReadNumLoop mem count (cells + 4) (u64 (val * 4294967296) + cell)

/-- `fdt_read_num`. -/
def fdtReadNum (mem : Mem) (cells count : Nat) : Run Nat := fdtReadNumLoop mem count cells 0

/-- `slen == nlen && memcmp(s, needle, nlen) == 0`. -/
def strlistHit (ops : StringOps) (mem : Mem) (s slen : Nat) (needle : Lit) : Run Bool :=
  if slen = needle.length then do
    let r ← ops.memcmp mem s needle
    pure (decide (r = 0))
  else pure false

/-- The loop of `fdt_strlist_contains`, with at most that many passes. -/
def fdtStrlistLoop (ops : StringOps) (mem : Mem) (fuel list len : Nat) (needle : Lit) :
    Nat → Nat → Run Bool
  | 0, _ => .error .endless
  | passes + 1, i =>
      if i < len then do
        let slen ← strlen mem fuel (list + i)
        let hit ← strlistHit ops mem (list + i) slen needle
        if hit then pure true
        else fdtStrlistLoop ops mem fuel list len needle passes (u32 (i + u32 (u32 slen + 1)))
      else pure false

/-- `fdt_strlist_contains`. -/
def fdtStrlistContains (ops : StringOps) (mem : Mem) (fuel list len : Nat) (needle : Lit) :
    Run Bool :=
  fdtStrlistLoop ops mem fuel list len needle fuel 0

end Helpers

section Names

def nameAddressCells : Lit := [35, 97, 100, 100, 114, 101, 115, 115, 45, 99, 101, 108, 108, 115]
def nameSizeCells : Lit := [35, 115, 105, 122, 101, 45, 99, 101, 108, 108, 115]
def nameDeviceType : Lit := [100, 101, 118, 105, 99, 101, 95, 116, 121, 112, 101]
def nameMemory : Lit := [109, 101, 109, 111, 114, 121]
def nameCompatible : Lit := [99, 111, 109, 112, 97, 116, 105, 98, 108, 101]
def nameVirtioMmio : Lit := [118, 105, 114, 116, 105, 111, 44, 109, 109, 105, 111]
def nameReg : Lit := [114, 101, 103]
def nameTimebase : Lit :=
  [116, 105, 109, 101, 98, 97, 115, 101, 45, 102, 114, 101, 113, 117, 101, 110, 99, 121]

end Names

section Nodes

/-- `struct node_state`. -/
structure NodeState where
  isMemory : Bool
  isVirtio : Bool
  regValid : Bool
  regBase : Nat
  regSize : Nat
deriving DecidableEq, Repr

/-- A fresh `struct node_state`. -/
def NodeState.zero : NodeState := ⟨false, false, false, 0, 0⟩

/-- What the caller asks for: which pointers are not null, what `*mem_base` and
`*mem_size` hold before the call, and `max_bases`. -/
structure Request where
  hasMem : Bool
  memBase : Nat
  memSize : Nat
  hasBases : Bool
  maxBases : Nat
deriving DecidableEq, Repr

/-- The variables of `fdt_scan`; `bases` are the elements of `virtio_bases` that
are filled, and `hz` is the firmware's `*timebase_hz`. -/
structure Scan where
  p : Nat
  depth : Int
  addrCells : Nat
  sizeCells : Nat
  stack : Nat → NodeState
  memBase : Nat
  memSize : Nat
  bases : List Nat
  hz : Nat

/-- The index of an access to `stack`. -/
def stackIndex (i : Int) : Run Nat :=
  if 0 ≤ i ∧ i < 32 then .ok i.toNat else .error .outside

/-- The part of `FDT_BEGIN_NODE` that does not depend on the name. -/
def pushNode (s : Scan) : Run Scan :=
  if s.depth < 32 then do
    let i ← stackIndex s.depth
    pure { s with stack := Function.update s.stack i .zero, depth := s.depth + 1 }
  else pure { s with depth := s.depth + 1 }

/-- What the node `cur` delivers when it ends. -/
def Scan.deliver (req : Request) (s : Scan) (cur : NodeState) : Scan :=
  let isMem := cur.isMemory && cur.regValid && req.hasMem && s.memSize == 0
  let isBase := cur.isVirtio && cur.regValid && req.hasBases && decide (s.bases.length < req.maxBases)
  { s with
    memBase := if isMem then cur.regBase else s.memBase
    memSize := if isMem then cur.regSize else s.memSize
    bases := if isBase then s.bases ++ [cur.regBase] else s.bases }

/-- `FDT_END_NODE`. -/
def popNode (req : Request) (s : Scan) : Run Scan :=
  if 0 < s.depth then do
    let i ← stackIndex (s.depth - 1)
    pure { s.deliver req (s.stack i) with depth := s.depth - 1 }
  else pure { s with depth := s.depth - 1 }

/-- An assignment to a field of `cur`. -/
def setNode (s : Scan) (f : NodeState → NodeState) : Run Scan := do
  let i ← stackIndex (s.depth - 1)
  pure { s with stack := Function.update s.stack i (f (s.stack i)) }

variable (ops : StringOps) (mem : Mem)

/-- The properties `#address-cells` and `#size-cells` of the root. -/
def cellsProp (name value len : Nat) (s : Scan) : Run Scan :=
  if s.depth = 1 then do
    let r ← ops.strcmp mem name nameAddressCells
    if r = 0 ∧ 4 ≤ len then do
      let cells ← fdt32 mem value
      pure { s with addrCells := cells }
    else do
      let r ← ops.strcmp mem name nameSizeCells
      if r = 0 ∧ 4 ≤ len then do
        let cells ← fdt32 mem value
        pure { s with sizeCells := cells }
      else pure s
  else pure s

def deviceTypeProp (value len : Nat) (s : Scan) : Run Scan :=
  if 6 ≤ len then do
    let r ← ops.memcmp mem value nameMemory
    if r = 0 then setNode s fun cur => { cur with isMemory := true } else pure s
  else pure s

def compatibleProp (fuel value len : Nat) (s : Scan) : Run Scan := do
  let hit ← fdtStrlistContains ops mem fuel value len nameVirtioMmio
  if hit then setNode s fun cur => { cur with isVirtio := true } else pure s

def regProp (value len : Nat) (s : Scan) : Run Scan :=
  if u32 (u32 (s.addrCells + s.sizeCells) * 4) ≤ len then do
    let base ← fdtReadNum mem value s.addrCells
    let size ← fdtReadNum mem (value + 4 * s.addrCells) s.sizeCells
    setNode s fun cur => { cur with regBase := base, regSize := size, regValid := true }
  else pure s

end Nodes

section Kernel

variable (mem : Mem)

/-- The header fields that `fdt_scan` reads, in host order. -/
structure Header where
  total : Nat
  offStruct : Nat
  offStrings : Nat
  sizeStrings : Nat
  sizeStruct : Nat
deriving DecidableEq, Repr

def fdtMagic : Nat := 0xd00dfeed

/-- The properties of a node below the root's parent. -/
def nodeProp (fuel name value len : Nat) (s : Scan) : Run Scan :=
  if 0 < s.depth then do
    let r ← strcmp mem name nameDeviceType
    if r = 0 then deviceTypeProp kernelOps mem value len s
    else do
      let r ← strcmp mem name nameCompatible
      if r = 0 then compatibleProp kernelOps mem fuel value len s
      else do
        let r ← strcmp mem name nameReg
        if r = 0 then regProp mem value len s else pure s
  else pure s

/-- The offset of `struct_end`. -/
def Header.structEnd (hdr : Header) : Nat := hdr.offStruct + hdr.sizeStruct

/-- `FDT_BEGIN_NODE` behind the name, whose terminator is before `q`. -/
def enterNode (dtb : Nat) (hdr : Header) (q : Nat) (s : Scan) : Run Scan := do
  let s' ← pushNode s
  if hdr.structEnd < align4 dtb q then .error .error else pure { s' with p := align4 dtb q }

/-- `FDT_BEGIN_NODE`; `s.p` is behind the token. -/
def beginNode (dtb : Nat) (hdr : Header) (s : Scan) : Run Scan := do
  let nameLen ← fdtStrnlen mem (hdr.structEnd - s.p) s.p
  if hdr.structEnd ≤ s.p + nameLen then .error .error
  else enterNode dtb hdr (s.p + nameLen + 1) s

/-- `FDT_PROP` after the checks of its name and length. -/
def propValue (fuel dtb : Nat) (hdr : Header) (name value len : Nat) (s : Scan) : Run Scan := do
  let s ← cellsProp kernelOps mem name value len s
  let s ← nodeProp mem fuel name value len s
  if hdr.structEnd < align4 dtb (value + len) then .error .error
  else pure { s with p := align4 dtb (value + len) }

/-- `FDT_PROP`; `s.p` is behind the token. -/
def prop (fuel dtb : Nat) (hdr : Header) (s : Scan) : Run Scan :=
  if hdr.structEnd < s.p + 8 then .error .error
  else do
    let len ← fdt32 mem s.p
    let nameoff ← fdt32 mem (s.p + 4)
    if hdr.sizeStrings ≤ nameoff ∨
        hdr.offStrings + hdr.sizeStrings ≤ hdr.offStrings + nameoff ∨
        hdr.structEnd < s.p + 8 + len then .error .error
    else propValue mem fuel dtb hdr (hdr.offStrings + nameoff) (s.p + 8) len s

/-- One pass of the loop of `fdt_scan`; it goes on unless the token was `FDT_END`. -/
def pass (fuel dtb : Nat) (hdr : Header) (req : Request) (s : Scan) : Run (Scan × Bool) :=
  if hdr.structEnd < s.p + 4 then .error .error
  else do
    let token ← fdt32 mem s.p
    let s := { s with p := s.p + 4 }
    if token = 1 then (·, true) <$> beginNode mem dtb hdr s
    else if token = 2 then (·, true) <$> popNode req s
    else if token = 3 then (·, true) <$> prop mem fuel dtb hdr s
    else if token = 4 then pure (s, true)
    else if token = 9 then pure (s, false)
    else .error .error

end Kernel

/-- A loop whose passes say whether it goes on. -/
def scanLoop (body : Scan → Run (Scan × Bool)) : Nat → Scan → Run Scan
  | 0, _ => .error .endless
  | fuel + 1, s => do
      let r ← body s
      if r.2 then scanLoop body fuel r.1 else pure r.1

/-- The variables before the loop; `stack` is not initialised. -/
def Scan.start (offStruct : Nat) (req : Request) (junk : Nat → NodeState) : Scan where
  p := offStruct
  depth := 0
  addrCells := 2
  sizeCells := 2
  stack := junk
  memBase := req.memBase
  memSize := req.memSize
  bases := []
  hz := 0

/-- The values that a call delivers: `*mem_base`, `*mem_size` and the elements of
`virtio_bases`, whose number is `*virtio_count`. -/
structure Found where
  memBase : Nat
  memSize : Nat
  bases : List Nat
deriving DecidableEq, Repr

def Scan.found (s : Scan) : Found := ⟨s.memBase, s.memSize, s.bases⟩

section Kernel

variable (mem : Mem)

/-- The header, and the checks of the kernel's `fdt_scan`. -/
def readHeader : Run Header := do
  let magic ← fdt32 mem 0
  if magic ≠ fdtMagic then .error .error
  else do
    let total ← fdt32 mem 4
    if total < 40 ∨ 16777216 < total then .error .error
    else do
      let offStruct ← fdt32 mem 8
      let offStrings ← fdt32 mem 12
      let sizeStruct ← fdt32 mem 36
      let sizeStrings ← fdt32 mem 32
      if total ≤ offStruct ∨ total ≤ offStrings ∨ total < u32 (offStruct + sizeStruct) ∨
          total < u32 (offStrings + sizeStrings) then .error .error
      else pure ⟨total, offStruct, offStrings, sizeStrings, sizeStruct⟩

/-- `fdt_scan` of the kernel; `fuel` bounds each of its loops. -/
def fdtScan (fuel dtb : Nat) (req : Request) (junk : Nat → NodeState) : Run Found := do
  let hdr ← readHeader mem
  let s ← scanLoop (pass mem fuel dtb hdr req) fuel (Scan.start hdr.offStruct req junk)
  pure s.found

/-- `fdt_get_memory`; the pointers are not null. -/
def fdtGetMemory (fuel dtb : Nat) (junk : Nat → NodeState) : Run (Nat × Nat) := do
  let found ← fdtScan mem fuel dtb ⟨true, 0, 0, true, 0⟩ junk
  if found.memSize ≠ 0 then pure (found.memBase, found.memSize) else .error .error

/-- `fdt_find_virtio_mmio`. -/
def fdtFindVirtioMmio (fuel dtb maxBases : Nat) (junk : Nat → NodeState) : Run (List Nat) :=
  Found.bases <$> fdtScan mem fuel dtb ⟨true, 0, 0, true, maxBases⟩ junk

end Kernel

section Firmware

variable (mem : Mem)

/-- `timebase-frequency`; `timebase_hz` is not null. -/
def timebaseProp (value len : Nat) (s : Scan) : Run Scan :=
  if s.hz = 0 ∧ 4 ≤ len then do
    let hz ← fdt32 mem value
    pure { s with hz := hz }
  else pure s

/-- The properties of a node in the firmware's `fdt_scan`. -/
def fwNodeProp (fuel name value len : Nat) (s : Scan) : Run Scan :=
  if 0 < s.depth then do
    let r ← fwStrcmp mem name nameDeviceType
    if r = 0 then deviceTypeProp firmwareOps mem value len s
    else do
      let r ← fwStrcmp mem name nameCompatible
      if r = 0 then compatibleProp firmwareOps mem fuel value len s
      else do
        let r ← fwStrcmp mem name nameTimebase
        if r = 0 then timebaseProp mem value len s
        else do
          let r ← fwStrcmp mem name nameReg
          if r = 0 then regProp mem value len s else pure s
  else pure s

def fwBeginNode (fuel dtb : Nat) (s : Scan) : Run Scan := do
  let nameLen ← strlen mem fuel s.p
  let s' ← pushNode s
  pure { s' with p := align4 dtb (s.p + nameLen + 1) }

def fwProp (fuel dtb offStrings : Nat) (s : Scan) : Run Scan := do
  let len ← fdt32 mem s.p
  let nameoff ← fdt32 mem (s.p + 4)
  let name := offStrings + nameoff
  let value := s.p + 8
  let s ← cellsProp firmwareOps mem name value len s
  let s ← fwNodeProp mem fuel name value len s
  pure { s with p := align4 dtb (value + len) }

/-- One pass of the loop of the firmware's `fdt_scan`. -/
def fwPass (fuel dtb offStrings : Nat) (req : Request) (s : Scan) : Run (Scan × Bool) := do
  let token ← fdt32 mem s.p
  let s := { s with p := s.p + 4 }
  if token = 1 then (·, true) <$> fwBeginNode mem fuel dtb s
  else if token = 2 then (·, true) <$> popNode req s
  else if token = 3 then (·, true) <$> fwProp mem fuel dtb offStrings s
  else if token = 4 then pure (s, true)
  else if token = 9 then pure (s, false)
  else .error .error

/-- `fdt_scan` of the firmware. -/
def fwFdtScan (fuel dtb : Nat) (req : Request) (junk : Nat → NodeState) : Run Found := do
  let magic ← fdt32 mem 0
  if magic ≠ fdtMagic then .error .error
  else do
    let offStruct ← fdt32 mem 8
    let offStrings ← fdt32 mem 12
    let s ← scanLoop (fwPass mem fuel dtb offStrings req) fuel (Scan.start offStruct req junk)
    pure s.found

/-- `fdt_get_memory` of the firmware. -/
def fwFdtGetMemory (fuel dtb : Nat) (junk : Nat → NodeState) : Run (Nat × Nat) := do
  let found ← fwFdtScan mem fuel dtb ⟨true, 0, 0, true, 0⟩ junk
  if found.memSize ≠ 0 then pure (found.memBase, found.memSize) else .error .error

/-- `fdt_find_virtio_mmio` of the firmware. -/
def fwFdtFindVirtioMmio (fuel dtb maxBases : Nat) (junk : Nat → NodeState) : Run (List Nat) :=
  Found.bases <$> fwFdtScan mem fuel dtb ⟨true, 0, 0, true, maxBases⟩ junk

end Firmware

end Fdt

end OsAgentLab
