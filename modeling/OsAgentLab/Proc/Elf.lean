/-
The program loader of `elf.c`.
-/
import OsAgentLab.Proc.State

namespace OsAgentLab

section Headers

/-- `struct elf64_ehdr`, the fields that `elf_load` reads. -/
structure Ehdr where
  ident : Nat → UInt8
  entry : Nat
  phoff : Nat
  phentsize : Nat
  phnum : Nat

/-- `struct elf64_phdr`, the fields that `elf_load` reads. -/
structure Phdr where
  type : Nat
  flags : Nat
  offset : Nat
  vaddr : Nat
  filesz : Nat
  memsz : Nat
deriving DecidableEq, Repr

/-- The header in the first 64 bytes of a file. -/
def ehdrOf (bytes : Nat → UInt8) : Ehdr where
  ident := bytes
  entry := le64 bytes 24
  phoff := le64 bytes 32
  phentsize := le16 bytes 54
  phnum := le16 bytes 56

/-- The program header in 56 bytes. -/
def phdrOf (bytes : Nat → UInt8) : Phdr where
  type := le32 bytes 0
  flags := le32 bytes 4
  offset := le64 bytes 8
  vaddr := le64 bytes 16
  filesz := le64 bytes 32
  memsz := le64 bytes 40

/-- The magic number, `ELFCLASS64` and `ELFDATA2LSB`. -/
def Ehdr.Recognised (eh : Ehdr) : Prop :=
  eh.ident 0 = 0x7f ∧ eh.ident 1 = 0x45 ∧ eh.ident 2 = 0x4c ∧ eh.ident 3 = 0x46 ∧
    eh.ident 4 = 2 ∧ eh.ident 5 = 1

instance (eh : Ehdr) : Decidable eh.Recognised :=
  inferInstanceAs (Decidable (_ ∧ _ ∧ _ ∧ _ ∧ _ ∧ _))

namespace Phdr

variable (ph : Phdr)

/-- `ph.p_vaddr + ph.p_memsz`, as the code computes it. -/
def memEnd : Nat := u64 (ph.vaddr + ph.memsz)

/-- `ph.p_offset + ph.p_filesz`, as the code computes it. -/
def fileEnd : Nat := u64 (ph.offset + ph.filesz)

/-- The permissions of the pages of a segment. -/
def perm : Nat :=
  pteU ||| (if ph.flags &&& 4 ≠ 0 then pteR else 0) |||
    (if ph.flags &&& 2 ≠ 0 then pteW else 0) ||| (if ph.flags &&& 1 ≠ 0 then pteX else 0)

end Phdr

end Headers

section Load

/-- `PT_LOAD`. -/
def ptLoad : Nat := 1

/-- A buffer of which `bytes` was stored. -/
def bufOf (bytes : List UInt8) : Nat → UInt8 := fun i => bytes.getD i 0

/-- `read_at`. -/
def readAt (vn : Nat) (len off : Nat) : SysM (List UInt8) := do
  let r ← Prog.orElse (onFs (vfsRead (some vn) len off)) .io
  if r.1 = (len : Int) then pure r.2 else Prog.fail .io

/-- One pass of the copying loop of `elf_load`, the one that starts `done` bytes
behind the beginning of the segment. -/
def elfCopyChunk (pt vn : Nat) (ph : Phdr) (done : Nat) : SysM Unit := do
  let chunk := min (ph.fileEnd - ph.offset - done) 512
  let bytes ← readAt vn chunk (ph.offset + done)
  Prog.orElse (onMm (copyout pt (u64 (ph.vaddr + done)) bytes)) .fault

/-- The copying loop of `elf_load`. -/
def elfCopySegment (pt vn : Nat) (ph : Phdr) : SysM Unit :=
  Prog.forCount (fun i => elfCopyChunk pt vn ph (512 * i)) ((ph.fileEnd - ph.offset + 511) / 512) 0

/-- `elf_load` for one `PT_LOAD` header; the result is `maxva`. -/
def elfLoadSegment (pt vn : Nat) (ph : Phdr) (maxva : Nat) : SysM Nat :=
  if ph.vaddr < userBase ∨ userLimit < ph.memEnd then Prog.fail .fault
  else do
    onMm (uvmAllocLoop pt (pgRoundDown ph.vaddr) (pgRoundUp ph.memEnd) ph.perm)
    elfCopySegment pt vn ph
    pure (max maxva ph.memEnd)

/-- The loop body of `elf_load`. -/
def elfLoadHeader (pt vn : Nat) (eh : Ehdr) (maxva i : Nat) : SysM Nat := do
  let bytes ← readAt vn 56 (u64 (eh.phoff + i * eh.phentsize))
  let ph := phdrOf (bufOf bytes)
  if ph.type ≠ ptLoad then pure maxva else elfLoadSegment pt vn ph maxva

/-- `elf_load`: `info.entry` and `info.sz`. -/
def elfLoad (pt vn : Nat) : SysM (Nat × Nat) := do
  let bytes ← readAt vn 64 0
  let eh := ehdrOf (bufOf bytes)
  if eh.Recognised then do
    let maxva ← (List.range eh.phnum).foldlM (elfLoadHeader pt vn eh) 0
    pure (eh.entry, maxva)
  else Prog.fail .noexec

end Load

end OsAgentLab
