/-
The loader of the firmware: `load_elf`, and the step of `firmware_main` that puts the
initrd behind the kernel.  Both only store to memory, so that a run is its stores.
-/
import OsAgentLab.Writes
import OsAgentLab.Firmware.Image

namespace OsAgentLab

namespace Firmware

section Stores

/-- A store of bytes to the addresses from `addr` on, which wrap round at 2^64. -/
structure Store where
  addr : Nat
  data : List UInt8
deriving DecidableEq, Repr

/-- The byte that the store leaves at an address. -/
def Store.byteAt (st : Store) (x : Nat) : Option UInt8 :=
  if x < 18446744073709551616 then st.data[u64 (x + (18446744073709551616 - st.addr))]? else none

/-- The memory after the stores. -/
def runStores (m : Nat → UInt8) (stores : List Store) : Nat → UInt8 :=
  Writes.run m (stores.map Store.byteAt)

end Stores

section Headers

/-- `struct elf64_ehdr`, the fields that `load_elf` reads. -/
structure Ehdr where
  ident : Nat → UInt8
  machine : Nat
  entry : Nat
  phoff : Nat
  phentsize : Nat
  phnum : Nat

/-- `struct elf64_phdr`, the fields that `load_elf` reads. -/
structure Phdr where
  type : Nat
  offset : Nat
  paddr : Nat
  filesz : Nat
  memsz : Nat
deriving DecidableEq, Repr

/-- `sizeof(struct elf64_ehdr)` and `sizeof(struct elf64_phdr)`. -/
def ehdrSize : Nat := 64
def phdrSize : Nat := 56

/-- `EM_RISCV` and `PT_LOAD`. -/
def emRiscv : Nat := 243
def ptLoad : Nat := 1

def Ehdr.ofBytes (bytes : Nat → UInt8) : Ehdr where
  ident := bytes
  machine := le16 bytes 18
  entry := le64 bytes 24
  phoff := le64 bytes 32
  phentsize := le16 bytes 54
  phnum := le16 bytes 56

def Phdr.ofBytes (bytes : Nat → UInt8) : Phdr where
  type := le32 bytes 0
  offset := le64 bytes 8
  paddr := le64 bytes 24
  filesz := le64 bytes 32
  memsz := le64 bytes 40

/-- The magic number, the class and the byte order, the machine, and the size of a program
header. -/
def Ehdr.Recognised (eh : Ehdr) : Prop :=
  (eh.ident 0 = 0x7f ∧ eh.ident 1 = 0x45 ∧ eh.ident 2 = 0x4c ∧ eh.ident 3 = 0x46) ∧
    (eh.ident 4 = 2 ∧ eh.ident 5 = 1) ∧ eh.machine = emRiscv ∧ eh.phentsize = phdrSize

instance (eh : Ehdr) : Decidable eh.Recognised :=
  inferInstanceAs (Decidable ((_ ∧ _ ∧ _ ∧ _) ∧ (_ ∧ _) ∧ _ ∧ _))

/-- `phdr.p_paddr + phdr.p_memsz`, as the code computes it. -/
def Phdr.memEnd (ph : Phdr) : Nat := u64 (ph.paddr + ph.memsz)

end Headers

section LoadElf

/-- The header passes the check against the memory range. -/
def Phdr.InRange (memBase memSize : Nat) (ph : Phdr) : Prop :=
  memSize ≠ 0 → memBase ≤ ph.paddr ∧ ph.memEnd ≤ u64 (memBase + memSize)

instance (memBase memSize : Nat) (ph : Phdr) : Decidable (ph.InRange memBase memSize) :=
  inferInstanceAs (Decidable (_ → _))

/-- `disk_read_bytes(off, &phdr, sizeof(phdr))`. -/
def readPhdr (read : Nat → Option Sector) (off : Nat) : Option Phdr :=
  (diskReadBytes read off phdrSize).map fun bytes => .ofBytes fun i => bytes.getD i 0

/-- The loop body of `load_elf` for a segment; the result is a null pointer where it
panics. -/
def loadSegment (read : Nat → Option Sector) (fileOff memBase memSize : Nat) (ph : Phdr) :
    Option (List Store) :=
  if ¬ ph.InRange memBase memSize then none
  else
    (diskReadBytes read (u64 (fileOff + ph.offset)) ph.filesz).map fun bytes =>
      ⟨ph.paddr, bytes⟩ ::
        if ph.filesz < ph.memsz then
          [⟨u64 (ph.paddr + ph.filesz), List.replicate (ph.memsz - ph.filesz) 0⟩]
        else []

/-- The loop of `load_elf` from header `i` on; `left` is the number of headers that are
left. -/
def loadSegments (read : Nat → Option Sector) (fileOff memBase memSize phoff : Nat) :
    Nat → Nat → Nat → List Store → Option (Nat × List Store)
  | 0, _, kernelEnd, out => some (kernelEnd, out)
  | left + 1, i, kernelEnd, out =>
      (readPhdr read (u64 (fileOff + phoff + i * phdrSize))).bind fun ph =>
        if ph.type ≠ ptLoad then
          loadSegments read fileOff memBase memSize phoff left (i + 1) kernelEnd out
        else
          (loadSegment read fileOff memBase memSize ph).bind fun stores =>
            loadSegments read fileOff memBase memSize phoff left (i + 1)
              (if kernelEnd < ph.memEnd then ph.memEnd else kernelEnd) (out ++ stores)

/-- `disk_read_bytes(file_off, &ehdr, sizeof(ehdr))`. -/
def readEhdr (read : Nat → Option Sector) (off : Nat) : Option Ehdr :=
  (diskReadBytes read off ehdrSize).map fun bytes => .ofBytes fun i => bytes.getD i 0

/-- `load_elf`: the entry, the end of the kernel, and the stores. -/
def loadElf (read : Nat → Option Sector) (fileOff fileSize memBase memSize : Nat) :
    Option (Nat × Nat × List Store) :=
  if fileSize < ehdrSize then none
  else
    (readEhdr read fileOff).bind fun eh =>
      if ¬ eh.Recognised then none
      else
        (loadSegments read fileOff memBase memSize eh.phoff eh.phnum 0 0 []).map fun r =>
          (eh.entry, r)

end LoadElf

section Initrd

/-- `(val + 0xfffULL) & ~0xfffULL`. -/
def roundUpPage (val : Nat) : Nat := u64 (val + 0xfff) / 4096 * 4096

/-- `initrd_paddr` in `firmware_main`; a null pointer where it panics. -/
def placeInitrd (memBase memSize kernelEnd size : Nat) : Option Nat :=
  if size = 0 then some 0
  else if memSize = 0 then none
  else
    let paddr :=
      u64 (memBase + memSize + (18446744073709551616 - roundUpPage size)) / 4096 * 4096
    if paddr ≤ kernelEnd then none else some paddr

/-- The step of `firmware_main` that loads the initrd: its place and the store. -/
def loadInitrd (read : Nat → Option Sector) (hdr : ImageHeader) (memBase memSize kernelEnd : Nat) :
    Option (Nat × List Store) :=
  (placeInitrd memBase memSize kernelEnd hdr.initrdSize).bind fun paddr =>
    if hdr.initrdSize = 0 then some (paddr, [])
    else
      (diskReadBytes read hdr.initrdOffset hdr.initrdSize).map fun bytes =>
        (paddr, [⟨paddr, bytes⟩])

/-- What the loading steps of `firmware_main` leave behind. -/
structure Loaded where
  entry : Nat
  kernelEnd : Nat
  initrdPaddr : Nat
  stores : List Store
deriving DecidableEq, Repr

/-- The loading steps of `firmware_main` behind the check of the image header. -/
def load (read : Nat → Option Sector) (hdr : ImageHeader) (memBase memSize : Nat) :
    Option Loaded :=
  (loadElf read hdr.kernelOffset hdr.kernelSize memBase memSize).bind fun r =>
    (loadInitrd read hdr memBase memSize r.2.1).map fun i => ⟨r.1, r.2.1, i.1, r.2.2 ++ i.2⟩

end Initrd

end Firmware

end OsAgentLab
