/-
The block layer as the file systems see it (`blk.c` over the virtio disk): an
array of 512-byte sectors, and the requests that the device completes.
-/
import OsAgentLab.Bytes

namespace OsAgentLab

/-- The error codes of `errno.h` that the modelled code returns. -/
inductive Errno where
  | perm | noent | io | badf | nomem | exist | notdir | isdir | inval | mfile
  | nospc | range | nosys | nametoolong | notempty | fault | noexec | toobig | child | loop
deriving DecidableEq, Repr

/-- One sector buffer; the bytes at the offsets below 512 are its contents. -/
abbrev Sector := Nat → UInt8

/-- The disk: its sectors, and which sector addresses the device serves. -/
structure Disk where
  sectors : Nat → Sector
  served : Nat → Bool

/-- A memory copy of `len` bytes from `src` to `dst + off`. -/
def overlay (dst : Nat → UInt8) (off len : Nat) (src : Nat → UInt8) : Nat → UInt8 :=
  fun k => if off ≤ k ∧ k < off + len then src (k - off) else dst k

theorem overlay_of_mem {dst src : Nat → UInt8} {off len k : Nat}
    (h : off ≤ k ∧ k < off + len) : overlay dst off len src k = src (k - off) :=
  if_pos h

theorem overlay_of_not_mem {dst src : Nat → UInt8} {off len k : Nat}
    (h : ¬ (off ≤ k ∧ k < off + len)) : overlay dst off len src k = dst k :=
  if_neg h

def Disk.read (disk : Disk) (lba : Nat) : Option Sector :=
  if disk.served lba then some (disk.sectors lba) else none

def Disk.write (disk : Disk) (lba : Nat) (sector : Sector) : Option Disk :=
  if disk.served lba then
    some { disk with sectors := fun n => if n = lba then sector else disk.sectors n }
  else none

end OsAgentLab
