/-
The image writer `mkfs_fat32.py`.  The file is the list of the writes to it, each
with the purpose it was made for.
-/
import OsAgentLab.Program
import OsAgentLab.Bytes
import Mathlib.Data.List.Lex
import Mathlib.Data.List.Sort

namespace OsAgentLab

namespace Mkfs

/-- The exceptions. -/
inductive Failure where
  | valueError
  | runtimeError
  | structError
  | recursionError
deriving DecidableEq, Repr

/-- What a range of the image is for. -/
inductive Purpose where
  | mbr
  | boot
  | fsinfo
  | backup
  | fat (copy : Nat)
  | cluster (c : Nat)
deriving DecidableEq, Repr

/-- One `write_at`. -/
structure Write where
  purpose : Purpose
  offset : Nat
  data : List UInt8
deriving DecidableEq, Repr

/-- `SECTOR_SIZE`, `FAT32_EOC`, `FAT_ATTR_DIR`, `FAT_ATTR_ARCHIVE`, `FAT_ATTR_LFN`. -/
def sectorSize : Nat := 512
def fat32Eoc : Nat := 0x0FFFFFFF
def fatAttrDir : Nat := 0x10
def fatAttrArchive : Nat := 0x20
def fatAttrLfn : Nat := 0x0F

/-- `struct.pack('<H', n)` and `struct.pack('<I', n)` of numbers that fit. -/
def packH (n : Nat) : List UInt8 := [byteOf n 0, byteOf n 1]
def packI (n : Nat) : List UInt8 := [byteOf n 0, byteOf n 1, byteOf n 2, byteOf n 3]

/-- `Fat32Image`; `f` is the file, and `handed` remembers the clusters that
were taken, the root directory's first. -/
structure Fat32Image where
  f : List Write
  partLba : Nat
  partSectors : Nat
  bytesPerSector : Nat
  sectorsPerCluster : Nat
  reservedSectors : Nat
  numFats : Nat
  sectorsPerFat : Nat
  fatLba : Nat
  dataLba : Nat
  clusterCount : Nat
  clusterSize : Nat
  fat : List Nat
  allocHint : Nat
  handed : List Nat
deriving DecidableEq, Repr

/-- A program that writes to the image. -/
abbrev Mk (α : Type) := Prog Fat32Image Failure α

section FatSize

/-- One pass of `compute_fat_size`: `new_fat`. -/
def newFat (totalSectors reservedSectors numFats sectorsPerCluster fatSectors : Int) : Int :=
  let dataSectors := totalSectors - reservedSectors - numFats * fatSectors
  let clusterCount := dataSectors / sectorsPerCluster
  (clusterCount * 4 + 512 - 1) / 512

/-- The loop of `compute_fat_size`; `none` when it has not ended after that many
passes. -/
def fatSizeLoop (totalSectors reservedSectors numFats sectorsPerCluster : Int) :
    Nat → Int → Option Int
  | 0, _ => none
  | passes + 1, fatSectors =>
      let new := newFat totalSectors reservedSectors numFats sectorsPerCluster fatSectors
      if new = fatSectors then some fatSectors
      else fatSizeLoop totalSectors reservedSectors numFats sectorsPerCluster passes new

/-- `compute_fat_size`. -/
def computeFatSize (passes : Nat) (totalSectors reservedSectors numFats sectorsPerCluster : Nat) :
    Option Int :=
  fatSizeLoop totalSectors reservedSectors numFats sectorsPerCluster passes 1

end FatSize

section Names

/-- A Python string: its code points. -/
abbrev PyStr := List Nat

def dotChar : Nat := 46
def underscore : Nat := 95
def tilde : Nat := 126
def space : Nat := 32

/-- `is_invalid_char`. -/
def isInvalidChar (c : Nat) : Bool :=
  c < 0x20 || c == 0x7F || 0x80 ≤ c || [34, 42, 47, 92, 58, 60, 62, 63, 124].contains c

/-- `is_short_char`. -/
def isShortChar (c : Nat) : Bool :=
  (65 ≤ c && c ≤ 90) || (48 ≤ c && c ≤ 57) ||
    [36, 37, 39, 45, 95, 64, 126, 33, 35, 38, 40, 41, 94].contains c

/-- `ensure_ascii_name`. -/
def ensureAsciiName (name : PyStr) : Mk Unit :=
  if name = [] ∨ name.any isInvalidChar then Prog.fail .valueError else pure ()

/-- `s.lower()` on ASCII letters. -/
def lower (s : PyStr) : PyStr := s.map fun c => if 65 ≤ c ∧ c ≤ 90 then c + 32 else c

/-- `lfn_checksum`. -/
def lfnChecksum (shortname : List UInt8) : Nat :=
  shortname.foldl (fun total b => ((total % 2) * 128 + total / 2 + b.toNat) % 256) 0

/-- `lfn_char`. -/
def lfnChar (name : PyStr) (idx : Nat) : Nat :=
  if idx < name.length then name.getD idx 0 else if idx = name.length then 0x0000 else 0xFFFF

/-- `build_lfn_entry`. -/
def buildLfnEntry (name : PyStr) (ordIdx checksum : Nat) : List UInt8 :=
  let base := (ordIdx % 32 - 1) * 13
  [UInt8.ofNat ordIdx] ++ (List.range 5).flatMap (fun i => packH (lfnChar name (base + i))) ++
    [UInt8.ofNat fatAttrLfn, 0, UInt8.ofNat checksum] ++
    (List.range 6).flatMap (fun i => packH (lfnChar name (base + 5 + i))) ++ [0, 0] ++
    (List.range 2).flatMap (fun i => packH (lfnChar name (base + 11 + i)))

/-- `build_short_entry`, for a name of 11 bytes. -/
def buildShortEntry (shortname : List UInt8) (attr cluster size : Nat) : Mk (List UInt8) :=
  if 4294967296 ≤ size then Prog.fail .structError
  else pure (shortname ++ [UInt8.ofNat attr] ++ List.replicate 8 0 ++ packH (cluster / 65536) ++
    List.replicate 4 0 ++ packH cluster ++ packI size)

/-- The variables of a loop of `make_short_name`: `base` or `ext`, `needs_lfn`
and `simple`. -/
structure ShortPart where
  out : PyStr
  needsLfn : Bool
  simple : Bool
deriving DecidableEq, Repr

/-- One character of `base_src` or `ext_src`. -/
def ShortPart.feed (limit : Nat) (part : ShortPart) (c : Nat) : ShortPart :=
  let isLower : Bool := 97 ≤ c && c ≤ 122
  let upper := if isLower then c - 32 else c
  let short := isShortChar upper
  let kept := if short then upper else underscore
  let needsLfn := part.needsLfn || isLower || !short
  if part.out.length < limit then ⟨part.out ++ [kept], needsLfn, part.simple⟩
  else ⟨part.out, true, false⟩

/-- `base_src` and `ext_src`: the name is cut at its last dot. -/
def splitName (name : PyStr) : PyStr × PyStr :=
  if dotChar ∈ name then
    ((name.reverse.dropWhile (· ≠ dotChar)).tail.reverse,
      (name.reverse.takeWhile (· ≠ dotChar)).reverse)
  else (name, [])

/-- `s.ljust(width)`. -/
def ljust (width : Nat) (s : PyStr) : PyStr := s ++ List.replicate (width - s.length) space

/-- `s.encode('ascii')`. -/
def encode (s : PyStr) : List UInt8 := s.map UInt8.ofNat

/-- `str(n)` for a number below 100. -/
def digits (n : Nat) : PyStr := if n < 10 then [48 + n] else [48 + n / 10, 48 + n % 10]

/-- The short name with the tail `~n`. -/
def tailName (base ext : PyStr) (n : Nat) : List UInt8 :=
  let suffix := tilde :: digits n
  let keep := if 8 - suffix.length < 1 then 1 else 8 - suffix.length
  encode (ljust 8 (base.take keep ++ suffix) ++ ljust 3 ext)

/-- The two loops of `make_short_name`; the second goes on with `needs_lfn` and
`simple`. -/
def shortParts (src : PyStr × PyStr) : ShortPart × ShortPart :=
  let start : ShortPart := if src.1 = [] then ⟨[underscore], true, true⟩ else ⟨[], false, true⟩
  let base := src.1.foldl (ShortPart.feed 8) start
  (base, src.2.foldl (ShortPart.feed 3) { base with out := [] })

/-- `make_short_name`. -/
def makeShortName (name : PyStr) (used : List (List UInt8)) : Mk (List UInt8 × Bool) :=
  let src := splitName name
  let parts := shortParts src
  let base := parts.1.out
  let ext := parts.2.out
  let long : Bool := 8 < src.1.length || 3 < src.2.length
  let needsLfn := parts.2.needsLfn || long
  let simple := parts.2.simple && !long
  let short := encode (ljust 8 base ++ ljust 3 ext)
  if simple ∧ short ∉ used then pure (short, needsLfn)
  else
    let baseClean := if base = [] then [underscore] else base
    let tails := (List.range' 1 99).map (tailName baseClean ext)
    (tails.find? (fun short => short ∉ used)).elim (Prog.fail .runtimeError)
      fun short => pure (short, true)

end Names

section Clusters

/-- `write_at`. -/
def writeAt (purpose : Purpose) (offset : Nat) (data : List UInt8) : Mk Unit :=
  Prog.modify fun img => { img with f := img.f ++ [⟨purpose, offset, data⟩] }

/-- `cluster_offset`. -/
def Fat32Image.clusterOffset (img : Fat32Image) (cluster : Nat) : Nat :=
  img.dataLba * sectorSize + (cluster - 2) * img.clusterSize

/-- `zero_cluster`. -/
def zeroCluster (cluster : Nat) : Mk Unit := do
  let img ← Prog.get
  writeAt (.cluster cluster) (img.clusterOffset cluster) (List.replicate img.clusterSize 0)

/-- `self.fat[c] = value`. -/
def setFat (c value : Nat) : Mk Unit :=
  Prog.modify fun img => { img with fat := img.fat.set c value }

/-- The free cluster that `alloc_cluster` takes. -/
def Fat32Image.firstFree (img : Fat32Image) : Option Nat :=
  (List.range' img.allocHint (img.fat.length - img.allocHint)).find? fun c => img.fat.getD c 0 = 0

/-- `alloc_cluster`. -/
def allocCluster : Mk Nat := do
  let img ← Prog.get
  img.firstFree.elim (Prog.fail .runtimeError) fun c => do
    setFat c fat32Eoc
    Prog.modify fun img => { img with allocHint := c + 1, handed := img.handed ++ [c] }
    zeroCluster c
    pure c

/-- `write_fat`: the same bytes to each copy. -/
def writeFat : Mk Unit := do
  let img ← Prog.get
  if img.fat.any (4294967296 ≤ ·) then Prog.fail .structError
  else Prog.forCount (fun copy =>
    writeAt (.fat copy) ((img.fatLba + copy * img.sectorsPerFat) * sectorSize)
      (img.fat.flatMap packI)) img.numFats 0

end Clusters

section Directories

/-- `DirState`. -/
structure DirState where
  cluster : Nat
  clusters : List Nat
  nextIndex : Nat
  shortNames : List (List UInt8)
deriving DecidableEq, Repr

/-- `DirState(cluster)`. -/
def DirState.new (cluster : Nat) : DirState := ⟨cluster, [cluster], 0, []⟩

/-- One pass of `ensure_dir_capacity`. -/
def growDir (state : DirState) : Mk DirState := do
  let newCluster ← allocCluster
  setFat (state.clusters.getLastD 0) newCluster
  setFat newCluster fat32Eoc
  pure { state with clusters := state.clusters ++ [newCluster] }

/-- `ensure_dir_capacity`: each pass adds one cluster. -/
def ensureDirCapacity (state : DirState) (entryIndex : Nat) : Mk DirState := do
  let img ← Prog.get
  let clusterIdx := entryIndex / (img.clusterSize / 32)
  Prog.loop (fun state =>
      if state.clusters.length ≤ clusterIdx then some <$> growDir state else pure none)
    (clusterIdx + 2) state

/-- `write_dir_entry`. -/
def writeDirEntry (state : DirState) (entryIndex : Nat) (entry : List UInt8) : Mk DirState := do
  let state ← ensureDirCapacity state entryIndex
  let img ← Prog.get
  let entriesPerCluster := img.clusterSize / 32
  let cluster := state.clusters.getD (entryIndex / entriesPerCluster) 0
  writeAt (.cluster cluster) (img.clusterOffset cluster + entryIndex % entriesPerCluster * 32) entry
  pure state

/-- The long-name entries of `add_entry`, the last part first; the first byte of
an entry cannot hold a number from 256 on. -/
def lfnEntries (name : PyStr) (short : List UInt8) (needsLfn : Bool) : Mk (List (List UInt8)) :=
  let lfnCount := (name.length + 12) / 13
  if !needsLfn then pure []
  else if 256 ≤ lfnCount then Prog.fail .valueError
  else pure ((List.range lfnCount).map fun i =>
    buildLfnEntry name (if i = 0 then lfnCount ||| 0x40 else lfnCount - i) (lfnChecksum short))

/-- One pass of the last loop of `add_entry`. -/
def appendEntry (state : DirState) (entry : List UInt8) : Mk DirState := do
  let state ← writeDirEntry state state.nextIndex entry
  pure { state with nextIndex := state.nextIndex + 1 }

/-- `add_entry`. -/
def addEntry (state : DirState) (name : PyStr) (attr cluster size : Nat) : Mk DirState := do
  ensureAsciiName name
  let made ← makeShortName name state.shortNames
  let state := { state with shortNames := made.1 :: state.shortNames }
  let entries ← lfnEntries name made.1 made.2
  let last ← buildShortEntry made.1 attr cluster size
  (entries ++ [last]).foldlM appendEntry state

/-- The names `.` and `..` of `write_dot_entries`. -/
def dotShort : List UInt8 := encode (ljust 11 [dotChar])
def dotDotShort : List UInt8 := encode (ljust 11 [dotChar, dotChar])

/-- `write_dot_entries`. -/
def writeDotEntries (state : DirState) (cluster parentCluster : Nat) : Mk DirState := do
  let dot ← buildShortEntry dotShort fatAttrDir cluster 0
  let dotdot ← buildShortEntry dotDotShort fatAttrDir parentCluster 0
  let state ← writeDirEntry state 0 dot
  let state ← writeDirEntry state 1 dotdot
  pure { state with nextIndex := 2 }

/-- `mkdir`; delivers the new directory and the parent. -/
def mkdir (parent : DirState) (name : PyStr) (parentCluster : Nat) : Mk (DirState × DirState) := do
  let cluster ← allocCluster
  let state ← writeDotEntries (DirState.new cluster) cluster parentCluster
  let parent ← addEntry parent name fatAttrDir cluster 0
  pure (state, parent)

/-- One pass of the loop of `add_file`; `first` and `prev` are zero before the
first cluster. -/
def addChunk (data : List UInt8) (chain : Nat × Nat) (i : Nat) : Mk (Nat × Nat) := do
  let cluster ← allocCluster
  let img ← Prog.get
  Prog.modify fun img =>
    if chain.2 ≠ 0 then { img with fat := img.fat.set chain.2 cluster } else img
  writeAt (.cluster cluster) (img.clusterOffset cluster)
    ((data.drop (i * img.clusterSize)).take img.clusterSize)
  pure (if chain.1 = 0 then cluster else chain.1, cluster)

/-- `add_file`. -/
def addFile (parent : DirState) (name : PyStr) (data : List UInt8) : Mk DirState := do
  let img ← Prog.get
  if data = [] then addEntry parent name fatAttrArchive 0 0
  else do
    let need := (data.length + img.clusterSize - 1) / img.clusterSize
    let chain ← (List.range need).foldlM (addChunk data) (0, 0)
    setFat chain.2 fat32Eoc
    addEntry parent name fatAttrArchive chain.1 data.length

end Directories

section Format

/-- A file or directory of the host; a directory lists its entries in the order
of `os.listdir`. -/
inductive HostNode where
  | file (data : List UInt8)
  | dir (entries : List (PyStr × HostNode))

/-- `os.path.isdir`. -/
def HostNode.isDir : HostNode → Bool
  | .file _ => false
  | .dir _ => true

/-- `os.listdir`. -/
def HostNode.listdir : HostNode → List (PyStr × HostNode)
  | .file _ => []
  | .dir entries => entries

/-- `sorted(names, key=lower)`. -/
def sortNames (entries : List (PyStr × HostNode)) : List (PyStr × HostNode) :=
  entries.mergeSort fun a b => decide (lower a.1 ≤ lower b.1)

/-- The name of the directory `ram`. -/
def ramName : PyStr := [114, 97, 109]

/-- The tests of `copy_tree` that pass over a name. -/
def skips (skipName : Option PyStr) (name : PyStr) : Bool :=
  name == [dotChar] || name == [dotChar, dotChar] ||
    skipName.any fun skip => lower name == lower skip

/-- One name of `copy_tree`; `copy` is the call for a directory. -/
def copyName (copy : DirState → HostNode → Mk DirState) (skipName : Option PyStr)
    (parent : DirState) (entry : PyStr × HostNode) : Mk DirState :=
  if skips skipName entry.1 then pure parent
  else do
    ensureAsciiName entry.1
    match entry.2 with
    | .file data => addFile parent entry.1 data
    | .dir _ => do
        let made ← mkdir parent entry.1 parent.cluster
        let _ ← copy made.1 entry.2
        pure made.2

/-- `copy_tree`; `depth` is what is left of the recursion limit. -/
def copyTree : Nat → Option PyStr → DirState → HostNode → Mk DirState
  | 0, _, _, _ => Prog.fail .recursionError
  | depth + 1, skipName, parent, host =>
      (sortNames host.listdir).foldlM (copyName (copyTree depth none) skipName) parent

/-- The sector `mbr`. -/
def mbrBytes (partLba partSectors : Nat) : List UInt8 :=
  List.replicate 446 0 ++ [0, 0, 0, 0, 0x0C, 0, 0, 0] ++ packI partLba ++ packI partSectors ++
    List.replicate 48 0 ++ packH 0xAA55

/-- The first 36 bytes of `bpb`. -/
def bpbHead (bytesPerSector sectorsPerCluster reservedSectors numFats partLba partSectors : Nat) :
    List UInt8 :=
  [0xEB, 0x58, 0x90, 77, 75, 70, 83, 70, 65, 84, 32] ++ packH bytesPerSector ++
    [UInt8.ofNat sectorsPerCluster] ++ packH reservedSectors ++ [UInt8.ofNat numFats] ++
    packH 0 ++ packH 0 ++ [0xF8] ++ packH 0 ++ packH 63 ++ packH 255 ++ packI partLba ++
    packI partSectors

/-- The bytes of `bpb` from 36 to 90. -/
def bpbFat (sectorsPerFat : Nat) : List UInt8 :=
  packI sectorsPerFat ++ packH 0 ++ packH 0 ++ packI 2 ++ packH 1 ++ packH 6 ++
    List.replicate 12 0 ++ [0x80, 0, 0x29] ++ packI 0x12345678 ++
    [78, 79, 32, 78, 65, 77, 69, 32, 32, 32, 32, 70, 65, 84, 51, 50, 32, 32, 32]

/-- The sector `bpb`. -/
def bpbBytes (bytesPerSector sectorsPerCluster reservedSectors numFats partLba partSectors
    sectorsPerFat : Nat) : List UInt8 :=
  bpbHead bytesPerSector sectorsPerCluster reservedSectors numFats partLba partSectors ++
    bpbFat sectorsPerFat ++ List.replicate 420 0 ++ packH 0xAA55

/-- The sector `fsinfo`. -/
def fsinfoBytes : List UInt8 :=
  packI 0x41615252 ++ List.replicate 480 0 ++ packI 0x61417272 ++ packI 0xFFFFFFFF ++
    packI 0xFFFFFFFF ++ List.replicate 14 0 ++ packH 0xAA55

/-- `Fat32Image(...)` on the file `f`. -/
def Fat32Image.new (f : List Write) (partLba partSectors bytesPerSector sectorsPerCluster
    reservedSectors numFats sectorsPerFat : Nat) : Fat32Image :=
  let fatLba := partLba + reservedSectors
  let clusterCount := (partSectors - reservedSectors - numFats * sectorsPerFat) / sectorsPerCluster
  { f, partLba, partSectors, bytesPerSector, sectorsPerCluster, reservedSectors, numFats
    sectorsPerFat, fatLba
    dataLba := fatLba + numFats * sectorsPerFat
    clusterCount
    clusterSize := bytesPerSector * sectorsPerCluster
    fat := ((List.replicate (clusterCount + 2) 0).set 0 0x0FFFFFF8).set 1 0x0FFFFFFF
    allocHint := 2
    handed := [] }

/-- The file after the sectors that `format_fat32` writes itself. -/
def bootWrites (partLba : Nat) (bpb mbr : List UInt8) : List Write :=
  [⟨.mbr, 0, mbr⟩, ⟨.boot, partLba * sectorSize, bpb⟩,
    ⟨.fsinfo, (partLba + 1) * sectorSize, fsinfoBytes⟩,
    ⟨.backup, (partLba + 6) * sectorSize, bpb⟩]

/-- `ram_src`: the first entry with that name, which must be a directory. -/
def ramSource (root : Option HostNode) : Mk (Option HostNode) :=
  ((root.elim [] HostNode.listdir).find? fun entry => lower entry.1 == ramName).elim (pure none)
    fun entry => if entry.2.isDir then pure (some entry.2) else Prog.fail .valueError

/-- `format_fat32` from the root directory on. -/
def fillImage (depth : Nat) (root : Option HostNode) : Mk Unit := do
  setFat 2 fat32Eoc
  Prog.modify fun img => { img with handed := img.handed ++ [2] }
  zeroCluster 2
  let ramSrc ← ramSource root
  let made ← mkdir (DirState.new 2) ramName 2
  let _ ← ramSrc.elim (pure made.1) (copyTree depth none made.1)
  let _ ← root.elim (pure made.2) (copyTree depth (some ramName) made.2)
  writeFat

/-- The image of `format_fat32` before the root directory. -/
def blankImage (partSectors sectorsPerFat : Nat) : Fat32Image :=
  Fat32Image.new (bootWrites 2048 (bpbBytes sectorSize 8 32 2 2048 partSectors sectorsPerFat)
    (mbrBytes 2048 partSectors)) 2048 partSectors sectorSize 8 32 2 sectorsPerFat

/-- The image of a call that raised no exception. -/
def finished : Outcome Failure Unit × Fat32Image → Option Fat32Image
  | (.ok _, img) => some img
  | _ => none

/-- `format_fat32`: the image when it ends without an exception.  `passes` bounds
the loop of `compute_fat_size`, `depth` the recursion. -/
def formatFat32 (passes depth sizeBytes : Nat) (root : Option HostNode) : Option Fat32Image :=
  let totalSectors := sizeBytes / sectorSize
  let partSectors := totalSectors - 2048
  if sizeBytes % sectorSize ≠ 0 ∨ totalSectors ≤ 2048 + 1024 then none
  else (computeFatSize passes partSectors 32 2 8).bind fun sectorsPerFat =>
    if 4294967296 ≤ partSectors then none
    else finished (fillImage depth root (blankImage partSectors sectorsPerFat.toNat))

end Format

end Mkfs

end OsAgentLab
