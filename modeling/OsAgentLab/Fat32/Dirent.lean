/-
Directory slots of 32 bytes: `struct fat_dirent_raw` and `struct fat_lfn_raw`
read from the same bytes, the long-name buffer, and the names of `fat32.c`.
-/
import OsAgentLab.Blk
import Mathlib.Data.List.OfFn
import Mathlib.Data.List.TakeWhile

namespace OsAgentLab

/-- The 32 bytes of one slot. -/
abbrev RawDirent := Fin 32 → UInt8

/-- A C string without its terminator. -/
abbrev CName := List UInt8

namespace RawDirent

variable (raw : RawDirent)

/-- `raw->name`, all 11 bytes. -/
def name : List UInt8 :=
  [raw 0, raw 1, raw 2, raw 3, raw 4, raw 5, raw 6, raw 7, raw 8, raw 9, raw 10]

def attr : UInt8 := raw 11

/-- `((uint32_t)le16(&raw->fst_clus_hi) << 16) | le16(&raw->fst_clus_lo)`. -/
def cluster : Nat :=
  ((raw 20).toNat + (raw 21).toNat * 256) * 65536 +
    ((raw 26).toNat + (raw 27).toNat * 256)

def fileSize : Nat :=
  (raw 28).toNat + (raw 29).toNat * 256 + (raw 30).toNat * 65536 +
    (raw 31).toNat * 16777216

/-- `lfn_raw->ord`. -/
def ord : UInt8 := raw 0

/-- `lfn_raw->checksum`. -/
def checksum : UInt8 := raw 13

/-- The byte offset of the `i`-th of the 13 characters of a long-name slot. -/
def lfnOffset (i : Nat) : Nat :=
  if i < 5 then 1 + 2 * i else if i < 11 then 14 + 2 * (i - 5) else 28 + 2 * (i - 11)

theorem lfnOffset_lt {i : Nat} (h : i < 13) : lfnOffset i + 1 < 32 := by
  simp only [lfnOffset]
  split
  · omega
  · split <;> omega

/-- The `i`-th UTF-16 unit: `name1`, `name2` and `name3` one after the other. -/
def lfnUnit (i : Nat) : Nat :=
  if h : i < 13 then
    (raw ⟨lfnOffset i, by have := lfnOffset_lt h; omega⟩).toNat +
      (raw ⟨lfnOffset i + 1, lfnOffset_lt h⟩).toNat * 256
  else 0

def isDir : Bool := raw.attr &&& 0x10 ≠ 0

def isLfn : Bool := raw.attr == 0x0F

def isVolume : Bool := raw.attr &&& 0x08 ≠ 0

/-- The slot ends the directory. -/
def isEnd : Bool := raw 0 == 0x00

/-- The slot was deleted. -/
def isDeleted : Bool := raw 0 == 0xE5

/-- The test of `fat32_dir_find_free`. -/
def isFree : Bool := raw.isEnd || raw.isDeleted

end RawDirent

/-- A slot of zeros, as in a fresh cluster. -/
def zeroRaw : RawDirent := fun _ => 0

/-- `sector + off` read as a slot. -/
def rawAt (sector : Nat → UInt8) (off : Nat) : RawDirent := fun i => sector (off + i)

/-- `memcpy(sector + off, raw, 32)`. -/
def putRaw (sector : Sector) (off : Nat) (raw : RawDirent) : Sector :=
  overlay sector off 32 fun k => if h : k < 32 then raw ⟨k, h⟩ else 0

/-- A `struct fat_dirent_raw` with the given fields, zero elsewhere. -/
def mkDirent (name : List UInt8) (attr : UInt8) (cluster size : Nat) : RawDirent :=
  fun i =>
    if i.val < 11 then name.getD i.val 0
    else if i.val = 11 then attr
    else if i.val = 20 then byteOf cluster 2
    else if i.val = 21 then byteOf cluster 3
    else if i.val = 26 then byteOf cluster 0
    else if i.val = 27 then byteOf cluster 1
    else if 28 ≤ i.val then byteOf size (i.val - 28)
    else 0

/-- The slot with the three fields that `fat32_update_dirent` stores. -/
def RawDirent.withChain (raw : RawDirent) (cluster size : Nat) : RawDirent :=
  fun i =>
    if i.val = 20 then byteOf cluster 2
    else if i.val = 21 then byteOf cluster 3
    else if i.val = 26 then byteOf cluster 0
    else if i.val = 27 then byteOf cluster 1
    else if 28 ≤ i.val then byteOf size (i.val - 28)
    else raw i

/-- The slot that `fat32_unlink_op` writes over a removed entry. -/
def deletedRaw : RawDirent := fun i => if i.val = 0 then 0xE5 else 0

/-- The lower-case form used by `name_eq_nocase`. -/
def lowerChar (c : UInt8) : UInt8 := if 65 ≤ c ∧ c ≤ 90 then c - 65 + 97 else c

/-- `name_eq_nocase`, and its copies in `vfs.c` and `ramfs.c`. -/
def nameEqNocase : CName → CName → Bool
  | [], [] => true
  | [], _ :: _ => false
  | _ :: _, [] => false
  | a :: as, b :: bs => if lowerChar a ≠ lowerChar b then false else nameEqNocase as bs

/-- `.` -/
def dotName : CName := [46]

/-- `..` -/
def dotDotName : CName := [46, 46]

/-- Both names that `fat32_readdir_cb` passes over. -/
def isDotName (name : CName) : Bool := name == dotName || name == dotDotName

/-- One step of `fat32_lfn_checksum`. -/
def lfnChecksumStep (sum c : UInt8) : UInt8 :=
  (if sum &&& 1 ≠ 0 then (0x80 : UInt8) else 0) + (sum >>> 1) + c

/-- `fat32_lfn_checksum`. -/
def fat32LfnChecksum (shortname : List UInt8) : UInt8 :=
  shortname.foldl lfnChecksumStep 0

/-- `fat32_is_invalid_char`. -/
def fat32IsInvalidChar (c : UInt8) : Bool :=
  c < 0x20 || c == 0x7f || c ≥ 0x80 ||
    c ∈ ([34, 42, 47, 92, 58, 60, 62, 63, 124] : List UInt8)

/-- The loop of `fat32_validate_name` from position `len` on. -/
def fat32ValidateLoop : Nat → CName → Except Errno Unit
  | _, [] => .ok ()
  | len, c :: rest =>
      if 255 ≤ len then .error .nametoolong
      else if fat32IsInvalidChar c then .error .inval
      else fat32ValidateLoop (len + 1) rest

/-- `fat32_validate_name`. -/
def fat32ValidateName (name : CName) : Except Errno Unit :=
  if name = [] then .error .inval
  else if isDotName name then .error .inval
  else fat32ValidateLoop 0 name

/-- `fat32_is_short_char`. -/
def fat32IsShortChar (c : UInt8) : Bool :=
  (65 ≤ c && c ≤ 90) || (48 ≤ c && c ≤ 57) ||
    c ∈ ([36, 37, 39, 45, 95, 64, 126, 33, 35, 38, 40, 41, 94] : List UInt8)

/-- `fat32_last_dot`, as the part before the last dot and the part behind it. -/
def fat32LastDot (name : CName) : Option (CName × CName) :=
  match name.reverse.span (· ≠ 46) with
  | (_, []) => none
  | (ext, _ :: base) => some (base.reverse, ext.reverse)

/-- The locals that the two copying loops of `fat32_make_short_name` update. -/
structure ShortPart where
  out : List UInt8
  needsLfn : Bool
  simple : Bool
deriving DecidableEq, Repr

/-- One pass of a copying loop; `limit` is 8 for the base and 3 for the
extension. -/
def shortPartStep (limit : Nat) (part : ShortPart) (c : UInt8) : ShortPart :=
  let lower := 97 ≤ c && c ≤ 122
  let up := if lower then c - 97 + 65 else c
  let bad := !fat32IsShortChar up
  let kept := if bad then 95 else up
  if part.out.length < limit then
    { out := part.out ++ [kept]
      needsLfn := part.needsLfn || lower || bad
      simple := part.simple }
  else { out := part.out, needsLfn := true, simple := false }

/-- What `fat32_make_short_name` knows before it looks at the directory. -/
structure ShortName where
  base : List UInt8
  ext : List UInt8
  needsLfn : Bool
  simple : Bool
deriving DecidableEq, Repr

/-- The first half of `fat32_make_short_name`. -/
def fat32ShortParts (name : CName) : ShortName :=
  let (baseSrc, extSrc) := (fat32LastDot name).getD (name, [])
  let base0 : ShortPart :=
    if baseSrc = [] then ⟨[95], true, true⟩ else ⟨[], false, true⟩
  let base := baseSrc.foldl (shortPartStep 8) base0
  let ext := extSrc.foldl (shortPartStep 3) ⟨[], base.needsLfn, base.simple⟩
  let long := decide (8 < baseSrc.length) || decide (3 < extSrc.length)
  { base := base.out
    ext := ext.out
    needsLfn := ext.needsLfn || long
    simple := ext.simple && !long }

/-- `memset(out, ' ', n)` followed by a copy. -/
def padTo (n : Nat) (s : List UInt8) : List UInt8 :=
  s ++ List.replicate (n - s.length) 32

/-- The 11 bytes of an 8.3 name. -/
def shortField (base ext : List UInt8) : List UInt8 := padTo 8 base ++ padTo 3 ext

/-- The decimal digits of the numeric tail. -/
def tailDigits (n : Nat) : List UInt8 :=
  if n < 10 then [UInt8.ofNat (48 + n)]
  else [UInt8.ofNat (48 + n / 10), UInt8.ofNat (48 + n % 10)]

/-- The candidate with numeric tail `~n`. -/
def tailShort (parts : ShortName) (n : Nat) : List UInt8 :=
  let keep := 8 - (1 + (tailDigits n).length)
  shortField (parts.base.take keep ++ 126 :: tailDigits n) parts.ext

/-- `fat32_lfn_char`. -/
def fat32LfnChar (name : CName) (idx : Nat) : Nat :=
  if h : idx < name.length then name[idx].toNat
  else if idx = name.length then 0x0000
  else 0xFFFF

/-- `base` in `fat32_lfn_write` and `fat32_fill_lfn_entry`, a `size_t`. -/
def lfnBase (ord : UInt8) : Nat :=
  u64 (((ord &&& 0x1F).toNat + 18446744073709551615) * 13)

/-- `fat32_fill_lfn_entry`. -/
def fat32FillLfnEntry (name : CName) (ord checksum : UInt8) : RawDirent := fun i =>
  let unit (j : Nat) := fat32LfnChar name (u64 (lfnBase ord + j))
  if i.val = 0 then ord
  else if i.val = 11 then 0x0F
  else if i.val = 13 then checksum
  else if 1 ≤ i.val ∧ i.val < 11 then byteOf (unit ((i.val - 1) / 2)) ((i.val - 1) % 2)
  else if 14 ≤ i.val ∧ i.val < 26 then
    byteOf (unit (5 + (i.val - 14) / 2)) ((i.val - 14) % 2)
  else if 28 ≤ i.val then byteOf (unit (11 + (i.val - 28) / 2)) ((i.val - 28) % 2)
  else 0

/-- The long-name buffer `char lfn[256]`. -/
abbrev LfnBuf := Nat → UInt8

/-- `fat32_lfn_clear`. -/
def fat32LfnClear : LfnBuf := fun _ => 0

/-- The copying loop of `fat32_lfn_write` from character `i` on, with its
`break` at the end of the buffer. -/
def fat32LfnWriteLoop (raw : RawDirent) (base : Nat) : Nat → Nat → LfnBuf → LfnBuf
  | 0, _, lfn => lfn
  | left + 1, i, lfn =>
      let pos := u64 (base + i)
      if 255 ≤ pos then lfn
      else
        let c := raw.lfnUnit i
        let stored := if c = 0x0000 ∨ c = 0xFFFF then 0 else byteOf c 0
        fat32LfnWriteLoop raw base left (i + 1) fun k => if k = pos then stored else lfn k

/-- `fat32_lfn_write` with `max = 256`. -/
def fat32LfnWrite (lfn : LfnBuf) (raw : RawDirent) : LfnBuf :=
  fat32LfnWriteLoop raw (lfnBase raw.ord) 13 0 lfn

/-- The C string at the start of a character buffer of `n` bytes. -/
def cString (n : Nat) (buf : Nat → UInt8) : CName :=
  ((List.range n).map buf).takeWhile (· ≠ 0)

/-- The name rebuilt from the padded 8.3 field, read as a C string. -/
def shortToName (field : List UInt8) : CName :=
  let base := (field.take 8).takeWhile (· ≠ 32)
  let ext := (field.drop 8).takeWhile (· ≠ 32)
  (if ext = [] then base else base ++ 46 :: ext).takeWhile (· ≠ 0)

end OsAgentLab
