/-
`fat32_iter_dir` with its local arrays `lfn`, `name` and `sector`, in which every access has
its bound: what happens with an access outside is not defined.
-/
import Mathlib.Data.UInt
import OsAgentLab.Buffer
import OsAgentLab.Fat32.Listing

namespace OsAgentLab

namespace DirBuffers

/-- The locals `lfn`, `lfn_checksum`, `lfn_valid` and `lfn_count`. -/
structure Locals where
  lfn : Buffer UInt8 256
  checksum : UInt8
  valid : Bool
  count : Nat

/-- The arguments of the callback; `name` is the local array. -/
structure Entry where
  raw : RawDirent
  name : Buffer UInt8 256
  direntLba : Nat
  direntOff : Nat
  entryIndex : Nat
  lfnCount : Nat

section Names

/-- The bytes `raw->name[0]` to `raw->name[10]`. -/
def nameField (raw : RawDirent) : Buffer UInt8 11 := fun i => raw ⟨i, by omega⟩

/-- The loop of `fat32_lfn_write` over the array `chars`. -/
def lfnWriteLoop (chars : Buffer Nat 13) (base : Nat) :
    Nat → Nat → Buffer UInt8 256 → Option (Buffer UInt8 256)
  | 0, _, lfn => some lfn
  | left + 1, i, lfn =>
      let pos := u64 (base + i)
      if 255 ≤ pos then some lfn
      else
        (chars.get? i).bind fun c =>
          (lfn.set? pos (if c = 0x0000 ∨ c = 0xFFFF then 0 else byteOf c 0)).bind fun lfn =>
            lfnWriteLoop chars base left (i + 1) lfn

/-- `fat32_lfn_write(lfn, sizeof(lfn), raw)`. -/
def lfnWrite (lfn : Buffer UInt8 256) (raw : RawDirent) : Option (Buffer UInt8 256) :=
  lfnWriteLoop (Buffer.of 13 raw.lfnUnit) (lfnBase raw.ord) 13 0 lfn

/-- `lfn_valid = 0; lfn_count = 0`. -/
def Locals.drop (st : Locals) : Locals := { st with valid := false, count := 0 }

/-- The first half of the long-name branch: a slot with the mark 0x40 starts a name. -/
def Locals.start (st : Locals) (raw : RawDirent) : Option Locals :=
  if raw.ord &&& 0x40 ≠ 0 then
    (st.lfn.fill? 0 256).bind fun lfn =>
      some { lfn := lfn, checksum := raw.checksum, valid := true, count := 0 }
  else some st

/-- The second half. -/
def Locals.collect (st : Locals) (raw : RawDirent) : Option Locals :=
  if st.valid && raw.checksum == st.checksum then
    (lfnWrite st.lfn raw).bind fun lfn => some { st with lfn := lfn, count := st.count + 1 }
  else some st.drop

/-- The long-name branch. -/
def Locals.feed (st : Locals) (raw : RawDirent) : Option Locals :=
  (st.start raw).bind fun st => st.collect raw

/-- `for (i = 0; i < left && raw->name[start + i] != ' '; i++) name[pos++] = ..`, from `i` on. -/
def copyField (field : Buffer UInt8 11) (start : Nat) :
    Nat → Nat → Nat → Buffer UInt8 256 → Option (Nat × Buffer UInt8 256)
  | 0, _, pos, name => some (pos, name)
  | left + 1, i, pos, name =>
      (field.get? (start + i)).bind fun c =>
        if c ≠ 32 then
          (name.set? pos c).bind fun name => copyField field start left (i + 1) (pos + 1) name
        else some (pos, name)

/-- The name of an entry without a long one. -/
def shortName (field : Buffer UInt8 11) (name : Buffer UInt8 256) : Option (Buffer UInt8 256) :=
  (copyField field 0 8 0 0 name).bind fun (pos, name) =>
    (field.get? 8).bind fun c =>
      if c ≠ 32 then
        (name.set? pos 46).bind fun name =>
          (copyField field 8 3 0 (pos + 1) name).bind fun (pos, name) => name.set? pos 0
      else name.set? pos 0

/-- The name of an entry with a long one. -/
def longName (lfn name : Buffer UInt8 256) : Option (Buffer UInt8 256) :=
  lfn.strlen.bind fun nlen =>
    let nlen := if 255 < nlen then 255 else nlen
    (name.copy? lfn nlen).bind fun name => name.set? nlen 0

/-- The array `name` when the callback is called; `junk` is what it holds before. -/
def Locals.entryName (st : Locals) (raw : RawDirent) (junk : Buffer UInt8 256) :
    Option (Buffer UInt8 256) :=
  if st.valid then
    (st.lfn.get? 0).bind fun first =>
      if first ≠ 0 ∧ st.checksum = fat32LfnChecksum raw.name then longName st.lfn junk
      else shortName (nameField raw) junk
  else shortName (nameField raw) junk

end Names

section Iteration

variable {β : Type}

/-- `*(struct fat_dirent_raw *)(sector + off)`. -/
def loadRaw (sector : Buffer UInt8 512) (off : Nat) : Option RawDirent :=
  if h : off + 32 ≤ 512 then some fun i => sector ⟨off + i, by omega⟩ else none

/-- One pass of the innermost loop.  It ends without a result at an access outside an array. -/
def iterSlot (junk : Nat → Buffer UInt8 256) (cb : Entry → β → CbRet × β)
    (sector : Buffer UInt8 512) (lba off index : Nat) :
    Locals × β → Flow (Locals × β) (Option (CbRet × β))
  | (st, ctx) =>
      match loadRaw sector off with
      | none => .done none
      | some raw =>
          if raw.isEnd then .done (some (.goOn, ctx))
          else if raw.isDeleted then .next (st.drop, ctx)
          else if raw.isLfn then
            match st.feed raw with
            | none => .done none
            | some st' => .next (st', ctx)
          else if raw.isVolume then .next (st.drop, ctx)
          else
            match st.entryName raw (junk index) with
            | none => .done none
            | some name =>
                match cb ⟨raw, name, lba, off, index, st.count⟩ ctx with
                | (.goOn, ctx') => .next (st.drop, ctx')
                | (ret, ctx') => .done (some (ret, ctx'))

/-- The loop over the 16 slots of a sector. -/
def iterSector (junk : Nat → Buffer UInt8 256) (cb : Entry → β → CbRet × β)
    (sector : Buffer UInt8 512) (lba base : Nat) :
    Locals × β → Flow (Locals × β) (Option (CbRet × β)) :=
  Flow.loop (fun i => iterSlot junk cb sector lba (32 * i) (base + i)) (List.range 16)

/-- The loop over the sectors of a cluster. -/
def iterCluster (v : Vol) (junk : Nat → Buffer UInt8 256) (cb : Entry → β → CbRet × β)
    (cluster base : Nat) : Locals × β → Flow (Locals × β) (Option (CbRet × β)) :=
  Flow.loop (fun s state =>
    let lba := fat32ClusterToLba v.fs cluster + s
    match v.disk.read lba with
    | none => .done (some (.fail .io, state.2))
    | some sector => iterSector junk cb (Buffer.of 512 sector) (u32 lba) (base + 16 * s) state)
    (List.range v.fs.sectorsPerCluster)

/-- The loop over the clusters, at most `fuel` of them; behind these it is still under way. -/
def iterChain (v : Vol) (junk : Nat → Buffer UInt8 256) (cb : Entry → β → CbRet × β) :
    Nat → Nat → Nat → Locals × β → Flow (Locals × β) (Option (CbRet × β))
  | 0, _, _, state => .next state
  | fuel + 1, cluster, base, state =>
      if fat32Eoc ≤ cluster then .done (some (.goOn, state.2))
      else
        (iterCluster v junk cb cluster base state).bind fun state' =>
          match (fat32ReadFatEntry cluster v).1 with
          | .ok next =>
              iterChain v junk cb fuel next (base + 16 * v.fs.sectorsPerCluster) state'
          | _ => .done (some (.fail .io, state'.2))

/-- `fat32_iter_dir` in its first `fuel` clusters; `stack` is what `lfn` holds at first. -/
def fat32IterDir (v : Vol) (stack : Buffer UInt8 256) (junk : Nat → Buffer UInt8 256)
    (cb : Entry → β → CbRet × β) (fuel start : Nat) (ctx : β) :
    Flow (Locals × β) (Option (CbRet × β)) :=
  match stack.fill? 0 256 with
  | none => .done none
  | some lfn => iterChain v junk cb fuel start 0 (⟨lfn, 0, false, 0⟩, ctx)

end Iteration

end DirBuffers

end OsAgentLab
