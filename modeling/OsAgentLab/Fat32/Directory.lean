/-
Directories of the volume: `fat32_iter_dir`, the slot addresses, and the
search for free slots of `fat32.c`.
-/
import OsAgentLab.Flow
import OsAgentLab.Fat32.Dirent
import OsAgentLab.Fat32.Table

namespace OsAgentLab

/-- One slot of a directory together with its place. -/
structure DirSlot where
  raw : RawDirent
  lba : Nat
  off : Nat
  index : Nat

/-- The arguments with which `fat32_iter_dir` calls its callback. -/
structure DirHit where
  raw : RawDirent
  name : CName
  direntLba : Nat
  direntOff : Nat
  entryIndex : Nat
  lfnCount : Nat

/-- What a callback answers: `0`, a positive value, or a negative errno. -/
inductive CbRet where
  | goOn
  | stop
  | fail (error : Errno)
deriving DecidableEq, Repr

/-- The locals `lfn`, `lfn_checksum`, `lfn_valid` and `lfn_count`. -/
structure LfnState where
  lfn : LfnBuf
  checksum : UInt8
  valid : Bool
  count : Nat

def LfnState.init : LfnState := ⟨fat32LfnClear, 0, false, 0⟩

/-- `lfn_valid = 0; lfn_count = 0`. -/
def LfnState.drop (st : LfnState) : LfnState := { st with valid := false, count := 0 }

/-- The long-name branch of `fat32_iter_dir`. -/
def LfnState.feed (st : LfnState) (raw : RawDirent) : LfnState :=
  let st :=
    if raw.ord &&& 0x40 ≠ 0 then
      { lfn := fat32LfnClear, checksum := raw.checksum, valid := true, count := 0 }
    else st
  if st.valid && raw.checksum == st.checksum then
    { st with lfn := fat32LfnWrite st.lfn raw, count := st.count + 1 }
  else st.drop

/-- The name that `fat32_iter_dir` rebuilds for a short entry. -/
def LfnState.entryName (st : LfnState) (raw : RawDirent) : CName :=
  if st.valid && st.lfn 0 != 0 && st.checksum == fat32LfnChecksum raw.name then
    (cString 256 st.lfn).take 255
  else shortToName raw.name

/-- What one slot is to `fat32_iter_dir`. -/
inductive SlotStep where
  | endMark
  | skip (st : LfnState)
  | entry (hit : DirHit) (st : LfnState)

/-- The body of the innermost loop of `fat32_iter_dir` up to the callback. -/
def slotStep (slot : DirSlot) (st : LfnState) : SlotStep :=
  if slot.raw.isEnd then .endMark
  else if slot.raw.isDeleted then .skip st.drop
  else if slot.raw.isLfn then .skip (st.feed slot.raw)
  else if slot.raw.isVolume then .skip st.drop
  else .entry
    { raw := slot.raw
      name := st.entryName slot.raw
      direntLba := slot.lba
      direntOff := slot.off
      entryIndex := slot.index
      lfnCount := st.count }
    st.drop

section Iteration

variable {β : Type}

/-- One pass of the innermost loop, with the callback `cb` and its context. -/
def iterSlot (cb : DirHit → β → CbRet × β) (slot : DirSlot) :
    LfnState × β → Flow (LfnState × β) (CbRet × β)
  | (st, ctx) =>
      match slotStep slot st with
      | .endMark => .done (.goOn, ctx)
      | .skip st' => .next (st', ctx)
      | .entry hit st' =>
          match cb hit ctx with
          | (.goOn, ctx') => .next (st', ctx')
          | (ret, ctx') => .done (ret, ctx')

/-- The 16 slots of one sector; `base` is the index of the first. -/
def sectorSlots (lba base : Nat) (sector : Sector) : List DirSlot :=
  (List.range 16).map fun i => ⟨rawAt sector (32 * i), lba, 32 * i, base + i⟩

/-- The two inner loops of `fat32_iter_dir` over the sectors of one cluster,
whose first slot has the index `base`.  A failing read ends the iteration
with `-EIO`. -/
def iterCluster (v : Vol) (cb : DirHit → β → CbRet × β) (cluster base : Nat) :
    LfnState × β → Flow (LfnState × β) (CbRet × β) :=
  Flow.loop (fun s state =>
    let lba := fat32ClusterToLba v.fs cluster + s
    match v.disk.read lba with
    | none => .done (.fail .io, state.2)
    | some sector => Flow.loop (iterSlot cb) (sectorSlots (u32 lba) (base + 16 * s) sector) state)
    (List.range v.fs.sectorsPerCluster)

/-- The outer loop of `fat32_iter_dir`.  `none` means that the walk has made
more steps than there are values below `FAT32_EOC`, so that it runs in a
circle. -/
def iterChain (v : Vol) (cb : DirHit → β → CbRet × β) :
    Nat → Nat → Nat → LfnState × β → Option (CbRet × β)
  | 0, _, _, _ => none
  | fuel + 1, cluster, base, state =>
      if fat32Eoc ≤ cluster then some (.goOn, state.2)
      else
        match iterCluster v cb cluster base state with
        | .done result => some result
        | .next state' =>
            match (fat32ReadFatEntry cluster v).1 with
            | .ok next => iterChain v cb fuel next (base + 16 * v.fs.sectorsPerCluster) state'
            | _ => some (.fail .io, state'.2)

/-- `fat32_iter_dir(fs, start, cb, ctx)`. -/
def fat32IterDir (v : Vol) (start : Nat) (cb : DirHit → β → CbRet × β) (ctx : β) :
    Option (CbRet × β) :=
  iterChain v cb (fat32Eoc + 1) start 0 (LfnState.init, ctx)

end Iteration

/-- `fat32_find_cb`: the context is the entry found. -/
def fat32FindCb (name : CName) (hit : DirHit) (ctx : Option DirHit) :
    CbRet × Option DirHit :=
  if nameEqNocase hit.name name then (.stop, some hit) else (.goOn, ctx)

/-- `fat32_find_entry`. -/
def fat32FindEntry (dirCluster : Nat) (name : CName) : Fs DirHit := fun v =>
  match fat32IterDir v dirCluster (fat32FindCb name) none with
  | none => (.diverges, v)
  | some (.stop, some hit) => (.ok hit, v)
  | some (.fail e, _) => (.err e, v)
  | some _ => (.err .noent, v)

/-- `fat32_short_exists_cb`: the context is `ctx->found`. -/
def fat32ShortExistsCb (shortname : List UInt8) (hit : DirHit) (found : Bool) :
    CbRet × Bool :=
  if hit.raw.name = shortname then (.stop, true) else (.goOn, found)

/-- `fat32_short_exists`; a failed iteration counts as a collision. -/
def fat32ShortExists (dirCluster : Nat) (shortname : List UInt8) : Fs Bool := fun v =>
  match fat32IterDir v dirCluster (fat32ShortExistsCb shortname) false with
  | none => (.diverges, v)
  | some (.goOn, found) => (.ok found, v)
  | some _ => (.ok true, v)

/-- `fat32_readdir_cb`: the context holds `idx` and the entry delivered. -/
def fat32ReaddirCb (want : Nat) (hit : DirHit) (ctx : Nat × Option DirHit) :
    CbRet × (Nat × Option DirHit) :=
  if isDotName hit.name then (.goOn, ctx)
  else if ctx.1 = want then (.stop, (ctx.1, some hit))
  else (.goOn, (ctx.1 + 1, ctx.2))

/-- `fat32_dir_is_empty`.  With `want = 0` the first pass of its loop already
decides: the index never leaves zero without a hit. -/
def fat32DirIsEmpty (dirCluster : Nat) : Fs Bool := fun v =>
  match fat32IterDir v dirCluster (fat32ReaddirCb 0) (0, none) with
  | none => (.diverges, v)
  | some (.stop, _) => (.ok false, v)
  | some (.fail e, _) => (.err e, v)
  | some (.goOn, _) => (.ok true, v)

/-- `fat32_make_short_name` from the first candidate on: the tails `~n`. -/
def fat32ShortTails (dirCluster : Nat) (parts : ShortName) : List Nat → Fs (List UInt8 × Bool)
  | [] => Prog.fail .nospc
  | n :: rest => do
      if ← fat32ShortExists dirCluster (tailShort parts n) then
        fat32ShortTails dirCluster parts rest
      else pure (tailShort parts n, true)

/-- `fat32_make_short_name`: the short name and `*needs_lfn`. -/
def fat32MakeShortName (dirCluster : Nat) (name : CName) : Fs (List UInt8 × Bool) := do
  let parts := fat32ShortParts name
  let first := shortField parts.base parts.ext
  let taken ← if parts.simple then fat32ShortExists dirCluster first else pure true
  if taken then fat32ShortTails dirCluster parts (List.range' 1 99)
  else pure (first, parts.needsLfn)

/-- `fat32_dir_entry_location`. -/
def fat32DirEntryLocation (dirCluster entryIndex : Nat) : Fs (Nat × Nat) := do
  let fs ← getFs
  let entriesPerCluster := u32 (fs.sectorsPerCluster * fs.bytesPerSector) / 32
  let clusterIndex := u32 (entryIndex / entriesPerCluster)
  let entryInCluster := u32 (entryIndex % entriesPerCluster)
  let cluster ← Prog.orElse (fat32GetClusterAt dirCluster clusterIndex) .noent
  let byteOff := u32 (entryInCluster * 32)
  pure (u32 (fat32ClusterToLba fs cluster + byteOff / 512), byteOff % 512)

/-- `fat32_write_dir_entry`. -/
def fat32WriteDirEntry (dirCluster entryIndex : Nat) (entry : RawDirent) : Fs Unit := do
  let (lba, off) ← Prog.orElse (fat32DirEntryLocation dirCluster entryIndex) .noent
  let sector ← Prog.orElse (blkRead lba) .io
  Prog.orElse (blkWrite lba (putRaw sector off entry)) .io

/-- `run_start` and `run_len`. -/
structure FreeRun where
  start : Nat
  len : Nat
deriving DecidableEq, Repr

/-- One slot of the search of `fat32_dir_find_free`. -/
def freeRunStep (needed : Nat) (slot : DirSlot) (run : FreeRun) : Flow FreeRun (Except Errno Nat) :=
  if slot.raw.isFree then
    let start := if run.len = 0 then slot.index else run.start
    if needed ≤ run.len + 1 then .done (.ok start) else .next ⟨start, run.len + 1⟩
  else .next ⟨run.start, 0⟩

/-- The search of `fat32_dir_find_free` in one cluster. -/
def findFreeCluster (v : Vol) (needed cluster base : Nat) :
    FreeRun → Flow FreeRun (Except Errno Nat) :=
  Flow.loop (fun s run =>
    let lba := fat32ClusterToLba v.fs cluster + s
    match v.disk.read (u32 lba) with
    | none => .done (.error .io)
    | some sector => Flow.loop (freeRunStep needed) (sectorSlots (u32 lba) (base + 16 * s) sector) run)
    (List.range v.fs.sectorsPerCluster)

/-- Where the search of `fat32_dir_find_free` ends when no run is long enough:
`last_cluster`, the final `entry_index`, and the run at the end. -/
structure FindFreeEnd where
  last : Nat
  entryIndex : Nat
  run : FreeRun
deriving DecidableEq, Repr

/-- The outer loop of the search, with `last` as `last_cluster`. -/
def findFreeChain (v : Vol) (needed : Nat) :
    Nat → Nat → Nat → Nat → FreeRun → Option (Flow FindFreeEnd (Except Errno Nat))
  | 0, _, _, _, _ => none
  | fuel + 1, cluster, last, base, run =>
      if fat32Eoc ≤ cluster then some (.next ⟨last, base, run⟩)
      else
        match findFreeCluster v needed cluster base run with
        | .done result => some (.done result)
        | .next run' =>
            match (fat32ReadFatEntry cluster v).1 with
            | .ok next =>
                findFreeChain v needed fuel next cluster (base + 16 * v.fs.sectorsPerCluster) run'
            | _ => some (.done (.error .io))

/-- `fat32_dir_find_free`. -/
def fat32DirFindFree (dirCluster needed : Nat) : Fs Nat := fun v =>
  match findFreeChain v needed (fat32Eoc + 1) dirCluster dirCluster 0 ⟨0, 0⟩ with
  | none => (.diverges, v)
  | some (.done (.ok index)) => (.ok index, v)
  | some (.done (.error e)) => (.err e, v)
  | some (.next stop) =>
      let entriesPerCluster := u32 (v.fs.sectorsPerCluster * v.fs.bytesPerSector) / 32
      let start := if stop.run.len = 0 then stop.entryIndex else stop.run.start
      (do
        fat32Append entriesPerCluster needed (needed - stop.run.len) stop.last stop.run.len
        pure start : Fs Nat) v

end OsAgentLab
