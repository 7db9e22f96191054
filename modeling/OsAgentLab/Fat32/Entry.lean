/-
Operations on directory vnodes: lookup, create, mkdir, readdir and unlink of
`fat32.c`.
-/
import OsAgentLab.Kernel

namespace OsAgentLab

/-- The node that describes a directory entry. -/
def DirHit.toNode (hit : DirHit) (dirCluster : Nat) : Fat32Node where
  cluster := hit.raw.cluster
  size := hit.raw.fileSize
  attr := hit.raw.attr
  dirCluster := dirCluster
  direntLba := hit.direntLba
  direntOff := hit.direntOff
  direntIndex := hit.entryIndex
  direntCount := hit.lfnCount + 1

/-- A new node for `hit` and a new vnode for the node. -/
def fat32OpenHit (dir : Nat) (dirCluster : Nat) (hit : DirHit) (name : CName) : Kern Nat :=
  fun k =>
    match fat32AllocNode (hit.toNode dirCluster) k with
    | none => (.err .nomem, k)
    | some (n, k) =>
        match fat32WrapNode n dir name k with
        | none => (.err .nomem, k)
        | some (vn, k) => (.ok vn, k)

/-- `fat32_lookup_cb`: the context is the kernel with its node and vnode
pools, and `*c->out`. -/
def fat32LookupCb (name : CName) (dir dirCluster : Nat) (hit : DirHit)
    (ctx : Kernel × Option Nat) : CbRet × (Kernel × Option Nat) :=
  if !nameEqNocase hit.name name then (.goOn, ctx)
  else
    match fat32OpenHit dir dirCluster hit hit.name ctx.1 with
    | (.ok vn, k) => (.stop, (k, some vn))
    | (_, k) => (.fail .nomem, (k, ctx.2))

/-- `fat32_lookup_op`. -/
def fat32LookupOp (dir : Nat) (name : CName) : Kern Nat := fun k =>
  let dirCluster := (k.fatNode dir).cluster
  match fat32IterDir k.vol dirCluster (fat32LookupCb name dir dirCluster) (k, none) with
  | none => (.diverges, k)
  | some (.stop, (k', some vn)) => (.ok vn, k')
  | some (.fail e, (k', _)) => (.err e, k')
  | some (_, (k', _)) => (.err .noent, k')

/-- The slot `dot` of `fat32_write_dot_entries`. -/
def dotRaw (cluster : Nat) : RawDirent := mkDirent (padTo 11 dotName) 0x10 cluster 0

/-- The slot `dotdot` of `fat32_write_dot_entries`. -/
def dotDotRaw (parentCluster : Nat) : RawDirent := mkDirent (padTo 11 dotDotName) 0x10 parentCluster 0

/-- `fat32_write_dot_entries`. -/
def fat32WriteDotEntries (cluster parentCluster : Nat) : Fs Unit := do
  Prog.orElse (fat32WriteDirEntry cluster 0 (dotRaw cluster)) .io
  Prog.orElse (fat32WriteDirEntry cluster 1 (dotDotRaw parentCluster)) .io

/-- `ord` of the `i`-th long-name slot that `fat32_create_entry` writes. -/
def lfnOrd (lfnCount i : Nat) : UInt8 :=
  if i = 0 then UInt8.ofNat (lfnCount - i) ||| 0x40 else UInt8.ofNat (lfnCount - i)

/-- What `fat32_create_entry` has put on the disk. -/
structure AddedEntry where
  cluster : Nat
  attr : UInt8
  index : Nat
  count : Nat

/-- The step of `fat32_create_entry` that gives a new directory its cluster. -/
def fat32NewDirCluster (dirCluster : Nat) (attr : UInt8) : Fs Nat :=
  if attr &&& 0x10 ≠ 0 then do
    let cluster ← Prog.orElse fat32AllocCluster .nospc
    Prog.orElse (fat32WriteDotEntries cluster dirCluster) .io
    pure cluster
  else pure 0

/-- `raw.attr` of a new entry. -/
def entryAttr (attr : UInt8) : UInt8 := attr ||| (if attr &&& 0x10 ≠ 0 then 0 else 0x20)

/-- `fat32_create_entry` from the search for free slots to the last directory
write. -/
def fat32PlaceEntry (dirCluster : Nat) (name : CName) (attr : UInt8) (shortname : List UInt8)
    (lfnCount : Nat) : Fs AddedEntry := do
  let entryIndex ← fat32DirFindFree dirCluster (lfnCount + 1)
  let cluster ← fat32NewDirCluster dirCluster attr
  let checksum := fat32LfnChecksum shortname
  Prog.forCount (fun i => fat32WriteDirEntry dirCluster (entryIndex + i)
    (fat32FillLfnEntry name (lfnOrd lfnCount i) checksum)) lfnCount 0
  fat32WriteDirEntry dirCluster (entryIndex + lfnCount)
    (mkDirent shortname (entryAttr attr) cluster 0)
  pure ⟨cluster, entryAttr attr, entryIndex + lfnCount, lfnCount + 1⟩

/-- Long-name slots that `fat32_create_entry` writes. -/
def lfnCountOf (name : CName) (needsLfn : Bool) : Nat :=
  if needsLfn then (name.length + 12) / 13 else 0

/-- `fat32_create_entry` from the choice of the short name to the last
directory write. -/
def fat32AddEntry (dirCluster : Nat) (name : CName) (attr : UInt8) : Fs AddedEntry := do
  let (shortname, needsLfn) ← fat32MakeShortName dirCluster name
  fat32PlaceEntry dirCluster name attr shortname (lfnCountOf name needsLfn)

/-- `fat32_create_entry`; `out` tells whether the caller passed a place for
the vnode. -/
def fat32CreateEntry (dir : Nat) (name : CName) (attr : UInt8) (out : Bool) :
    Kern (Option Nat) := do
  let k ← Prog.get
  let dirCluster := (k.fatNode dir).cluster
  match fat32ValidateName name with
  | .error e => Prog.fail e
  | .ok () =>
      match ← Prog.attempt (onVol (fat32FindEntry dirCluster name)) with
      | .ok found =>
          if found.raw.isDir then
            if attr &&& 0x10 = 0 then Prog.fail .isdir
            else if out then do
              let vn ← fat32OpenHit dir dirCluster found name
              pure (some vn)
            else pure none
          else Prog.fail .exist
      | .error .noent => do
          let added ← onVol (fat32AddEntry dirCluster name attr)
          let k ← Prog.get
          match fat32AllocNode
              { cluster := added.cluster, size := 0, attr := added.attr
                dirCluster := dirCluster, direntLba := 0, direntOff := 0
                direntIndex := added.index, direntCount := added.count } k with
          | none => Prog.fail .nomem
          | some (n, k) => do
              Prog.modify fun _ => k
              let (lba, off) ←
                Prog.orElse (onVol (fat32DirEntryLocation dirCluster added.index)) .io
              Prog.modify fun k =>
                k.setFatNode n { k.fatNodes.slot n with direntLba := lba, direntOff := off }
              if out then do
                let k ← Prog.get
                match fat32WrapNode n dir name k with
                | none => Prog.fail .nomem
                | some (vn, k) => do
                    Prog.modify fun _ => k
                    pure (some vn)
              else pure none
      | .error e => Prog.fail e

/-- `fat32_create_op`. -/
def fat32CreateOp (dir : Nat) (name : CName) (out : Bool) : Kern (Option Nat) :=
  fat32CreateEntry dir name 0 out

/-- `fat32_mkdir_op`. -/
def fat32MkdirOp (dir : Nat) (name : CName) (out : Bool) : Kern (Option Nat) :=
  fat32CreateEntry dir name 0x10 out

/-- `fat32_readdir_op`. -/
def fat32ReaddirOp (dir : Nat) (offset : Nat) : Kern DirHit := fun k =>
  match fat32IterDir k.vol (k.fatNode dir).cluster (fat32ReaddirCb offset) (0, none) with
  | none => (.diverges, k)
  | some (.stop, (_, some hit)) => (.ok hit, k)
  | some (.fail e, _) => (.err e, k)
  | some _ => (.err .noent, k)

/-- The check of `fat32_unlink_op` that a directory is empty. -/
def fat32CheckEmpty (raw : RawDirent) : Fs Unit :=
  if raw.isDir then do
    if ← fat32DirIsEmpty raw.cluster then pure () else Prog.fail .notempty
  else pure ()

/-- `fat32_unlink_op` on the directory that starts at `dirCluster`. -/
def fat32UnlinkIn (dirCluster : Nat) (name : CName) : Fs Unit :=
  if isDotName name then Prog.fail .inval
  else do
    let hit ← fat32FindEntry dirCluster name
    fat32CheckEmpty hit.raw
    fat32FreeTarget hit.raw.cluster
    let start := u64 (hit.entryIndex + 18446744073709551616 - hit.lfnCount)
    Prog.forCount (fun i => fat32WriteDirEntry dirCluster (u64 (start + i)) deletedRaw)
      (hit.lfnCount + 1) 0

/-- `fat32_unlink_op`. -/
def fat32UnlinkOp (dir : Nat) (name : CName) : Kern Unit := do
  let k ← Prog.get
  onVol (fat32UnlinkIn (k.fatNode dir).cluster name)

end OsAgentLab
