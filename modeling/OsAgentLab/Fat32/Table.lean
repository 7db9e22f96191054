/-
The FAT32 volume and its allocation table: `fat32_read_fat_entry` up to
`fat32_ensure_chain` of `fat32.c`.
-/
import OsAgentLab.Program
import OsAgentLab.Blk

namespace OsAgentLab

/-- `FAT32_EOC`: the first end-of-chain value. -/
def fat32Eoc : Nat := 0x0FFFFFF8

/-- `FAT32_MIN_CLUSTER`. -/
def fat32MinCluster : Nat := 2

/-- `struct fat32_fs`. -/
structure Fat32Fs where
  partLba : Nat
  fatLba : Nat
  dataLba : Nat
  reservedSectors : Nat
  totalSectors : Nat
  sectorsPerFat : Nat
  numFats : Nat
  clusterCount : Nat
  sectorsPerCluster : Nat
  bytesPerSector : Nat
  rootCluster : Nat
  allocHint : Nat
deriving DecidableEq, Repr

/-- A mounted volume: the disk and `g_fs`. -/
structure Vol where
  disk : Disk
  fs : Fat32Fs

/-- Programs over the volume. -/
abbrev Fs (α : Type) : Type := Prog Vol Errno α

def getFs : Fs Fat32Fs := fun v => (.ok v.fs, v)

/-- `blk_read(lba, dst, 1)`; the return value `-1` is `-EPERM`. -/
def blkRead (lba : Nat) : Fs Sector := fun v =>
  match v.disk.read lba with
  | some sector => (.ok sector, v)
  | none => (.err .perm, v)

/-- `blk_write(lba, src, 1)`. -/
def blkWrite (lba : Nat) (sector : Sector) : Fs Unit := fun v =>
  match v.disk.write lba sector with
  | some disk => (.ok (), { v with disk := disk })
  | none => (.err .perm, v)

/-- `fat32_cluster_to_lba`. -/
def fat32ClusterToLba (fs : Fat32Fs) (cluster : Nat) : Nat :=
  u32 (fs.dataLba + u32 (u32 (cluster + 4294967294) * fs.sectorsPerCluster))

/-- `fat32_read_fat_entry`. -/
def fat32ReadFatEntry (cluster : Nat) : Fs Nat := do
  let fs ← getFs
  let fatOffset := u32 (cluster * 4)
  let sectorIdx := fatOffset / fs.bytesPerSector
  let sectorOff := fatOffset % fs.bytesPerSector
  if fs.bytesPerSector ≠ 512 then Prog.fail .io
  else do
    let sector ← Prog.orElse (blkRead (u32 (fs.fatLba + sectorIdx))) .io
    if 512 < sectorOff + 4 then Prog.fail .io
    else pure (le32 sector sectorOff &&& 0x0FFFFFFF)

/-- The four stores of `fat32_write_fat_entry` into one FAT sector. -/
def putFatValue (sector : Sector) (off value : Nat) : Sector :=
  overlay sector off 4 fun i =>
    if i = 3 then byteOf value 3 &&& 0x0F else byteOf value i

/-- `fat32_write_fat_entry`: every FAT copy is updated. -/
def fat32WriteFatEntry (cluster value : Nat) : Fs Unit := do
  let fs ← getFs
  let fatOffset := u32 (cluster * 4)
  let sectorIdx := fatOffset / fs.bytesPerSector
  let sectorOff := fatOffset % fs.bytesPerSector
  if fs.bytesPerSector ≠ 512 then Prog.fail .io
  else
    Prog.forCount (fun fat => do
      let lba := u32 (fs.fatLba + u32 (fat * fs.sectorsPerFat) + sectorIdx)
      let sector ← Prog.orElse (blkRead lba) .io
      Prog.orElse (blkWrite lba (putFatValue sector sectorOff value)) .io)
      fs.numFats 0

/-- `fat32_zero_cluster`. -/
def fat32ZeroCluster (cluster : Nat) : Fs Unit := do
  let fs ← getFs
  let lba := fat32ClusterToLba fs cluster
  Prog.forCount (fun s => Prog.orElse (blkWrite (u32 (lba + s)) fun _ => 0) .io)
    fs.sectorsPerCluster 0

/-- One pass of `fat32_alloc_cluster` over `count` clusters from `c` on: the
first free one is taken. -/
def fat32AllocPass : Nat → Nat → Fs (Option Nat)
  | 0, _ => pure none
  | count + 1, c => do
      let next ← Prog.orElse (fat32ReadFatEntry c) .io
      if next = 0 then do
        Prog.orElse (fat32WriteFatEntry c fat32Eoc) .io
        Prog.orElse (fat32ZeroCluster c) .io
        Prog.modify fun v => { v with fs := { v.fs with allocHint := u32 (c + 1) } }
        pure (some c)
      else fat32AllocPass count (c + 1)

/-- `fat32_alloc_cluster`: one pass from the hint, one from the first cluster.  When
`max_cluster` is the largest `uint32_t`, `c <= max_cluster` always holds: the first
pass goes on behind the wrap-around of `c`, round after round. -/
def fat32AllocCluster : Fs Nat := do
  let fs ← getFs
  let maxCluster := u32 (fs.clusterCount + 1)
  let start :=
    if fs.allocHint < fat32MinCluster then fat32MinCluster else fs.allocHint
  if maxCluster = 4294967295 then do
    match ← fat32AllocPass (4294967296 - start) start with
    | some c => pure c
    | none =>
        match ← fat32AllocPass 4294967296 0 with
        | some c => pure c
        | none => Prog.hang
  else do
    match ← fat32AllocPass (maxCluster + 1 - start) start with
    | some c => pure c
    | none =>
        match ← fat32AllocPass (maxCluster + 1 - fat32MinCluster) fat32MinCluster with
        | some c => pure c
        | none => Prog.fail .nospc

/-- The loop of `fat32_free_chain`.  Every pass clears the entry it leaves, so
a walk of more than `FAT32_EOC` passes does not exist. -/
def fat32FreeChainLoop : Nat → Nat → Fs Unit
  | 0, _ => Prog.hang
  | fuel + 1, cluster => do
      let fs ← getFs
      if fat32MinCluster ≤ cluster ∧ cluster ≤ u32 (fs.clusterCount + 1) ∧
          cluster < fat32Eoc then do
        let next ← Prog.orElse (fat32ReadFatEntry cluster) .io
        Prog.orElse (fat32WriteFatEntry cluster 0) .io
        fat32FreeChainLoop fuel next
      else pure ()

/-- `fat32_free_chain`. -/
def fat32FreeChain (cluster : Nat) : Fs Unit :=
  fat32FreeChainLoop (fat32Eoc + 1) cluster

/-- `if (target_cluster != 0) fat32_free_chain(..)`, as in `fat32_unlink_op` and
`fat32_truncate_op`. -/
def fat32FreeTarget (targetCluster : Nat) : Fs Unit :=
  if targetCluster ≠ 0 then Prog.orElse (fat32FreeChain targetCluster) .io else pure ()

/-- `fat32_get_cluster_at`, with `index` as the number of links to follow. -/
def fat32GetClusterAt (start : Nat) : Nat → Fs Nat
  | 0 =>
      if start < fat32MinCluster ∨ fat32Eoc ≤ start then Prog.fail .noent
      else pure start
  | index + 1 =>
      if start < fat32MinCluster ∨ fat32Eoc ≤ start then Prog.fail .noent
      else do
        let next ← Prog.orElse (fat32ReadFatEntry start) .io
        fat32GetClusterAt next index

/-- The loops of `fat32_ensure_chain` and `fat32_dir_find_free` that append
clusters behind `last` until the count, raised by `step` each time, reaches
`needed`.  One pass per missing unit is always enough. -/
def fat32Append (step needed : Nat) : Nat → Nat → Nat → Fs Unit
  | 0, _, _ => pure ()
  | fuel + 1, last, count =>
      if count < needed then do
        let fresh ← Prog.orElse fat32AllocCluster .nospc
        Prog.orElse (fat32WriteFatEntry last fresh) .io
        fat32Append step needed fuel fresh (count + step)
      else pure ()

/-- The first loop of `fat32_ensure_chain`, `missing` clusters before the
count is reached: the last cluster visited and how many are still missing. -/
def fat32EnsureWalk : Nat → Nat → Nat → Fs (Nat × Nat)
  | 0, _, last => pure (last, 0)
  | missing + 1, cluster, last =>
      if cluster < fat32Eoc then
        if missing = 0 then pure (cluster, 0)
        else do
          let next ← Prog.orElse (fat32ReadFatEntry cluster) .io
          if fat32Eoc ≤ next then pure (cluster, missing)
          else fat32EnsureWalk missing next cluster
      else pure (last, missing + 1)

/-- `fat32_ensure_chain`, in two halves: the start cluster that the caller's
variable holds afterwards is stored by the first, also when the second fails. -/
def fat32EnsureStart (start needed : Nat) : Fs Nat :=
  if needed = 0 then pure start
  else if start = 0 then Prog.orElse fat32AllocCluster .nospc
  else pure start

def fat32EnsureRest (cluster needed : Nat) : Fs Unit :=
  if needed = 0 then pure ()
  else do
    let (last, missing) ← fat32EnsureWalk needed cluster 0
    fat32Append 1 needed missing last (needed - missing)

end OsAgentLab
