/-
Operations on file vnodes: read, write, truncate and stat of `fat32.c`.
-/
import OsAgentLab.Kernel

namespace OsAgentLab

/-- `fat32_update_dirent`. -/
def fat32UpdateDirent (node : Fat32Node) : Fs Unit :=
  if node.direntLba = 0 then pure ()
  else do
    let sector ← Prog.orElse (blkRead node.direntLba) .io
    let raw := (rawAt sector node.direntOff).withChain node.cluster node.size
    Prog.orElse (blkWrite node.direntLba (putRaw sector node.direntOff raw)) .io

/-- `fat32_refresh_node`: the node as it is afterwards. -/
def fat32RefreshNode (node : Fat32Node) : Fs Fat32Node :=
  if node.direntLba = 0 then pure node
  else do
    let sector ← Prog.orElse (blkRead node.direntLba) .io
    let raw := rawAt sector node.direntOff
    pure { node with attr := raw.attr, size := raw.fileSize, cluster := raw.cluster }

/-- `fs->bytes_per_sector * fs->sectors_per_cluster`. -/
def Fat32Fs.clusterSize (fs : Fat32Fs) : Nat := u32 (fs.bytesPerSector * fs.sectorsPerCluster)

/-- The loops that follow `skip` links; `none` when the chain ends before. -/
def fat32SkipClusters : Nat → Nat → Fs (Option Nat)
  | 0, cluster => pure (some cluster)
  | skip + 1, cluster => do
      let next ← Prog.orElse (fat32ReadFatEntry cluster) .io
      if fat32Eoc ≤ next then pure none else fat32SkipClusters skip next

/-- The copying loop of `fat32_read_op` inside one cluster: `left` bytes from
byte `off` of the sector `idx` on. -/
def fat32ReadChunks (lba : Nat) : Nat → Nat → Nat → Nat → Fs (List UInt8)
  | 0, _, _, _ => pure []
  | fuel + 1, idx, off, left =>
      if left = 0 then pure []
      else do
        let sector ← Prog.orElse (blkRead (u32 (lba + idx))) .io
        let chunk := min (512 - off) left
        let rest ← fat32ReadChunks lba fuel (idx + 1) 0 (left - chunk)
        pure ((List.range chunk).map (fun i => sector (off + i)) ++ rest)

/-- The outer loop of `fat32_read_op`. -/
def fat32ReadLoop : Nat → Nat → Nat → Nat → Fs (List UInt8)
  | 0, _, _, _ => pure []
  | fuel + 1, cluster, off, remaining =>
      if 0 < remaining ∧ cluster < fat32Eoc then do
        let fs ← getFs
        let toCopy := min (fs.clusterSize - off) remaining
        let here ←
          fat32ReadChunks (fat32ClusterToLba fs cluster) toCopy (off / 512) (off % 512) toCopy
        if 0 < remaining - toCopy then do
          let next ← Prog.orElse (fat32ReadFatEntry cluster) .io
          let rest ← fat32ReadLoop fuel next 0 (remaining - toCopy)
          pure (here ++ rest)
        else pure here
      else pure []

/-- `fat32_read_op` behind the refresh: the bytes copied to `buf`. -/
def fat32ReadNode (node : Fat32Node) (len offset : Nat) : Fs (List UInt8) :=
  if node.size ≤ offset then pure []
  else
    let remaining := if node.size < u64 (offset + len) then node.size - offset else len
    if node.cluster = 0 then pure []
    else do
      let fs ← getFs
      match ← fat32SkipClusters (offset / fs.clusterSize) node.cluster with
      | none => pure []
      | some cluster =>
          fat32ReadLoop remaining cluster (u32 (offset % fs.clusterSize)) remaining

/-- `fat32_read_op`: the return value and the bytes stored in `buf`. -/
def fat32ReadOp (vn len offset : Nat) : Kern (Int × List UInt8) := do
  let k ← Prog.get
  let node ← Prog.orElse (onVol (fat32RefreshNode (k.fatNode vn))) .io
  Prog.modify fun k => k.setFatNode (k.vnode vn).data node
  if (k.vnode vn).type ≠ .file then Prog.fail .isdir
  else do
    let bytes ← onVol (fat32ReadNode node len offset)
    pure (cInt bytes.length, bytes)

/-- The sector that the copying loop of `fat32_write_op` writes: a whole one from
the buffer, or an old one with `chunk` new bytes. -/
def fat32FillSector (lba off chunk : Nat) (data : List UInt8) : Fs Sector :=
  if off = 0 ∧ chunk = 512 then pure fun i => data.getD i 0
  else do
    let old ← Prog.orElse (blkRead lba) .io
    pure (overlay old off chunk fun i => data.getD i 0)

/-- The copying loop of `fat32_write_op` inside one cluster. -/
def fat32WriteChunks (lba : Nat) : Nat → Nat → Nat → List UInt8 → Fs Unit
  | 0, _, _, _ => pure ()
  | fuel + 1, idx, off, data =>
      if data = [] then pure ()
      else do
        let chunk := min (512 - off) data.length
        let sector ← fat32FillSector (u32 (lba + idx)) off chunk data
        Prog.orElse (blkWrite (u32 (lba + idx)) sector) .io
        fat32WriteChunks lba fuel (idx + 1) 0 (data.drop chunk)

/-- The outer loop of `fat32_write_op`. -/
def fat32WriteLoop : Nat → Nat → Nat → List UInt8 → Fs Unit
  | 0, _, _, _ => pure ()
  | fuel + 1, cluster, off, data =>
      if 0 < data.length ∧ cluster < fat32Eoc then do
        let fs ← getFs
        let toCopy := min (fs.clusterSize - off) data.length
        fat32WriteChunks (fat32ClusterToLba fs cluster) toCopy (off / 512) (off % 512)
          (data.take toCopy)
        if 0 < data.length - toCopy then do
          let next ← Prog.orElse (fat32ReadFatEntry cluster) .io
          fat32WriteLoop fuel next 0 (data.drop toCopy)
        else pure ()
      else pure ()

/-- `(uint32_t)((end + cluster_size - 1) / cluster_size)`. -/
def clustersNeeded (fs : Fat32Fs) (size : Nat) : Nat :=
  u32 (u64 (size + fs.clusterSize - 1) / fs.clusterSize)

/-- `fat32_ensure_chain(fs, &node->cluster, needed)` for node `n`. -/
def fat32EnsureChain (n needed : Nat) : Kern Unit := do
  let k ← Prog.get
  let start ← onVol (fat32EnsureStart (k.fatNodes.slot n).cluster needed)
  Prog.modify fun k => k.setFatNode n { k.fatNodes.slot n with cluster := start }
  onVol (fat32EnsureRest start needed)

/-- `fat32_write_op` between `fat32_ensure_chain` and the size update. -/
def fat32WriteData (cluster offset : Nat) (buf : List UInt8) : Fs Unit := do
  let fs ← getFs
  match ← fat32SkipClusters (offset / fs.clusterSize) cluster with
  | none => Prog.fail .io
  | some cluster =>
      fat32WriteLoop buf.length cluster (u32 (offset % fs.clusterSize)) buf

/-- `fat32_write_op`. -/
def fat32WriteOp (vn : Nat) (buf : List UInt8) (offset : Nat) : Kern Int := do
  let k ← Prog.get
  let n := (k.vnode vn).data
  if (k.vnode vn).type ≠ .file then Prog.fail .isdir
  else if buf = [] then pure 0
  else do
    let stop := u64 (offset + buf.length)
    Prog.orElse (fat32EnsureChain n (clustersNeeded k.vol.fs stop)) .nospc
    let k ← Prog.get
    onVol (fat32WriteData (k.fatNodes.slot n).cluster offset buf)
    let k ← Prog.get
    let node := k.fatNodes.slot n
    if node.size < stop then do
      Prog.modify fun k => k.setFatNode n { node with size := u32 stop }
      Prog.orElse (onVol (fat32UpdateDirent { node with size := u32 stop })) .io
      pure (cInt buf.length)
    else pure (cInt buf.length)

/-- The end of a shrinking or growing `fat32_truncate_op`: cut the chain
behind its `needed`-th cluster. -/
def fat32CutChain (cluster needed : Nat) : Fs Unit := do
  let last ← Prog.orElse (fat32GetClusterAt cluster (u32 (needed + 4294967295))) .io
  let next ← Prog.orElse (fat32ReadFatEntry last) .io
  if next < fat32Eoc then do
    Prog.orElse (fat32WriteFatEntry last fat32Eoc) .io
    Prog.orElse (fat32FreeChain next) .io
  else pure ()

/-- `fat32_truncate_op`. -/
def fat32TruncateOp (vn size : Nat) : Kern Unit := do
  let k ← Prog.get
  let n := (k.vnode vn).data
  let node := k.fatNodes.slot n
  if (k.vnode vn).type ≠ .file then Prog.fail .isdir
  else if size = node.size then pure ()
  else if size = 0 then do
    onVol (fat32FreeTarget node.cluster)
    Prog.modify fun k => k.setFatNode n { node with cluster := 0, size := 0 }
    onVol (fat32UpdateDirent { node with cluster := 0, size := 0 })
  else do
    let needed := clustersNeeded k.vol.fs size
    Prog.orElse (fat32EnsureChain n needed) .nospc
    let k ← Prog.get
    onVol (fat32CutChain (k.fatNodes.slot n).cluster needed)
    let node := { k.fatNodes.slot n with size := u32 size }
    Prog.modify fun k => k.setFatNode n node
    onVol (fat32UpdateDirent node)

/-- `fat32_stat_op`. -/
def fat32StatOp (vn : Nat) : Kern VfsStat := fun k =>
  let node := k.fatNode vn
  (.ok { stSize := node.size, stIno := node.cluster, stNlink := 1
         stMode := if (k.vnode vn).type = .dir then 0o40755 else 0o100644 }, k)

end OsAgentLab
