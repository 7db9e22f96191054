/-
The state behind the file-system calls of the kernel: the mounted volume and
the fixed tables of FAT32 nodes, vnodes and ramfs nodes.
-/
import OsAgentLab.Pool
import OsAgentLab.Fat32.Directory

namespace OsAgentLab

/-- `enum vnode_type`. -/
inductive VnodeType where
  | file
  | dir
deriving DecidableEq, Repr

/-- The two tables of operations, `g_fat32_ops` and `g_ramfs_ops`. -/
inductive FsOps where
  | fat32
  | ramfs
deriving DecidableEq, Repr

/-- `struct vnode`; `data` is the index of the node in the pool of its file
system, and pointers to vnodes are indices into the vnode pool. -/
structure Vnode where
  type : VnodeType
  ops : Option FsOps
  data : Nat
  parent : Option Nat
  name : CName
deriving DecidableEq, Repr

/-- `struct fat32_node`; its `fs` always points to `g_fs`. -/
structure Fat32Node where
  cluster : Nat
  size : Nat
  attr : UInt8
  dirCluster : Nat
  direntLba : Nat
  direntOff : Nat
  direntIndex : Nat
  direntCount : Nat
deriving DecidableEq, Repr

/-- `struct ramfs_node`; the pointers are indices into the node table. -/
structure RamfsNode where
  type : VnodeType
  name : CName
  parent : Option Nat
  child : Option Nat
  sibling : Option Nat
  size : Nat
  data : Nat → UInt8

/-- `struct vfs_stat`, the fields that a file system fills in. -/
structure VfsStat where
  stSize : Nat
  stIno : Nat
  stMode : Nat
  stNlink : Nat
deriving DecidableEq, Repr

/-- `VNODE_POOL_SIZE`. -/
def vnodePoolSize : Nat := 256

/-- The length of `g_nodes` in `fat32.c`. -/
def fat32NodePoolSize : Nat := 256

/-- `RAMFS_MAX_NODES`. -/
def ramfsMaxNodes : Nat := 128

/-- The kernel state that the file-system code reads and writes.  `mounts`
lists the used entries of `g_mounts`, mount point first. -/
structure Kernel where
  vol : Vol
  fatNodes : Pool Fat32Node
  vnodes : Pool Vnode
  ramNodes : Pool RamfsNode
  mounts : List (Nat × Nat)
  root : Option Nat
  cwd : Option Nat

/-- Programs over the kernel state. -/
abbrev Kern (α : Type) : Type := Prog Kernel Errno α

namespace Kernel

variable (k : Kernel)

def vnode (vn : Nat) : Vnode := k.vnodes.slot vn

/-- The FAT32 node behind a vnode. -/
def fatNode (vn : Nat) : Fat32Node := k.fatNodes.slot (k.vnode vn).data

/-- The ramfs node behind a vnode. -/
def ramNode (vn : Nat) : RamfsNode := k.ramNodes.slot (k.vnode vn).data

def setFatNode (n : Nat) (node : Fat32Node) : Kernel :=
  { k with fatNodes := k.fatNodes.setSlot n node }

def setRamNode (n : Nat) (node : RamfsNode) : Kernel :=
  { k with ramNodes := k.ramNodes.setSlot n node }

end Kernel

/-- A volume operation called from the kernel. -/
def onVol {α : Type} (m : Fs α) : Kern α :=
  Prog.zoom Kernel.vol (fun v k => { k with vol := v }) m

/-- `vfs_alloc_vnode` and the stores into the new vnode. -/
def vfsAllocVnode (vnode : Nat → Vnode) (k : Kernel) : Option (Nat × Kernel) :=
  match k.vnodes.firstFree vnodePoolSize with
  | none => none
  | some i => some (i, { k with vnodes := k.vnodes.take i (vnode i) })

/-- `fat32_alloc_node` and the stores into the new node. -/
def fat32AllocNode (node : Fat32Node) (k : Kernel) : Option (Nat × Kernel) :=
  match k.fatNodes.firstFree fat32NodePoolSize with
  | none => none
  | some i => some (i, { k with fatNodes := k.fatNodes.take i node })

/-- `fat32_wrap_node`, with the name that its callers copy into the vnode. -/
def fat32WrapNode (n : Nat) (parent : Nat) (name : CName) (k : Kernel) :
    Option (Nat × Kernel) :=
  vfsAllocVnode (fun _ =>
    { type := if (k.fatNodes.slot n).attr &&& 0x10 ≠ 0 then .dir else .file
      ops := some .fat32
      data := n
      parent := some parent
      name := name }) k

end OsAgentLab
