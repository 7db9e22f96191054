/-
The in-memory file system of `ramfs.c`.  Directories are linked lists of
nodes; the nodes come from a fixed table.
-/
import OsAgentLab.Kernel

namespace OsAgentLab

/-- `RAMFS_MAX_FILE_SIZE`. -/
def ramfsMaxFileSize : Nat := 4096

/-- The loop over the children of a directory that lookup, create, mkdir and
unlink share: the first node of that name and its predecessor in the list.
`none` means that the links lead round in a circle. -/
def ramfsSearch (k : Kernel) (name : CName) :
    Nat → Option Nat → Option Nat → Option (Option (Option Nat × Nat))
  | _, _, none => some none
  | 0, _, some _ => none
  | fuel + 1, prev, some child =>
      if nameEqNocase (k.ramNodes.slot child).name name then some (some (prev, child))
      else ramfsSearch k name fuel (some child) (k.ramNodes.slot child).sibling

/-- The search in the directory behind the vnode `dir`. -/
def ramfsFind (dir : Nat) (name : CName) : Kern (Option (Option Nat × Nat)) := fun k =>
  match ramfsSearch k name ramfsMaxNodes none (k.ramNode dir).child with
  | none => (.diverges, k)
  | some found => (.ok found, k)

/-- `ramfs_alloc_node` and the stores into the new node. -/
def ramfsAllocNode (node : RamfsNode) (k : Kernel) : Option (Nat × Kernel) :=
  match k.ramNodes.firstFree ramfsMaxNodes with
  | none => none
  | some i => some (i, { k with ramNodes := k.ramNodes.take i node })

/-- `ramfs_wrap_node`; the result is a null pointer when the vnode pool is
exhausted. -/
def ramfsWrapNode (n : Nat) (parent : Nat) : Kern (Option Nat) := fun k =>
  let node := k.ramNodes.slot n
  match vfsAllocVnode (fun _ =>
      { type := node.type, ops := some .ramfs, data := n, parent := some parent
        name := node.name }) k with
  | none => (.ok none, k)
  | some (vn, k) => (.ok (some vn), k)

/-- `*out = vn`, where `out` tells whether the caller passed a place. -/
def storeOut (out : Bool) (vn : Option Nat) : Kern (Option Nat) :=
  if out then pure vn else Prog.crash

/-- `ramfs_lookup`. -/
def ramfsLookup (dir : Nat) (name : CName) : Kern (Option Nat) := do
  match ← ramfsFind dir name with
  | some (_, child) => ramfsWrapNode child dir
  | none => Prog.fail .noent

/-- `ramfs_create` and `ramfs_mkdir` for a node of the given type: an existing
node of that type is reused, and one of the other type is an error. -/
def ramfsMake (type : VnodeType) (clash : Errno) (dir : Nat) (name : CName) (out : Bool) :
    Kern (Option Nat) := do
  match ← ramfsFind dir name with
  | some (_, child) => do
      let k ← Prog.get
      if (k.ramNodes.slot child).type ≠ type then Prog.fail clash
      else do
        let vn ← ramfsWrapNode child dir
        storeOut out vn
  | none => do
      let k ← Prog.get
      let d := (k.vnode dir).data
      match k.ramNodes.firstFree ramfsMaxNodes with
      | none => Prog.fail .nomem
      | some n => do
          -- the table entry is cleared first, which matters when `d` itself is reused
          Prog.modify fun k =>
            { k with ramNodes := k.ramNodes.take n ⟨.file, [], none, none, none, 0, fun _ => 0⟩ }
          Prog.modify fun k => k.setRamNode n
            { k.ramNodes.slot n with
              type := type, name := name, parent := some d
              sibling := (k.ramNodes.slot d).child }
          Prog.modify fun k => k.setRamNode d { k.ramNodes.slot d with child := some n }
          let vn ← ramfsWrapNode n dir
          storeOut out vn

/-- `ramfs_create`. -/
def ramfsCreate (dir : Nat) (name : CName) (out : Bool) : Kern (Option Nat) :=
  ramfsMake .file .isdir dir name out

/-- `ramfs_mkdir`. -/
def ramfsMkdir (dir : Nat) (name : CName) (out : Bool) : Kern (Option Nat) :=
  ramfsMake .dir .exist dir name out

/-- `ramfs_read`: the return value and the bytes stored in `buf`. -/
def ramfsRead (vn len offset : Nat) : Kern (Int × List UInt8) := fun k =>
  let node := k.ramNode vn
  if node.type ≠ .file then (.err .isdir, k)
  else if node.size ≤ offset then (.ok (0, []), k)
  else
    let toCopy := min (node.size - offset) len
    (.ok (cInt toCopy, (List.range toCopy).map fun i => node.data (offset + i)), k)

/-- `ramfs_write`. -/
def ramfsWrite (vn : Nat) (buf : List UInt8) (offset : Nat) : Kern Int := fun k =>
  let node := k.ramNode vn
  if node.type ≠ .file then (.err .isdir, k)
  else if ramfsMaxFileSize ≤ offset then (.ok 0, k)
  else
    let toCopy :=
      if ramfsMaxFileSize < u64 (offset + buf.length) then ramfsMaxFileSize - offset
      else buf.length
    let data := overlay node.data offset toCopy fun i => buf.getD i 0
    let size := if node.size < u64 (offset + toCopy) then offset + toCopy else node.size
    (.ok (cInt toCopy), k.setRamNode (k.vnode vn).data { node with data := data, size := size })

/-- `ramfs_unlink`. -/
def ramfsUnlink (dir : Nat) (name : CName) : Kern Unit := do
  match ← ramfsFind dir name with
  | none => Prog.fail .noent
  | some (prev, child) => do
      let k ← Prog.get
      let node := k.ramNodes.slot child
      if node.type = .dir ∧ node.child ≠ none then Prog.fail .notempty
      else do
        match prev with
        | some p =>
            Prog.modify fun k =>
              k.setRamNode p { k.ramNodes.slot p with sibling := node.sibling }
        | none =>
            let d := (k.vnode dir).data
            Prog.modify fun k =>
              k.setRamNode d { k.ramNodes.slot d with child := node.sibling }
        Prog.modify fun k => { k with ramNodes := k.ramNodes.release child }

/-- `ramfs_truncate`. -/
def ramfsTruncate (vn size : Nat) : Kern Unit := fun k =>
  let node := k.ramNode vn
  if node.type ≠ .file then (.err .isdir, k)
  else
    let size := min size ramfsMaxFileSize
    let data :=
      if size < node.size then overlay node.data size (node.size - size) fun _ => 0
      else node.data
    (.ok (), k.setRamNode (k.vnode vn).data { node with data := data, size := size })

/-- `ramfs_stat`; the inode number is the address of the node. -/
def ramfsStat (vn : Nat) : Kern VfsStat := fun k =>
  let node := k.ramNode vn
  (.ok { stSize := node.size, stIno := (k.vnode vn).data, stNlink := 1
         stMode := if node.type = .dir then 0o40755 else 0o100644 }, k)

end OsAgentLab
