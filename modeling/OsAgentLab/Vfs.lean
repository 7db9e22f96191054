/-
Path resolution of `vfs.c`: mounts, the two resolvers, and the operations that
are built on them.  A pointer to a vnode is an `Option`; following a null
pointer is a fault.
-/
import OsAgentLab.Ramfs
import OsAgentLab.Fat32.Entry
import OsAgentLab.Fat32.File

namespace OsAgentLab

/-- `path_next`: the next component, cut to 255 characters, and the rest. -/
def pathNext (path : CName) : Option (CName × CName) :=
  match path.dropWhile (· = 47) with
  | [] => none
  | c :: rest =>
      some (((c :: rest).takeWhile (· ≠ 47)).take 255, (c :: rest).dropWhile (· ≠ 47))

/-- The components that repeated calls of `path_next` deliver; each takes at
least one character. -/
def pathComponentsLoop : Nat → CName → List CName
  | 0, _ => []
  | fuel + 1, path =>
      match pathNext path with
      | none => []
      | some (name, rest) => name :: pathComponentsLoop fuel rest

def pathComponents (path : CName) : List CName := pathComponentsLoop path.length path

/-- `vfs_is_root_vnode`. -/
def vfsIsRootVnode (k : Kernel) : Option Nat → Bool
  | none => false
  | some vn =>
      k.root == some vn || ((k.vnode vn).parent == some vn && (k.vnode vn).name == [])

/-- The loop of `vfs_follow_mount` over the mount table. -/
def vfsFollowMounts (k : Kernel) (vn : Nat) : List (Nat × Nat) → Nat
  | [] => vn
  | (mountpoint, root) :: rest =>
      if mountpoint = vn then root
      else if (k.vnode vn).type = .dir ∧ vfsIsRootVnode k (k.vnode vn).parent ∧
          nameEqNocase (k.vnode vn).name (k.vnode mountpoint).name then root
      else vfsFollowMounts k vn rest

/-- `vfs_follow_mount`. -/
def vfsFollowMount (k : Kernel) : Option Nat → Option Nat
  | none => none
  | some vn => some (vfsFollowMounts k vn k.mounts)

/-- `dir->ops->lookup(dir, name, &next)`. -/
def vnodeLookup (ops : FsOps) (dir : Nat) (name : CName) : Kern (Option Nat) :=
  match ops with
  | .fat32 => do
      let vn ← fat32LookupOp dir name
      pure (some vn)
  | .ramfs => ramfsLookup dir name

/-- `dir->ops->create(dir, name, out)`. -/
def vnodeCreate (ops : FsOps) (dir : Nat) (name : CName) (out : Bool) : Kern (Option Nat) :=
  match ops with
  | .fat32 => fat32CreateOp dir name out
  | .ramfs => ramfsCreate dir name out

/-- `dir->ops->mkdir(dir, name, out)`. -/
def vnodeMkdir (ops : FsOps) (dir : Nat) (name : CName) (out : Bool) : Kern (Option Nat) :=
  match ops with
  | .fat32 => fat32MkdirOp dir name out
  | .ramfs => ramfsMkdir dir name out

/-- `dir->ops->unlink(dir, name)`. -/
def vnodeUnlink (ops : FsOps) (dir : Nat) (name : CName) : Kern Unit :=
  match ops with
  | .fat32 => fat32UnlinkOp dir name
  | .ramfs => ramfsUnlink dir name

/-- A vnode whose fields are about to be read. -/
def deref (vn : Option Nat) : Kern Nat :=
  match vn with
  | some vn => pure vn
  | none => Prog.crash

/-- The vnode at which both resolvers start. -/
def vfsStart (cwd : Option Nat) (path : CName) : Kern (Option Nat) := fun k =>
  let start :=
    if path.head? = some 47 then k.root
    else match cwd with
      | some vn => some vn
      | none => k.cwd
  match start with
  | none => (.err .noent, k)
  | some vn => (.ok (vfsFollowMount k (some vn)), k)

/-- One component of a path in either resolver, other than the last one of
`vfs_resolve_parent_at`.  `parents` is `create_parents`, false in
`vfs_lookup_at`. -/
def vfsEnter (parents : Bool) (cur : Option Nat) (name : CName) : Kern (Option Nat) := do
  if name = dotName then pure cur
  else do
    let dir ← deref cur
    let k ← Prog.get
    if name = dotDotName then
      match (k.vnode dir).parent with
      | some p => pure (some p)
      | none => pure cur
    else
      match (k.vnode dir).type, (k.vnode dir).ops with
      | .dir, some ops => do
          match ← Prog.attempt (vnodeLookup ops dir name) with
          | .ok next => do
              let k ← Prog.get
              pure (vfsFollowMount k next)
          | .error e =>
              if e = .noent ∧ parents then do
                let next ← vnodeMkdir ops dir name true
                let k ← Prog.get
                pure (vfsFollowMount k next)
              else Prog.fail e
      | _, _ => Prog.fail .notdir

/-- The loop of `vfs_lookup_at`. -/
def vfsWalk (cur : Option Nat) : List CName → Kern (Option Nat)
  | [] => pure cur
  | name :: rest => do
      let next ← vfsEnter false cur name
      vfsWalk next rest

/-- `vfs_lookup_at`. -/
def vfsLookupAt (cwd : Option Nat) (path : CName) : Kern (Option Nat) := do
  let start ← vfsStart cwd path
  vfsWalk start (pathComponents path)

/-- The loop of `vfs_resolve_parent_at`: the parent and the last component. -/
def vfsWalkParent (parents : Bool) (cur : Option Nat) : List CName → Kern (Option Nat × CName)
  | [] => Prog.fail .inval
  | [last] => pure (cur, last)
  | name :: next :: rest => do
      let cur ← vfsEnter parents cur name
      vfsWalkParent parents cur (next :: rest)

/-- `vfs_resolve_parent_at`. -/
def vfsResolveParentAt (cwd : Option Nat) (path : CName) (parents : Bool) :
    Kern (Option Nat × CName) := do
  let start ← vfsStart cwd path
  vfsWalkParent parents start (pathComponents path)

/-- The tail that `vfs_create_at` and `vfs_mkdir_at` share once the lookup has
failed with `-ENOENT`. -/
def vfsMakeAt (make : FsOps → Nat → CName → Bool → Kern (Option Nat))
    (cwd : Option Nat) (path : CName) (out : Bool) : Kern (Option Nat) := do
  let (parent, name) ← vfsResolveParentAt cwd path true
  if name = [] then Prog.fail .inval
  else do
    let parent ← deref parent
    let k ← Prog.get
    match (k.vnode parent).ops with
    | none => Prog.fail .nosys
    | some ops => make ops parent name out

/-- `vfs_create_at`; the result is `*out` when `out` is not null. -/
def vfsCreateAt (cwd : Option Nat) (path : CName) (out : Bool) : Kern (Option Nat) := do
  match ← Prog.attempt (vfsLookupAt cwd path) with
  | .ok vn => do
      let vn ← deref vn
      let k ← Prog.get
      if (k.vnode vn).type = .dir then Prog.fail .isdir
      else pure (if out then some vn else none)
  | .error .noent => vfsMakeAt vnodeCreate cwd path out
  | .error e => Prog.fail e

/-- `vfs_mkdir_at`. -/
def vfsMkdirAt (cwd : Option Nat) (path : CName) (out : Bool) : Kern (Option Nat) := do
  match ← Prog.attempt (vfsLookupAt cwd path) with
  | .ok vn => do
      let vn ← deref vn
      let k ← Prog.get
      if (k.vnode vn).type = .dir then pure (if out then some vn else none)
      else Prog.fail .exist
  | .error .noent => vfsMakeAt vnodeMkdir cwd path out
  | .error e => Prog.fail e

/-- `vfs_unlink_at`. -/
def vfsUnlinkAt (cwd : Option Nat) (path : CName) : Kern Unit := do
  let (parent, name) ← vfsResolveParentAt cwd path false
  if name = [] then Prog.fail .inval
  else do
    let parent ← deref parent
    let k ← Prog.get
    match (k.vnode parent).ops with
    | none => Prog.fail .nosys
    | some ops => vnodeUnlink ops parent name

/-- `vn->ops->read(vn, buf, len, offset)`. -/
def vnodeRead (ops : FsOps) (vn len offset : Nat) : Kern (Int × List UInt8) :=
  match ops with
  | .fat32 => fat32ReadOp vn len offset
  | .ramfs => ramfsRead vn len offset

/-- `vn->ops->write(vn, buf, len, offset)`. -/
def vnodeWrite (ops : FsOps) (vn : Nat) (buf : List UInt8) (offset : Nat) : Kern Int :=
  match ops with
  | .fat32 => fat32WriteOp vn buf offset
  | .ramfs => ramfsWrite vn buf offset

/-- `vn->ops->truncate(vn, size)`. -/
def vnodeTruncate (ops : FsOps) (vn size : Nat) : Kern Unit :=
  match ops with
  | .fat32 => fat32TruncateOp vn size
  | .ramfs => ramfsTruncate vn size

/-- `vn->ops->stat(vn, st)`. -/
def vnodeStat (ops : FsOps) (vn : Nat) : Kern VfsStat :=
  match ops with
  | .fat32 => fat32StatOp vn
  | .ramfs => ramfsStat vn

/-- The dispatch that `vfs_read`, `vfs_write`, `vfs_truncate` and `vfs_stat` share; a null
pointer is an invalid argument here. -/
def vfsDispatch {α : Type} (op : FsOps → Nat → Kern α) : Option Nat → Kern α
  | none => Prog.fail .inval
  | some vn => do
      let k ← Prog.get
      match (k.vnode vn).ops with
      | none => Prog.fail .nosys
      | some ops => op ops vn

/-- `vfs_read`: the return value and the bytes stored in `buf`. -/
def vfsRead (vn : Option Nat) (len offset : Nat) : Kern (Int × List UInt8) :=
  vfsDispatch (fun ops vn => vnodeRead ops vn len offset) vn

/-- `vfs_write` of a buffer that is not null. -/
def vfsWrite (vn : Option Nat) (buf : List UInt8) (offset : Nat) : Kern Int :=
  vfsDispatch (fun ops vn => vnodeWrite ops vn buf offset) vn

/-- `vfs_truncate`. -/
def vfsTruncate (vn : Option Nat) (size : Nat) : Kern Unit :=
  vfsDispatch (fun ops vn => vnodeTruncate ops vn size) vn

/-- `vfs_stat`. -/
def vfsStat (vn : Option Nat) : Kern VfsStat := vfsDispatch vnodeStat vn

end OsAgentLab
