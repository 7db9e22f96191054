/-
Listing a directory: `vfs_readdir` with the two file systems behind it, and
`sys_getdents64`, which packs the entries into records and copies them to the
user.  The bytes that go there are noted down in order.
-/
import OsAgentLab.Proc.Io

namespace OsAgentLab

section Readdir

/-- `struct vfs_dirent`. -/
structure VfsDirent where
  name : CName
  type : VnodeType
  ino : Nat
deriving DecidableEq, Repr

/-- The entry that `fat32_readdir_cb` fills in. -/
def DirHit.vfsDirent (hit : DirHit) : VfsDirent :=
  ⟨hit.name, if hit.raw.isDir then .dir else .file, hit.raw.cluster⟩

/-- The loop of `ramfs_readdir` from the child with the index `idx`; `none` means that
the links lead round in a circle. -/
def ramfsNth (k : Kernel) (offset : Nat) : Nat → Nat → Option Nat → Option (Option Nat)
  | _, _, none => some none
  | 0, _, some _ => none
  | fuel + 1, idx, some child =>
      if idx = offset then some (some child)
      else ramfsNth k offset fuel (idx + 1) (k.ramNodes.slot child).sibling

/-- `ramfs_readdir`; the inode number is the address of the node. -/
def ramfsReaddir (dir offset : Nat) : Kern VfsDirent := fun k =>
  match ramfsNth k offset ramfsMaxNodes 0 (k.ramNode dir).child with
  | none => (.diverges, k)
  | some none => (.err .noent, k)
  | some (some child) =>
      (.ok ⟨(k.ramNodes.slot child).name, (k.ramNodes.slot child).type, child⟩, k)

/-- `dir->ops->readdir(dir, offset, out)`. -/
def vnodeReaddir (ops : FsOps) (dir offset : Nat) : Kern VfsDirent :=
  match ops with
  | .fat32 => do
      let hit ← fat32ReaddirOp dir offset
      pure hit.vfsDirent
  | .ramfs => ramfsReaddir dir offset

/-- `vfs_readdir`. -/
def vfsReaddir (dir : Option Nat) (offset : Nat) : Kern VfsDirent :=
  match dir with
  | none => Prog.fail .inval
  | some dir => do
      let k ← Prog.get
      match (k.vnode dir).type, (k.vnode dir).ops with
      | .dir, some ops =>
          if offset = 0 then pure ⟨dotName, .dir, 0⟩
          else if offset = 1 then pure ⟨dotDotName, .dir, 0⟩
          else vnodeReaddir ops dir (offset - 2)
      | _, _ => Prog.fail .notdir

end Readdir

section Records

/-- `sizeof(struct linux_dirent64)`: the fields take 19 bytes, and the size is a
multiple of eight. -/
def linuxDirent64Size : Nat := 24

/-- The place of `d_name` in the record. -/
def dNameOffset : Nat := 19

/-- `sizeof(tmp)`. -/
def direntTmpSize : Nat := 256

/-- `reclen` for a name of `nameLen` characters: `reclen & 7` is the rest and `& ~7U`
rounds down, since a name has at most 255 characters. -/
def direntReclen (nameLen : Nat) : Nat :=
  let reclen := linuxDirent64Size + nameLen + 1
  if reclen % 8 ≠ 0 then (reclen + 7) / 8 * 8 else reclen

/-- The stores into the record `d`, which lies in `tmp`. -/
def fillDirent (ent : VfsDirent) (off : Nat) (tmp : Nat → UInt8) : Nat → UInt8 :=
  let tmp := overlay tmp 0 8 (byteOf ent.ino)
  let tmp := overlay tmp 8 8 (byteOf (off + 1))
  let tmp := overlay tmp 16 2 (byteOf (direntReclen ent.name.length))
  let tmp := overlay tmp 18 1 fun _ => if ent.type = .dir then 4 else 8
  overlay tmp dNameOffset (ent.name.length + 1) fun i => ent.name.getD i 0

end Records

section Sending

/-- Programs over the kernel state and the bytes that have been stored in user
memory so far. -/
abbrev SentM (α : Type) : Type := Prog (Sys × List UInt8) Errno α

/-- A call that stores nothing in user memory. -/
def notSent {α : Type} (m : SysM α) : SentM α := Prog.zoom Prod.fst (fun s t => (s, t.2)) m

/-- One pass of `copyout`, which notes down the bytes it has stored. -/
def sendPass (pt : Nat) (pos : Nat × List UInt8) : SentM (Option (Nat × List UInt8)) := do
  let next ← notSent (onMm (copyoutPass pt pos))
  let left := next.elim 0 fun next => next.2.length
  Prog.modify fun t => (t.1, t.2 ++ pos.2.take (pos.2.length - left))
  pure next

/-- `copyout` of the bytes `src`. -/
def sendout (pt dstva : Nat) (src : List UInt8) : SentM Unit := do
  let _ ← Prog.loop (sendPass pt) src.length (dstva, src)
  pure ()

end Sending

section Getdents

/-- One pass of the loop of `sys_getdents64`, with `written`, `off` and what the
memory of `tmp` holds. -/
def getdentsPass (i dirp count : Nat) (vn : Option Nat) (pos : Nat × Nat × (Nat → UInt8)) :
    SentM (Option (Nat × Nat × (Nat → UInt8))) :=
  let (written, off, tmp) := pos
  if u64 (written + linuxDirent64Size + 1) < count then do
    match ← Prog.attempt (notSent (onFs (vfsReaddir vn off))) with
    | .error _ => pure none
    | .ok ent => do
        let reclen := direntReclen ent.name.length
        if count < u64 (written + reclen) then pure none
        else if direntTmpSize < reclen then Prog.fail .inval
        else do
          let tmp := fillDirent ent off tmp
          let t ← Prog.get
          Prog.orElse (sendout (t.1.procs i).pagetable (u64 (dirp + written))
            ((List.range reclen).map tmp)) .fault
          pure (some (u64 (written + reclen), u64 (off + 1), tmp))
  else pure none

/-- `sys_getdents64`, where `tmp` is what the stack memory of `tmp` holds at first.  Each
pass but the last one takes 32 bytes of `count`. -/
def sysGetdents64 (tmp : Nat → UInt8) (fd dirp count : Nat) : SentM Int := do
  let i ← notSent (procCurrent .badf)
  let f ← notSent (ofileOf i fd)
  let t ← Prog.get
  match (t.1.files.slot f).vn with
  | none => Prog.fail .notdir
  | some vn =>
      if (t.1.fs.vnode vn).type ≠ .dir then Prog.fail .notdir
      else do
        let last ← Prog.loop (getdentsPass i dirp count (some vn)) count
          (0, (t.1.files.slot f).off, tmp)
        notSent (storeOff f last.2.1)
        pure (cInt last.1)

end Getdents

end OsAgentLab
