/-
Sizes of FAT32 files: what `sys_ftruncate` and `file_write` do with sizes and
offsets that 32 bits cannot hold.
-/
import OsAgentLab.Proc.FileBytes
import OsAgentLab.Fat32.OneFile

namespace OsAgentLab

variable {s s' : Sys} {fd f vn n d : Nat} {l m : List Nat} {hit : DirHit} {w buf : List UInt8}

/-- The clusters that `size` bytes need, as a 32-bit number. -/
def Vol.clusters32 (v : Vol) (size : Nat) : Nat :=
  (size + v.clusterBytes - 1) / v.clusterBytes % 4294967296

theorem clustersNeeded_eq_clusters32 {v : Vol} (g : Geometry v) {size : Nat}
    (hsize : size < 9223372036854775808 + 2147483648) :
    clustersNeeded v.fs size = v.clusters32 size := by
  have hcb := g.clusterBytes_lt
  rw [clustersNeeded, g.clusterSize_eq, u64_of_lt (by omega)]
  rfl

/-- The open file `f` of the descriptor `fd` is the FAT32 file with the entry `hit`
and the contents `w`, just looked up. -/
structure OpenFat32 (s : Sys) (fd f vn n d : Nat) (l m : List Nat) (hit : DirHit)
    (w : List UInt8) : Prop where
  fd : ∃ i, s.current = some i ∧ fd < nofile ∧ (s.procs i).ofile fd = some f
  vnode : (s.files.slot f).vn = some vn
  writable : (s.files.slot f).writable = true
  ops : (s.fs.vnode vn).ops = some .fat32
  node : s.fs.OpenOn vn n l hit
  file : s.fs.vol.FileAt d hit.entryIndex l m hit.raw w

/-- The size that `vfs_stat` reports for the vnode `vn`. -/
def Kernel.StatSize (k : Kernel) (vn size : Nat) : Prop :=
  ∃ st, vfsStat (some vn) k = (.ok st, k) ∧ st.stSize = size

/-- The file with the entry `hit` still has the contents `w`, and its size. -/
def FileKept (s : Sys) (vn d : Nat) (l : List Nat) (hit : DirHit) (w : List UInt8) : Prop :=
  s.fs.StatSize vn w.length ∧ ∃ m, s.fs.vol.FileAt d hit.entryIndex l m hit.raw w

/-- What `ftruncate` promises: the size that it is given, or an error and the old
file when FAT32 has no such size. -/
def FtruncateFits (s : Sys) (fd vn d : Nat) (l : List Nat) (hit : DirHit) (w : List UInt8)
    (length : Int) : Prop :=
  (∀ s', sysFtruncate fd length s = (.ok (), s') →
    ∃ size : Nat, size = length ∧ s'.fs.StatSize vn size) ∧
  (length < 0 ∨ 4294967296 ≤ length →
    ∃ e s', sysFtruncate fd length s = (.err e, s') ∧ FileKept s' vn d l hit w)

/-- What a write promises: its bytes below the end of the file, or an error and the
old file when FAT32 has no such size. -/
def WriteFits (s : Sys) (f vn d : Nat) (l : List Nat) (hit : DirHit) (w buf : List UInt8) : Prop :=
  (∀ (num : Nat) s', fileWrite f buf s = (.ok num, s') → 0 < num →
    ∃ m' raw' w', s'.fs.StatSize vn w'.length ∧
      s'.fs.vol.FileAt d hit.entryIndex l m' raw' w' ∧ (s.files.slot f).off + num ≤ w'.length ∧
      ∀ j, j < num → w'[(s.files.slot f).off + j]? = buf[j]?) ∧
  (buf ≠ [] → 4294967296 ≤ (s.files.slot f).off + buf.length →
    ∃ e s', fileWrite f buf s = (.err e, s') ∧ FileKept s' vn d l hit w)

section Calls

variable {k k' : Kernel} {size : Nat}

theorem Kernel.statSize_withFile (hops : (k.vnode vn).ops = some .fat32)
    (ho : k.OpenOn vn n l hit) (node : Fat32Node) (v : Vol) :
    (k.withFile n node v).StatSize vn node.size := by
  have hvnode : (k.withFile n node v).vnode vn = k.vnode vn := rfl
  have hnode : (k.withFile n node v).fatNode vn = node := by
    rw [Kernel.fatNode, hvnode, ho.data, Kernel.withFile]
    simp
  have hstat : ∃ st, fat32StatOp vn (k.withFile n node v) = (.ok st, k.withFile n node v) ∧
      st.stSize = ((k.withFile n node v).fatNode vn).size := ⟨_, rfl, rfl⟩
  rw [hnode] at hstat
  rw [Kernel.StatSize, vfsStat, vfsDispatch, Prog.get_bind, hvnode, hops]
  exact hstat

theorem Kernel.statSize_self (hops : (k.vnode vn).ops = some .fat32) (ho : k.OpenOn vn n l hit) :
    k.StatSize vn hit.raw.fileSize := by
  have hstat := Kernel.statSize_withFile hops ho (k.fatNodes.slot n) k.vol
  rw [Kernel.withFile_self, ho.node.size] at hstat
  exact hstat

theorem vfsTruncate_fat32 (hops : (k.vnode vn).ops = some .fat32) (size : Nat) :
    vfsTruncate (some vn) size k = fat32TruncateOp vn size k := by
  rw [vfsTruncate, vfsDispatch, Prog.get_bind, hops]
  rfl

theorem vfsWrite_fat32 (hops : (k.vnode vn).ops = some .fat32) (buf : List UInt8) (offset : Nat) :
    vfsWrite (some vn) buf offset k = fat32WriteOp vn buf offset k := by
  rw [vfsWrite, vfsDispatch, Prog.get_bind, hops]
  rfl

/-- `sys_ftruncate` hands every size that is not negative to the file system. -/
theorem sysFtruncate_eq (h : OpenFat32 s fd f vn n d l m hit w) (size : Nat) :
    sysFtruncate fd size s = fileTruncate f size s := by
  obtain ⟨i, hcur, hfd, hof⟩ := h.fd
  have hcurrent : procCurrent .badf s = (.ok i, s) := by rw [procCurrent, hcur]
  have hfile : ofileOf i fd s = (.ok f, s) := by
    rw [ofileOf, if_neg (Nat.not_le_of_lt hfd), hof]
  rw [sysFtruncate, Prog.bind_ok hcurrent, Prog.bind_ok hfile, if_neg (by omega), Int.toNat_natCast]

theorem sysFtruncate_negative (h : OpenFat32 s fd f vn n d l m hit w) {length : Int}
    (hlength : length < 0) : sysFtruncate fd length s = (.err .inval, s) := by
  obtain ⟨i, hcur, hfd, hof⟩ := h.fd
  have hcurrent : procCurrent .badf s = (.ok i, s) := by rw [procCurrent, hcur]
  have hfile : ofileOf i fd s = (.ok f, s) := by
    rw [ofileOf, if_neg (Nat.not_le_of_lt hfd), hof]
  rw [sysFtruncate, Prog.bind_ok hcurrent, Prog.bind_ok hfile, if_pos hlength, Prog.fail_apply]

theorem fileTruncate_run (h : OpenFat32 s fd f vn n d l m hit w) {r : Outcome Errno Unit}
    (hrun : fat32TruncateOp vn size s.fs = (r, k')) :
    onFs (vfsTruncate (s.files.slot f).vn size) s = (r, { s with fs := k' }) := by
  apply onFs_apply
  rw [h.vnode, vfsTruncate_fat32 h.ops]
  exact hrun

theorem fileTruncate_ok (h : OpenFat32 s fd f vn n d l m hit w)
    (hrun : fat32TruncateOp vn size s.fs = (.ok (), k')) :
    ∃ files, fileTruncate f size s = (.ok (), { s with fs := k', files := files }) := by
  rw [fileTruncate, Prog.get_bind]
  simp only [h.writable, Bool.true_eq_false, ↓reduceIte]
  rw [Prog.bind_ok (fileTruncate_run h hrun), Prog.get_bind]
  split
  · exact ⟨_, rfl⟩
  · exact ⟨_, rfl⟩

theorem fileTruncate_err (h : OpenFat32 s fd f vn n d l m hit w) {e : Errno}
    (hrun : fat32TruncateOp vn size s.fs = (.err e, k')) :
    fileTruncate f size s = (.err e, { s with fs := k' }) := by
  rw [fileTruncate, Prog.get_bind]
  simp only [h.writable, Bool.true_eq_false, ↓reduceIte]
  exact Prog.bind_err (fileTruncate_run h hrun) _

/-- `file_write` hands everything to the file system, and moves the offset. -/
theorem fileWrite_eq (h : OpenFat32 s fd f vn n d l m hit w) {num : Int}
    (hrun : fat32WriteOp vn buf (s.files.slot f).off s.fs = (.ok num, k')) :
    ∃ files, fileWrite f buf s = (.ok num, { s with fs := k', files := files }) := by
  have hvfs : onFs (vfsWrite (s.files.slot f).vn buf (s.files.slot f).off) s =
      (.ok num, { s with fs := k' }) := by
    apply onFs_apply
    rw [h.vnode, vfsWrite_fat32 h.ops]
    exact hrun
  rw [fileWrite, Prog.get_bind]
  simp only [h.writable, Bool.true_eq_false, ↓reduceIte]
  rw [Prog.bind_ok hvfs, advanceOff]
  split
  · exact ⟨_, rfl⟩
  · exact ⟨_, rfl⟩

theorem fileWrite_err (h : OpenFat32 s fd f vn n d l m hit w) {e : Errno}
    (hrun : fat32WriteOp vn buf (s.files.slot f).off s.fs = (.err e, k')) :
    fileWrite f buf s = (.err e, { s with fs := k' }) := by
  have hvfs : onFs (vfsWrite (s.files.slot f).vn buf (s.files.slot f).off) s =
      (.err e, { s with fs := k' }) := by
    apply onFs_apply
    rw [h.vnode, vfsWrite_fat32 h.ops]
    exact hrun
  rw [fileWrite, Prog.get_bind]
  simp only [h.writable, Bool.true_eq_false, ↓reduceIte]
  exact Prog.bind_err hvfs _

end Calls

section Truncate

variable {size : Nat}

/-- A call that fails and leaves the entry alone has kept the file. -/
theorem OpenFat32.kept (h : OpenFat32 s fd f vn n d l m hit w) {node : Fat32Node} {v' : Vol}
    {m' : List Nat} (hsize : node.size = hit.raw.fileSize)
    (hchange : FileChange s.fs.vol l hit m hit.raw.fileSize 0 [] v' hit.raw m') :
    FileKept { s with fs := s.fs.withFile n node v' } vn d l hit w := by
  constructor
  · have hstat := Kernel.statSize_withFile h.ops h.node node v'
    rw [hsize, h.file.size] at hstat
    exact hstat
  · have hfile := hchange.fileAt h.file
    rw [hchange.contents_eq h.file] at hfile
    exact ⟨m', hfile⟩

theorem OpenFat32.kept_self (h : OpenFat32 s fd f vn n d l m hit w) :
    FileKept s vn d l hit w := by
  have hkept := @OpenFat32.kept _ _ _ _ _ _ _ _ _ _ h _ _ _ h.node.node.size
    (FileChange.refl h.file)
  rw [Kernel.withFile_self] at hkept
  exact hkept

/-- A size below 4 GiB is the new size, when the call succeeds. -/
theorem ftruncateFits_of_lt (h : OpenFat32 s fd f vn n d l m hit w) (hsize : size < 4294967296) :
    FtruncateFits s fd vn d l hit w size := by
  refine ⟨?_, fun hlarge => by omega⟩
  intro s' hcall
  rw [sysFtruncate_eq h] at hcall
  obtain ⟨r, k', hrun, hdone⟩ := fat32TruncateOp_done h.file h.node hsize
  cases hdone with
  | full _ _ =>
      rw [fileTruncate_err h hrun] at hcall
      cases hcall
  | @done node v' raw' m' hchange hreflects =>
      obtain ⟨files, hok⟩ := fileTruncate_ok h hrun
      rw [hok] at hcall
      cases hcall
      refine ⟨size, rfl, ?_⟩
      have hstat := Kernel.statSize_withFile h.ops h.node node v'
      rwa [hreflects.size, hchange.fileSize] at hstat

/-- A size from 4 GiB on is refused exactly when its 32-bit cluster count is zero
or more than the volume has for the file. -/
theorem ftruncateFits_of_le (h : OpenFat32 s fd f vn n d l m hit w) (hle : 4294967296 ≤ size)
    (hlt : size < 9223372036854775808) :
    FtruncateFits s fd vn d l hit w size ↔ s.fs.vol.clusters32 size = 0 ∨
      m.length + s.fs.vol.freeCount < s.fs.vol.clusters32 size := by
  have g := h.file.geometry
  have hm := h.file.chain
  have hneeded : clustersNeeded s.fs.vol.fs size = s.fs.vol.clusters32 size :=
    clustersNeeded_eq_clusters32 g (by omega)
  obtain ⟨r, k', hrun, hends⟩ := fat32TruncateOp_spec g h.node.data h.node.type h.file.dir
    h.node.node.place h.file.slot (h.node.node.cluster ▸ hm) h.file.apart size
  -- an error is what the promise asks for, and a success breaks it
  have hrefused : ∀ {e s'}, fileTruncate f size s = (.err e, s') → FileKept s' vn d l hit w →
      FtruncateFits s fd vn d l hit w size := by
    intro e s' hcall hkept
    rw [← sysFtruncate_eq h] at hcall
    refine ⟨?_, fun _ => ⟨e, s', hcall, hkept⟩⟩
    intro s'' hok
    rw [hcall] at hok
    cases hok
  have hgranted : fat32TruncateOp vn size s.fs = (.ok (), k') →
      ¬ FtruncateFits s fd vn d l hit w size := by
    intro hok hfits
    obtain ⟨files, hcall⟩ := fileTruncate_ok h hok
    obtain ⟨e, s', herr, _⟩ := hfits.2 (Or.inr (by omega))
    rw [sysFtruncate_eq h, hcall] at herr
    cases herr
  cases hends with
  | same hsame =>
      have := hit.raw.fileSize_lt
      rw [h.node.node.size] at hsame
      omega
  | emptied hzero _ _ _ => omega
  | refused _ hcluster hnone =>
      rw [← h.node.node.cluster, hcluster] at hm
      have hempty := hm.nil_of_zero
      refine iff_of_true (hrefused (fileTruncate_err h hrun) h.kept_self) ?_
      rw [hempty, s.fs.vol.freeCount_eq_zero hnone]
      exact Nat.eq_zero_or_pos _
  | partly _ hgrown hkeep hfull hshort =>
      obtain ⟨m', hchange⟩ := h.file.kept_of_open h.node hgrown hkeep
      refine iff_of_true (hrefused (fileTruncate_err h hrun) (h.kept h.node.node.size hchange)) ?_
      have hfree := hgrown.freeCount_le hm hfull
      rw [List.length_append, hneeded] at hshort
      exact Or.inr (by omega)
  | wrapped _ hwrap =>
      rw [hneeded] at hwrap
      exact iff_of_true (hrefused (fileTruncate_err h hrun) h.kept_self) (Or.inl hwrap)
  | cut _ _ hne hgrown _ hlen _ _ _ _ _ _ _ =>
      refine iff_of_false (hgranted hrun) ?_
      have hext := hgrown.length_le
      rw [hneeded] at hne hlen
      rw [List.length_append] at hlen
      omega

end Truncate

section Write

/-- The write that a success has made. -/
theorem OpenFat32.wrote (h : OpenFat32 s fd f vn n d l m hit w) {offset : Nat} {node : Fat32Node}
    {v' : Vol} {raw' : RawDirent} {m' : List Nat} (hreflects : node.Reflects v' l hit.entryIndex raw')
    (hchange : FileChange s.fs.vol l hit m (max hit.raw.fileSize (offset + buf.length)) offset buf v'
      raw' m') :
    ∃ w', (s.fs.withFile n node v').StatSize vn w'.length ∧
      v'.FileAt d hit.entryIndex l m' raw' w' ∧ offset + buf.length ≤ w'.length ∧
      ∀ j, j < buf.length → w'[offset + j]? = buf[j]? := by
  have hfile := hchange.fileAt h.file
  have hstat := Kernel.statSize_withFile h.ops h.node node v'
  rw [hreflects.size, hfile.size] at hstat
  refine ⟨_, hstat, hfile, ?_, ?_⟩
  · rw [Vol.contents_length]
    exact Nat.le_max_right _ _
  · intro j hj
    exact hchange.contents_inside (Nat.le_max_right _ _) hj

/-- A write of nothing does nothing. -/
theorem writeFits_nil (h : OpenFat32 s fd f vn n d l m hit w) : WriteFits s f vn d l hit w [] := by
  refine ⟨?_, fun hne => absurd rfl hne⟩
  intro num s' hcall hnum
  have hrun : fat32WriteOp vn [] (s.files.slot f).off s.fs = (.ok 0, s.fs) := by
    rw [fat32WriteOp, Prog.get_bind]
    simp only [h.node.type, ne_eq, not_true_eq_false, ↓reduceIte]
    exact Prog.pure_apply _ _
  obtain ⟨files, hok⟩ := fileWrite_eq h hrun
  rw [hok] at hcall
  cases hcall
  cases hnum

/-- A write that ends below 4 GiB. -/
theorem writeFits_of_lt (h : OpenFat32 s fd f vn n d l m hit w) (hlen : buf.length < 2147483648)
    (hend : (s.files.slot f).off + buf.length < 4294967296) :
    WriteFits s f vn d l hit w buf := by
  by_cases hbuf : buf = []
  · rw [hbuf]
    exact writeFits_nil h
  refine ⟨?_, fun _ hlarge => by omega⟩
  intro num s' hcall hnum
  obtain ⟨r, k', hrun, hdone⟩ := fat32WriteOp_done h.file h.node hbuf hend
  cases hdone with
  | full _ _ =>
      rw [fileWrite_err h hrun] at hcall
      cases hcall
  | @done node v' raw' m' hchange hreflects =>
      rw [cInt_of_lt hlen] at hrun
      obtain ⟨files, hok⟩ := fileWrite_eq h hrun
      rw [hok] at hcall
      obtain ⟨hcount, rfl⟩ := Prod.mk.inj hcall
      have hnumber : buf.length = num := Int.ofNat.inj (Outcome.ok.inj hcount)
      obtain ⟨w', hstat, hfile, hle, hbytes⟩ := h.wrote hreflects hchange
      exact ⟨m', raw', w', hstat, hfile, hnumber ▸ hle, hnumber ▸ hbytes⟩

/-- A write that ends from 4 GiB on is refused exactly when its 32-bit cluster
count is more than the volume has for the file, or leaves its offset outside. -/
theorem writeFits_of_le (h : OpenFat32 s fd f vn n d l m hit w) (hbuf : buf ≠ [])
    (hlen : buf.length < 2147483648) (hoff : (s.files.slot f).off < 9223372036854775808)
    (hmark : fat32Eoc ≤ s.fs.vol.store.next 0)
    (hle : 4294967296 ≤ (s.files.slot f).off + buf.length) :
    WriteFits s f vn d l hit w buf ↔
      m.length + s.fs.vol.freeCount < s.fs.vol.clusters32 ((s.files.slot f).off + buf.length) ∨
      max m.length (s.fs.vol.clusters32 ((s.files.slot f).off + buf.length)) ≤
        (s.files.slot f).off / s.fs.vol.clusterBytes := by
  have g := h.file.geometry
  have hm := h.file.chain
  have hpos := List.length_pos_iff.mpr hbuf
  have hcb := g.clusterBytes_lt
  generalize hoffset : (s.files.slot f).off = offset at *
  have hneeded : clustersNeeded s.fs.vol.fs (u64 (offset + buf.length)) =
      s.fs.vol.clusters32 (offset + buf.length) := by
    rw [u64_of_lt (by omega)]
    exact clustersNeeded_eq_clusters32 g (by omega)
  generalize hcount : s.fs.vol.clusters32 (offset + buf.length) = needed at *
  -- an error is what the promise asks for, and a success breaks it
  have hrefused : ∀ {e s'}, fileWrite f buf s = (.err e, s') → FileKept s' vn d l hit w →
      WriteFits s f vn d l hit w buf := by
    intro e s' hcall hkept
    refine ⟨?_, fun _ _ => ⟨e, s', hcall, hkept⟩⟩
    intro num s'' hok
    rw [hcall] at hok
    cases hok
  have hgranted : ∀ {num k'}, fat32WriteOp vn buf offset s.fs = (.ok num, k') →
      ¬ WriteFits s f vn d l hit w buf := by
    intro num k' hok hfits
    obtain ⟨files, hcall⟩ := fileWrite_eq h (hoffset.symm ▸ hok)
    obtain ⟨e, s', herr, _⟩ := hfits.2 hbuf (hoffset.symm ▸ hle)
    rw [hcall] at herr
    cases herr
  by_cases hwrap : (s.fs.fatNodes.slot n).cluster = 0 ∧ needed = 0
  · obtain ⟨hcluster, rfl⟩ := hwrap
    have hrun := fat32WriteOp_wrapped g h.node hbuf hcluster hneeded hmark (by omega)
    rw [← h.node.node.cluster, hcluster] at hm
    refine iff_of_true (hrefused (fileWrite_err h (hoffset.symm ▸ hrun)) h.kept_self) (Or.inr ?_)
    rw [hm.nil_of_zero]
    exact Nat.zero_le _
  obtain ⟨r, k', hrun, hends⟩ := fat32WriteOp_spec g h.node.data h.node.type h.file.dir
    h.node.node.place h.file.slot (h.node.node.cluster ▸ hm) h.file.apart hbuf
    fun hcluster hzero => hwrap ⟨hcluster, hneeded.symm.trans hzero⟩
  rw [← hoffset] at hrun
  -- the chain is as long as it was, or exactly as long as the count asks
  have hlength : ∀ {ext : List Nat}, clustersNeeded s.fs.vol.fs (u64 (offset + buf.length)) ≤
      (m ++ ext).length → (ext ≠ [] → (m ++ ext).length =
        clustersNeeded s.fs.vol.fs (u64 (offset + buf.length))) →
      s.fs.vol.room (m ++ ext) = max m.length needed * s.fs.vol.clusterBytes := by
    intro ext hlong hexact
    rw [hneeded] at hlong hexact
    rw [Vol.room]
    congr 1
    by_cases hext : ext = []
    · rw [hext, List.append_nil] at hlong ⊢
      exact (Nat.max_eq_left hlong).symm
    · rw [hexact hext]
      have hsum := hexact hext
      rw [List.length_append] at hsum
      exact (Nat.max_eq_right (by omega)).symm
  have hroomy : ∀ {c ext v₁}, Grown s.fs.vol m ext c v₁ →
      clustersNeeded s.fs.vol.fs (u64 (offset + buf.length)) ≤ (m ++ ext).length →
      (ext ≠ [] → (m ++ ext).length =
        clustersNeeded s.fs.vol.fs (u64 (offset + buf.length))) →
      offset < s.fs.vol.room (m ++ ext) → ¬ (m.length + s.fs.vol.freeCount < needed ∨
        max m.length needed ≤ offset / s.fs.vol.clusterBytes) := by
    intro c ext v₁ hgrown hlong hexact hin
    rw [Nat.le_div_iff_mul_le g.clusterBytes_pos, ← hlength hlong hexact]
    have hext := hgrown.length_le
    rw [hneeded, List.length_append] at hlong
    omega
  cases hends with
  | refused hcluster hnone =>
      have hne : needed ≠ 0 := fun hzero => hwrap ⟨hcluster, hzero⟩
      rw [← h.node.node.cluster, hcluster] at hm
      refine iff_of_true (hrefused (fileWrite_err h hrun) h.kept_self) (Or.inl ?_)
      rw [hm.nil_of_zero, s.fs.vol.freeCount_eq_zero hnone]
      exact Nat.pos_of_ne_zero hne
  | partly hgrown hkeep hfull hshort =>
      obtain ⟨m', hchange⟩ := h.file.kept_of_open h.node hgrown hkeep
      have herr := fileWrite_err h hrun
      refine iff_of_true (hrefused herr (h.kept h.node.node.size hchange)) (Or.inl ?_)
      have hfree := hgrown.freeCount_le hm hfull
      rw [List.length_append, hneeded] at hshort
      omega
  | behind hgrown hkeep hlong hexact hbehind =>
      obtain ⟨m', hchange⟩ := h.file.kept_of_open h.node hgrown hkeep
      have herr := fileWrite_err h hrun
      refine iff_of_true (hrefused herr (h.kept h.node.node.size hchange)) (Or.inr ?_)
      rw [Nat.le_div_iff_mul_le g.clusterBytes_pos, ← hlength hlong hexact]
      exact hbehind
  | inside hgrown _ hlong hexact hin _ _ =>
      rw [hoffset] at hrun
      exact iff_of_false (hgranted hrun) (hroomy hgrown hlong hexact hin)
  | beyond hgrown _ hlong hexact hin _ _ _ =>
      rw [hoffset] at hrun
      exact iff_of_false (hgranted hrun) (hroomy hgrown hlong hexact hin)

end Write

section Seek

theorem cInt64_range (z : Int) : -9223372036854775808 ≤ Int.bmod z 18446744073709551616 ∧
    Int.bmod z 18446744073709551616 < 9223372036854775808 := by
  have hpos : 0 < (18446744073709551616 : Nat) := by decide
  constructor
  · exact Int.le_bmod hpos
  · exact Int.bmod_lt hpos

/-- `sys_lseek` stores an offset below 2^63, and nothing else. -/
theorem sysLseek_ok (h : OpenFat32 s fd f vn n d l m hit w) {offset next : Int} {whence : Nat}
    (hcall : sysLseek fd offset whence s = (.ok next, s')) :
    s' = { s with files := s.files.setSlot f { s.files.slot f with off := next.toNat } } ∧
      next.toNat < 9223372036854775808 := by
  obtain ⟨i, hcur, hfd, hof⟩ := h.fd
  have hcurrent : procCurrent .badf s = (.ok i, s) := by rw [procCurrent, hcur]
  have hfile : ofileOf i fd s = (.ok f, s) := by
    rw [ofileOf, if_neg (Nat.not_le_of_lt hfd), hof]
  rw [sysLseek, Prog.bind_ok hcurrent, Prog.bind_ok hfile] at hcall
  have hbase : (∃ base, seekBase f whence s = (.ok base, s)) ∨
      seekBase f whence s = (.err .inval, s) := by
    rw [seekBase, Prog.get_bind]
    split
    · exact Or.inl ⟨_, rfl⟩
    split
    · exact Or.inl ⟨_, rfl⟩
    split
    · obtain ⟨st, hstat, _⟩ := Kernel.statSize_self h.ops h.node
      have hvfs : onFs (vfsStat (s.files.slot f).vn) s = (.ok st, s) := by
        rw [h.vnode]
        exact onFs_apply hstat
      exact Or.inl ⟨_, Prog.bind_ok hvfs _⟩
    · exact Or.inr rfl
  rcases hbase with ⟨base, hbase⟩ | hbase
  · rw [Prog.bind_ok hbase] at hcall
    split at hcall
    · cases hcall
    · obtain ⟨hnext, hs'⟩ := Prod.mk.inj hcall
      obtain rfl := Outcome.ok.inj hnext
      refine ⟨hs'.symm, ?_⟩
      have hrange := (cInt64_range (base + offset)).2
      omega
  · rw [Prog.bind_err hbase] at hcall
    cases hcall

theorem OpenFat32.seek (h : OpenFat32 s fd f vn n d l m hit w) (off : Nat) :
    OpenFat32 { s with files := s.files.setSlot f { s.files.slot f with off := off } } fd f vn n d
      l m hit w where
  fd := h.fd
  vnode := by
    simp only [Pool.setSlot_slot, ↓reduceIte]
    exact h.vnode
  writable := by
    simp only [Pool.setSlot_slot, ↓reduceIte]
    exact h.writable
  ops := h.ops
  node := h.node
  file := h.file

end Seek

/-- Sizes of files, exactly: `sys_ftruncate` to a size, and a write behind a
`sys_lseek`, keep their promise unless the size is 4 GiB or more and its 32-bit
cluster count is one that the volume can serve. -/
theorem fileSizes_fit_iff (h : OpenFat32 s fd f vn n d l m hit w)
    (hmark : fat32Eoc ≤ s.fs.vol.store.next 0) :
    (∀ length : Int, length < 9223372036854775808 →
      (FtruncateFits s fd vn d l hit w length ↔
        length < 4294967296 ∨ s.fs.vol.clusters32 length.toNat = 0 ∨
          m.length + s.fs.vol.freeCount < s.fs.vol.clusters32 length.toNat)) ∧
    (∀ (offset next : Int) (whence : Nat) (s₁ : Sys) (buf : List UInt8),
      sysLseek fd offset whence s = (.ok next, s₁) → buf.length < 2147483648 →
      (WriteFits s₁ f vn d l hit w buf ↔
        buf = [] ∨ next.toNat + buf.length < 4294967296 ∨
          m.length + s.fs.vol.freeCount < s.fs.vol.clusters32 (next.toNat + buf.length) ∨
          max m.length (s.fs.vol.clusters32 (next.toNat + buf.length)) ≤
            next.toNat / s.fs.vol.clusterBytes)) := by
  constructor
  · intro length hlt
    rcases lt_or_ge length 0 with hneg | hpos
    · refine iff_of_true ⟨fun s' hcall => ?_, fun _ => ?_⟩ (Or.inl (by omega))
      · rw [sysFtruncate_negative h hneg] at hcall
        cases hcall
      · exact ⟨_, _, sysFtruncate_negative h hneg, h.kept_self⟩
    · obtain ⟨size, rfl⟩ := Int.eq_ofNat_of_zero_le hpos
      rw [Int.toNat_natCast]
      rcases Nat.lt_or_ge size 4294967296 with hsmall | hlarge
      · exact iff_of_true (ftruncateFits_of_lt h hsmall) (Or.inl (by omega))
      · have hnot : ¬ (size : Int) < 4294967296 := by omega
        rw [ftruncateFits_of_le h hlarge (by omega), or_iff_right hnot]
  · intro offset next whence s₁ buf hcall hlen
    obtain ⟨rfl, hoff⟩ := sysLseek_ok h hcall
    have h₁ := h.seek next.toNat
    have hslot : ((s.files.setSlot f { s.files.slot f with off := next.toNat }).slot f).off =
        next.toNat := by simp
    rcases Nat.lt_or_ge (next.toNat + buf.length) 4294967296 with hsmall | hlarge
    · refine iff_of_true (writeFits_of_lt h₁ hlen ?_) (Or.inr (Or.inl hsmall))
      rw [hslot]
      exact hsmall
    by_cases hbuf : buf = []
    · rw [hbuf]
      exact iff_of_true (writeFits_nil h₁) (Or.inl rfl)
    · have hfits := writeFits_of_le h₁ hbuf hlen (by rw [hslot]; exact hoff) hmark
        (by rw [hslot]; exact hlarge)
      rw [hslot] at hfits
      rw [hfits, or_iff_right hbuf, or_iff_right (Nat.not_lt_of_le hlarge)]

section Example

/-- A process with the empty file open on descriptor 3. -/
def emptyFileSys : Sys where
  fs := oneKernel (endTable 2) 0 0
  mm := ⟨fun _ => 0, 0, 4096⟩
  files := ⟨fun f => f == 0, fun _ => ⟨1, true, true, 0, some 1⟩⟩
  procs _ := { Proc.zero with
    state := .running
    ofile := fun fd => if fd = 3 then some 0 else none }
  current := some 0
  nextPid := 2
  image := ⟨0, 0⟩
  sstatus := 0

theorem emptyFileSys_open :
    OpenFat32 emptyFileSys 3 0 1 1 2 [2] [] (oneHit (oneRaw 0 0)) [] where
  fd := ⟨0, rfl, by decide, rfl⟩
  vnode := rfl
  writable := rfl
  ops := rfl
  node := oneVol_openOn (by decide) (by decide) (by decide)
  file := by
    refine oneVol_fileAt (by decide) (Or.inl ⟨by decide, rfl⟩) (by decide) (Nat.zero_le _) ?_
    decide

theorem emptyFileSys_mark : fat32Eoc ≤ emptyFileSys.fs.vol.store.next 0 := by
  have hnext := @oneVol_next 2 (oneRaw 0 0) (by decide) 0 (by decide)
  change fat32Eoc ≤ (oneVol (endTable 2) (oneRaw 0 0)).store.next 0
  rw [hnext]
  decide

/-- A new size of 5000 bytes is fine. -/
theorem fileSizes_fit : FtruncateFits emptyFileSys 3 1 2 [2] (oneHit (oneRaw 0 0)) [] 5000 :=
  ((fileSizes_fit_iff emptyFileSys_open emptyFileSys_mark).1 5000 (by decide)).mpr
    (Or.inl (by decide))

/-- A size of 2^41 + 5 bytes needs 2^32 + 1 clusters; the call allocates one of them and
reports success, with five bytes in the file. -/
theorem fileSizes_wrap : ¬ ∀ (s : Sys) (fd f vn n d : Nat) (l m : List Nat) (hit : DirHit)
    (w : List UInt8), OpenFat32 s fd f vn n d l m hit w → fat32Eoc ≤ s.fs.vol.store.next 0 →
    (∀ length : Int, length < 9223372036854775808 → FtruncateFits s fd vn d l hit w length) ∧
    (∀ (offset next : Int) (whence : Nat) (s₁ : Sys) (buf : List UInt8),
      sysLseek fd offset whence s = (.ok next, s₁) → buf.length < 2147483648 →
      WriteFits s₁ f vn d l hit w buf) := by
  intro hall
  have hfits := (hall _ _ _ _ _ _ _ _ _ _ emptyFileSys_open emptyFileSys_mark).1
    ((2199023255557 : Nat) : Int) (by decide)
  have hshape : SameShape (blankVol 1 1 8 (endTable 2)) emptyFileSys.fs.vol :=
    (oneVol_written (by decide) (oneRaw 0 0)).shape
  have hone : emptyFileSys.fs.vol.clusters32 2199023255557 = 1 := by
    rw [Vol.clusters32, hshape.clusterBytes]
    decide
  have hfree : emptyFileSys.fs.vol.Free 3 := by
    refine ⟨hshape.inData.mpr (by decide), ?_⟩
    exact (oneVol_next (by decide) (by decide)).trans (by decide)
  have hcount : 0 < emptyFileSys.fs.vol.freeCount :=
    List.length_pos_of_mem ((Vol.mem_freeList _ _).mpr hfree)
  have hcond := (ftruncateFits_of_le emptyFileSys_open (by decide) (by decide)).mp hfits
  rw [hone, List.length_nil] at hcond
  omega

end Example

end OsAgentLab
