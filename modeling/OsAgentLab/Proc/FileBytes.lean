/-
Files of either tree as byte strings, and what a write at the end of the
string does to the file and to the other opens of it.
-/
import OsAgentLab.Fat32.FileBytes
import OsAgentLab.Proc.FileFrame
import OsAgentLab.Proc.Io
import OsAgentLab.Vm.UserBytes

namespace OsAgentLab

/-- A regular file: a ramfs node, or slot `i` of the FAT32 directory at `d`. -/
inductive FileRef where
  | ramfs (n : Nat)
  | fat32 (d i : Nat)
deriving DecidableEq, Repr

/-- The sizes that the file system of a file can record. -/
def FileRef.Fits : FileRef → Nat → Prop
  | .ramfs _, _ => True
  | .fat32 _ _, size => size < 4294967296

namespace Kernel

variable (k : Kernel)

/-- The file has the contents `w`. -/
def Contents : FileRef → List UInt8 → Prop
  | .ramfs n, w =>
      (k.ramNodes.slot n).type = .file ∧
        w = (List.range (k.ramNodes.slot n).size).map (k.ramNodes.slot n).data
  | .fat32 d i, w => ∃ l m raw, k.vol.FileAt d i l m raw w

/-- The vnode stands for the file. -/
def Stands (vn : Nat) : FileRef → Prop
  | .ramfs n => (k.vnode vn).ops = some .ramfs ∧ (k.vnode vn).data = n
  | .fat32 d i =>
      (k.vnode vn).ops = some .fat32 ∧ (k.vnode vn).type = .file ∧
        ∃ l, k.vol.Chain d l ∧ (k.fatNode vn).At k.vol l i

/-- The node of the vnode has the start cluster and the size of the file; a ramfs
node is the file itself. -/
def InSync (vn : Nat) : FileRef → Prop
  | .ramfs _ => True
  | .fat32 d i => ∃ l raw, k.vol.Chain d l ∧ (k.vol.raws l)[i]? = some raw ∧
      (k.fatNode vn).cluster = raw.cluster ∧ (k.fatNode vn).size = raw.fileSize

end Kernel

/-- From `k` to `k'` the vnodes have stayed what they are. -/
structure SameVnodes (file : FileRef) (k k' : Kernel) : Prop where
  vnodes : k'.vnodes = k.vnodes
  used : k'.fatNodes.used = k.fatNodes.used
  stands : ∀ vn, k.Stands vn file → k'.Stands vn file

variable {k k' : Kernel} {file : FileRef} {vn : Nat} {w buf : List UInt8}

theorem Kernel.Contents.unique {w' : List UInt8} (h : k.Contents file w)
    (h' : k.Contents file w') : w = w' := by
  cases file with
  | ramfs n => rw [h.2, h'.2]
  | fat32 d i =>
      obtain ⟨l, m, raw, hfile⟩ := h
      obtain ⟨l', m', raw', hfile'⟩ := h'
      exact hfile.unique hfile'

section Write

/-- How a write at the end of a file with the contents `w` ends: with an error,
with a short count, or with the data appended. -/
inductive AppendEnds (file : FileRef) (k : Kernel) (vn : Nat) (w buf : List UInt8) :
    Outcome Errno Int → Kernel → Prop
  | failed (e : Errno) (k' : Kernel) : AppendEnds file k vn w buf (.err e) k'
  | short (n : Nat) (k' : Kernel) : n < buf.length → AppendEnds file k vn w buf (.ok n) k'
  | appended (k' : Kernel) : w.length + buf.length < 4294967296 →
      k'.Contents file (w ++ buf) → k'.InSync vn file → SameVnodes file k k' →
      AppendEnds file k vn w buf (.ok buf.length) k'

/-- `ramfs_write` at the end of the file. -/
theorem ramfsWrite_append {n : Nat} (h : k.Contents (.ramfs n) w) (hs : k.Stands vn (.ramfs n))
    (hbuf : buf ≠ []) (hlen : buf.length ≤ 256) :
    ∃ r k', ramfsWrite vn buf w.length k = (r, k') ∧ AppendEnds (.ramfs n) k vn w buf r k' := by
  obtain ⟨htype, hbytes⟩ := h
  obtain ⟨hops, hdata⟩ := hs
  have hnode : k.ramNode vn = k.ramNodes.slot n := by rw [Kernel.ramNode, hdata]
  have hsize : (k.ramNodes.slot n).size = w.length := by
    rw [hbytes, List.length_map, List.length_range]
  rw [ramfsWrite]
  simp only [hnode, htype, ne_eq, not_true_eq_false, ↓reduceIte, hdata, hsize]
  by_cases hfull : ramfsMaxFileSize ≤ w.length
  · rw [if_pos hfull]
    exact ⟨_, _, rfl, .short 0 k (List.length_pos_iff.mpr hbuf)⟩
  rw [if_neg hfull]
  have hmax : ramfsMaxFileSize = 4096 := rfl
  rw [hmax] at hfull ⊢
  rw [u64_of_lt (by omega)]
  by_cases hover : 4096 < w.length + buf.length
  · rw [if_pos hover, cInt_of_lt (by omega)]
    exact ⟨_, _, rfl, .short _ _ (by omega)⟩
  · rw [if_neg hover, cInt_of_lt (by omega), u64_of_lt (by omega)]
    refine ⟨_, _, rfl, .appended _ (by omega) ?_ trivial ⟨rfl, rfl, fun _ h => h⟩⟩
    have hnew : (if w.length < w.length + buf.length then w.length + buf.length else w.length) =
        w.length + buf.length := by
      by_cases hlt : w.length < w.length + buf.length
      · rw [if_pos hlt]
      · rw [if_neg hlt]
        omega
    refine ⟨?_, ?_⟩
    · simp only [Kernel.setRamNode, Pool.setSlot_slot, if_true]
    · simp only [Kernel.setRamNode, Pool.setSlot_slot, if_true]
      rw [hnew, map_range_add]
      congr 1
      · conv_lhs => rw [hbytes, hsize]
        refine List.map_congr_left fun j hj => ?_
        rw [List.mem_range] at hj
        rw [overlay_of_not_mem (by omega)]
      · refine List.ext_getElem (by rw [List.length_map, List.length_range]) fun j hj _ => ?_
        rw [List.getElem_map, List.getElem_range, overlay_of_mem (by omega),
          Nat.add_sub_cancel_left, List.getD_eq_getElem _ _ hj]

/-- `fat32_write_op` at the end of the file. -/
theorem fat32WriteOp_ends {d i : Nat} (h : k.Contents (.fat32 d i) w)
    (hs : k.Stands vn (.fat32 d i)) (hsync : k.InSync vn (.fat32 d i)) (hbuf : buf ≠ [])
    (hlen : buf.length ≤ 256) (hfits : w.length + buf.length < 4294967296) :
    ∃ r k', fat32WriteOp vn buf w.length k = (r, k') ∧
      AppendEnds (.fat32 d i) k vn w buf r k' := by
  obtain ⟨l, m, raw, hfile⟩ := h
  obtain ⟨hops, htype, l', hl', hat⟩ := hs
  obtain ⟨l'', raw'', hl'', hraw'', hcluster, hsize⟩ := hsync
  obtain rfl := hfile.geometry.chain_unique hfile.dir hl'
  obtain rfl := hfile.geometry.chain_unique hfile.dir hl''
  rw [hfile.slot] at hraw''
  obtain rfl := Option.some.inj hraw''
  rcases fat32WriteOp_append hfile rfl htype ⟨hat, hcluster, hsize⟩ hbuf hfits with
    ⟨k', hrun⟩ | ⟨c, m', v', hrun, hfile', hreflects⟩
  · exact ⟨_, _, hrun, .failed _ _⟩
  · rw [cInt_of_lt (by omega)] at hrun
    refine ⟨_, _, hrun, .appended _ hfits ⟨l, m', _, hfile'⟩ ?_ ⟨rfl, rfl, ?_⟩⟩
    · refine ⟨l, _, hfile'.dir, hfile'.slot, ?_, ?_⟩
      · simpa [Kernel.withFile, Kernel.fatNode, Kernel.vnode] using hreflects.cluster
      · simpa [Kernel.withFile, Kernel.fatNode, Kernel.vnode] using hreflects.size
    · rintro vn' ⟨hops', htype', l', hl', hat'⟩
      obtain rfl := hfile.geometry.chain_unique hfile.dir hl'
      refine ⟨hops', htype', l, hfile'.dir, ?_⟩
      have hlba := hreflects.place.1
      have hoff := hreflects.place.2
      simp only [Fat32Node.At] at hat hat' ⊢
      simp only [Kernel.withFile, Kernel.fatNode, Kernel.vnode, Pool.setSlot_slot] at hat hat' hlba hoff ⊢
      by_cases hsame : (k.vnodes.slot vn').data = (k.vnodes.slot vn).data
      · rw [if_pos hsame]
        exact ⟨hlba, hoff⟩
      · rw [if_neg hsame, ← hlba, ← hoff, hat.1, hat.2]
        exact hat'

/-- `vfs_write` at the end of the file. -/
theorem vfsWrite_append (h : k.Contents file w) (hs : k.Stands vn file)
    (hsync : k.InSync vn file) (hbuf : buf ≠ []) (hlen : buf.length ≤ 256)
    (hfits : file.Fits (w.length + buf.length)) :
    ∃ r k', vfsWrite (some vn) buf w.length k = (r, k') ∧ AppendEnds file k vn w buf r k' := by
  cases file with
  | ramfs n =>
      rw [vfsWrite, vfsDispatch, Prog.get_bind, hs.1]
      exact ramfsWrite_append h hs hbuf hlen
  | fat32 d i =>
      rw [vfsWrite, vfsDispatch, Prog.get_bind, hs.1]
      exact fat32WriteOp_ends h hs hsync hbuf hlen hfits

end Write

variable {s s' s'' : Sys} {f i : Nat}

section Open

/-- The open file `f` stands at the end of the contents `w`, with a node that
knows where the file ends. -/
structure OpenAtEnd (s : Sys) (f vn : Nat) (file : FileRef) (w : List UInt8) : Prop where
  contents : s.fs.Contents file w
  vnode : (s.files.slot f).vn = some vn
  off : (s.files.slot f).off = w.length
  stands : s.fs.Stands vn file
  sync : s.fs.InSync vn file

/-- Through the open file `f` the bytes `data` have been appended to `w`. -/
structure DataAppended (s s' : Sys) (f vn : Nat) (file : FileRef) (w data : List UInt8) : Prop where
  state : s' = { s with
    fs := s'.fs
    files := s.files.setSlot f { s.files.slot f with off := w.length + data.length } }
  contents : s'.fs.Contents file (w ++ data)
  sync : s'.fs.InSync vn file
  same : SameVnodes file s.fs s'.fs

theorem DataAppended.nothing (h : OpenAtEnd s f vn file w) : DataAppended s s f vn file w [] where
  state := by
    rw [List.length_nil, Nat.add_zero, ← h.off]
    change s = { s with files := s.files.setSlot f (s.files.slot f) }
    rw [Pool.setSlot_self]
  contents := by
    rw [List.append_nil]
    exact h.contents
  sync := h.sync
  same := ⟨rfl, rfl, fun _ => id⟩

theorem DataAppended.slot {data : List UInt8} (h : DataAppended s s' f vn file w data) :
    s'.files.slot f = { s.files.slot f with off := w.length + data.length } := by
  rw [h.state]
  simp

theorem DataAppended.openAtEnd {data : List UInt8} (h : DataAppended s s' f vn file w data)
    (hopen : OpenAtEnd s f vn file w) : OpenAtEnd s' f vn file (w ++ data) where
  contents := h.contents
  vnode := by rw [h.slot, hopen.vnode]
  off := by rw [h.slot, List.length_append]
  stands := h.same.stands vn hopen.stands
  sync := h.sync

theorem DataAppended.trans {data data' : List UInt8} (h : DataAppended s s' f vn file w data)
    (h' : DataAppended s' s'' f vn file (w ++ data) data') :
    DataAppended s s'' f vn file w (data ++ data') where
  state := by
    rw [h'.state, h.slot, h.state, Pool.setSlot_setSlot, List.length_append, List.length_append,
      Nat.add_assoc]
  contents := by
    rw [← List.append_assoc]
    exact h'.contents
  sync := h'.sync
  same := ⟨h'.same.vnodes.trans h.same.vnodes, h'.same.used.trans h.same.used,
    fun vn hs => h'.same.stands vn (h.same.stands vn hs)⟩

theorem onFs_apply {α : Type} {m : Kern α} {r : Outcome Errno α} (hrun : m s.fs = (r, k')) :
    onFs m s = (r, { s with fs := k' }) := Prog.zoom_apply hrun

theorem advanceOff_eq (f n : Nat) (s : Sys) (hn : 0 < n) :
    advanceOff f n s = storeOff f (u64 ((s.files.slot f).off + n)) s := by
  rw [advanceOff, if_pos (by omega), Prog.get_bind, Int.toNat_natCast]

/-- `file_write` at the end of the file. -/
theorem fileWrite_append (h : OpenAtEnd s f vn file w) (hbuf : buf ≠ []) (hlen : buf.length ≤ 256)
    (hfits : file.Fits (w.length + buf.length)) {n : Int} (hrun : fileWrite f buf s = (.ok n, s')) :
    (0 ≤ n ∧ n < buf.length) ∨ (n = buf.length ∧ DataAppended s s' f vn file w buf) := by
  have hpos := List.length_pos_iff.mpr hbuf
  rw [fileWrite, Prog.get_bind] at hrun
  by_cases hwritable : (s.files.slot f).writable = false
  · rw [if_pos hwritable] at hrun
    cases hrun
  rw [if_neg hwritable, h.vnode, h.off] at hrun
  obtain ⟨r, k', hwrite, hends⟩ := vfsWrite_append h.contents h.stands h.sync hbuf hlen hfits
  obtain ⟨n', s₁, hfs, hrest⟩ := Prog.of_bind_ok hrun
  rw [onFs_apply hwrite] at hfs
  obtain ⟨hr, hs₁⟩ := Prod.mk.inj hfs
  subst hr hs₁
  obtain ⟨_, s₂, hadvance, hpure⟩ := Prog.of_bind_ok hrest
  obtain ⟨hn, hs₂⟩ := Prod.mk.inj hpure
  obtain rfl : n' = n := Outcome.ok.inj hn
  subst hs₂
  generalize hend : Outcome.ok n' = r at hends
  cases hends with
  | failed e k' => cases hend
  | short n k' hshort =>
      obtain rfl := Outcome.ok.inj hend
      exact Or.inl ⟨by omega, by omega⟩
  | appended k' hlt hcontents hsync hsame =>
      obtain rfl := Outcome.ok.inj hend
      have hoff : u64 ((s.files.slot f).off + buf.length) = w.length + buf.length := by
        rw [h.off]
        exact u64_of_lt (by omega)
      rw [advanceOff_eq f _ _ hpos] at hadvance
      obtain ⟨_, hs₂⟩ := Prod.mk.inj hadvance
      subst hs₂
      refine Or.inr ⟨rfl, ?_, hcontents, hsync, hsame⟩
      rw [hoff]

end Open

section Chunks

variable {addr : Nat}

theorem addInt_of_lt {a b : Int} (hle : 0 ≤ a + b) (hlt : a + b < 2147483648) :
    addInt a b = a + b := by
  unfold addInt
  exact Int.bmod_eq_of_le (by omega) (by omega)

/-- A pass of the loop of `sys_write` that comes back. -/
theorem writeChunk_ok {left off : Nat} {total : Int} (hleft : left ≠ 0)
    {next : Option (Nat × Nat × Int)}
    (hrun : writeChunk i f addr (left, off, total) s = (.ok next, s')) :
    ∃ tmp n, userBytes s.mm (s.procs i).pagetable (u64 (addr + off)) (min left 256) = some tmp ∧
      fileWrite f tmp s = (.ok n, s') ∧
      next = some (if n < min left 256 then (0, off, addInt total n)
        else (left - min left 256, u64 (off + min left 256), addInt total n)) := by
  simp only [writeChunk] at hrun
  rw [if_neg hleft, Prog.get_bind] at hrun
  obtain ⟨tmp, s₁, hcopy, hrest⟩ := Prog.of_bind_ok hrun
  have hva : u64 (addr + off) < 18446744073709551616 := Nat.mod_lt _ (by decide)
  have hcopyin := copyin_eq s.mm (s.procs i).pagetable (min left 256) hva
  have hmm : onMm (copyin (s.procs i).pagetable (u64 (addr + off)) (min left 256)) s = _ :=
    Prog.zoom_apply hcopyin
  rw [Prog.of_orElse_ok hcopy] at hmm
  cases hbytes : userBytes s.mm (s.procs i).pagetable (u64 (addr + off)) (min left 256) with
  | none =>
      rw [hbytes] at hmm
      cases hmm
  | some d =>
      rw [hbytes] at hmm
      obtain ⟨htmp, hs₁⟩ := Prod.mk.inj hmm
      obtain rfl : tmp = d := Outcome.ok.inj htmp
      obtain rfl : s₁ = s := hs₁
      obtain ⟨n, s₂, hwrite, hnext⟩ := Prog.of_bind_ok hrest
      by_cases hshort : n < (min left 256 : Nat)
      · rw [if_pos hshort] at hnext
        obtain ⟨hn, hs₂⟩ := Prod.mk.inj hnext
        subst hs₂
        refine ⟨tmp, n, rfl, hwrite, ?_⟩
        rw [if_pos hshort]
        exact (Outcome.ok.inj hn).symm
      · rw [if_neg hshort] at hnext
        obtain ⟨hn, hs₂⟩ := Prod.mk.inj hnext
        subst hs₂
        refine ⟨tmp, n, rfl, hwrite, ?_⟩
        rw [if_neg hshort]
        exact (Outcome.ok.inj hn).symm

/-- The end of the loop of `sys_write` behind a short transfer. -/
theorem writeLoop_zero (fuel off : Nat) (total : Int) (s : Sys) :
    Prog.loop (writeChunk i f addr) fuel (0, off, total) s = (.ok (0, off, total), s) := by
  cases fuel with
  | zero => rfl
  | succ fuel => rfl

/-- A loop of `sys_write` that starts at the end of the file and returns what was
asked for has appended all of it. -/
theorem writeLoop_append (fuel : Nat) {left off : Nat} {total : Int} {last : Nat × Nat × Int}
    (h : OpenAtEnd s f vn file w) (hfuel : left ≤ fuel) (htotal : 0 ≤ total)
    (hlen : total + left < 2147483648) (hfits : file.Fits (w.length + left))
    (hrun : Prog.loop (writeChunk i f addr) fuel (left, off, total) s = (.ok last, s'))
    (hlast : last.2.2 = total + left) :
    ∃ data, userBytes s.mm (s.procs i).pagetable (u64 (addr + off)) left = some data ∧
      DataAppended s s' f vn file w data := by
  induction fuel generalizing left off total s w with
  | zero =>
      obtain rfl : left = 0 := by omega
      cases hrun
      exact ⟨[], rfl, .nothing h⟩
  | succ fuel ih =>
      by_cases hleft : left = 0
      · subst hleft
        rw [writeLoop_zero] at hrun
        cases hrun
        exact ⟨[], rfl, .nothing h⟩
      rw [Prog.loop] at hrun
      obtain ⟨next, s₁, hpass, hrest⟩ := Prog.of_bind_ok hrun
      obtain ⟨tmp, n, htmp, hwrite, rfl⟩ := writeChunk_ok hleft hpass
      have hcount := userBytes_length htmp
      have hne : tmp ≠ [] := by
        rw [← List.length_pos_iff]
        omega
      have hfits' : file.Fits (w.length + tmp.length) := by
        cases file with
        | ramfs n => trivial
        | fat32 d i =>
            simp only [FileRef.Fits] at hfits ⊢
            omega
      rw [Option.elim_some] at hrest
      rcases fileWrite_append h hne (by omega) hfits' hwrite with ⟨hn, hshort⟩ | ⟨hn, happ⟩
      · rw [if_pos (by omega), writeLoop_zero, addInt_of_lt (by omega) (by omega)] at hrest
        cases hrest
        have hsum : total + n = total + left := hlast
        omega
      · rw [if_neg (by omega), addInt_of_lt (by omega) (by omega)] at hrest
        have hlen' : (w ++ tmp).length + (left - min left 256) = w.length + left := by
          rw [List.length_append]
          omega
        obtain ⟨data, hdata, happ'⟩ := ih (happ.openAtEnd h) (by omega) (by omega) (by omega)
          (hlen'.symm ▸ hfits) hrest (by omega)
        refine ⟨tmp ++ data, ?_, happ.trans happ'⟩
        have hnext : u64 (u64 (addr + off) + min left 256) =
            u64 (addr + u64 (off + min left 256)) := by
          simp only [u64]
          omega
        have hva : u64 (addr + off) < 18446744073709551616 := Nat.mod_lt _ (by decide)
        have hsplit :=
          @userBytes_add s.mm (s.procs i).pagetable _ (min left 256) (left - min left 256) hva
        rw [happ.state] at hdata
        rw [Nat.add_sub_cancel' (Nat.min_le_left _ _), htmp, Option.bind_some, hnext,
          hdata] at hsplit
        exact hsplit

/-- `sys_write` never reports more than an `int` can hold. -/
theorem writeLoop_lt (fuel : Nat) (pos : Nat × Nat × Int) (hpos : pos.2.2 < 2147483648)
    {last : Nat × Nat × Int} (hrun : Prog.loop (writeChunk i f addr) fuel pos s = (.ok last, s')) :
    last.2.2 < 2147483648 := by
  induction fuel generalizing pos s with
  | zero =>
      cases hrun
      exact hpos
  | succ fuel ih =>
      obtain ⟨left, off, total⟩ := pos
      by_cases hleft : left = 0
      · subst hleft
        rw [writeLoop_zero] at hrun
        cases hrun
        exact hpos
      rw [Prog.loop] at hrun
      obtain ⟨next, s₁, hpass, hrest⟩ := Prog.of_bind_ok hrun
      obtain ⟨tmp, n, _, _, rfl⟩ := writeChunk_ok hleft hpass
      have hsum : addInt total n < 2147483648 := Int.bmod_lt (by decide)
      rw [Option.elim_some] at hrest
      by_cases hshort : n < (min left 256 : Nat)
      · rw [if_pos hshort] at hrest
        exact ih _ hsum hrest
      · rw [if_neg hshort] at hrest
        exact ih _ hsum hrest

/-- A `sys_write` that starts at the end of the file and returns its length has
appended its data. -/
theorem sysWriteFile_append {len : Nat} (h : OpenAtEnd s f vn file w)
    (hfits : file.Fits (w.length + len)) (hrun : sysWriteFile i f addr len s = (.ok len, s')) :
    ∃ data, userBytes s.mm (s.procs i).pagetable (u64 addr) len = some data ∧
      DataAppended s s' f vn file w data := by
  obtain ⟨last, s₁, hloop, hpure⟩ := Prog.of_bind_ok hrun
  obtain ⟨hlast, hs₁⟩ := Prod.mk.inj hpure
  subst hs₁
  have htotal : last.2.2 = len := Outcome.ok.inj hlast
  have hlt := writeLoop_lt len (len, 0, 0) (show (0 : Int) < 2147483648 by decide) hloop
  have happ := writeLoop_append len h (Nat.le_refl len) (Int.le_refl 0) (by omega) hfits hloop
    (by omega)
  exact happ

/-- `sys_write` to an open file leaves the terminal alone. -/
theorem sysWrite_open {tty : Tty} {fd addr len : Nat} (hcur : s.current = some i) (hfd : fd < nofile)
    (hof : (s.procs i).ofile fd = some f) :
    sysWrite fd addr len (s, tty) =
      ((sysWriteFile i f addr len s).1, ((sysWriteFile i f addr len s).2, tty)) := by
  have hcurrent : onSys (procCurrent .inval) (s, tty) = (.ok i, (s, tty)) := by
    apply Prog.zoom_apply
    rw [procCurrent, hcur]
  rw [sysWrite, Prog.bind_ok hcurrent, Prog.get_bind, if_neg (Nat.not_le.mpr hfd), hof]
  rfl

end Chunks

end OsAgentLab
