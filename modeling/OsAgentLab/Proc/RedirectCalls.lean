/-
The system calls of a redirection, by what the descriptors hold behind them.
-/
import OsAgentLab.Proc.Append
import OsAgentLab.Proc.RedirectFrame

namespace OsAgentLab

variable {s s' s'' : Sys} {i fd f g : Nat} {holds holds' : Nat × Nat → Option Nat}

section Counts

/-- The entries in use are some of those before, up to their counts. -/
def Recounted (files files' : Pool OpenFile) : Prop :=
  ∀ g, files'.used g = true → files.used g = true ∧
    ∃ ref, files'.slot g = { files.slot g with ref := ref }

variable {files files' files'' : Pool OpenFile}

theorem Recounted.refl (files : Pool OpenFile) : Recounted files files :=
  fun g hg => ⟨hg, (files.slot g).ref, rfl⟩

theorem Recounted.trans (h : Recounted files files') (h' : Recounted files' files'') :
    Recounted files files'' := by
  intro g hg
  obtain ⟨hused', ref', hslot'⟩ := h' g hg
  obtain ⟨hused, ref, hslot⟩ := h g hused'
  exact ⟨hused, ref', by rw [hslot', hslot]⟩

theorem Recounted.count (files : Pool OpenFile) (f : Nat) (ref : Int) :
    Recounted files (files.setSlot f { files.slot f with ref := ref }) := by
  intro g hg
  refine ⟨hg, ?_⟩
  by_cases hgf : g = f
  · subst hgf
    exact ⟨ref, by rw [Pool.setSlot_slot, if_pos rfl]⟩
  · exact ⟨(files.slot g).ref, by rw [Pool.setSlot_slot, if_neg hgf]⟩

theorem Recounted.close (files : Pool OpenFile) (f : Nat) :
    Recounted files (closeEntry files f) := by
  rw [closeEntry]
  by_cases hlast : (files.slot f).ref - 1 = 0
  · rw [if_pos hlast]
    intro g hg
    have hgf : g ≠ f := by
      rintro rfl
      rw [Pool.release] at hg
      dsimp only at hg
      rw [if_pos rfl] at hg
      contradiction
    rw [Pool.release] at hg ⊢
    dsimp only at hg ⊢
    rw [if_neg hgf] at hg
    exact ⟨hg, (files.slot g).ref, by rw [Pool.setSlot_slot, if_neg hgf]⟩
  · rw [if_neg hlast]
    exact .count files f _

end Counts

section Steps

/-- A call on descriptors of the running process in slot `i`, with what the descriptors hold
behind it. -/
structure DescriptorStep (i : Nat) (s s' : Sys) (holds : Nat × Nat → Option Nat) : Prop where
  counted : Counted s' none
  current : s'.current = some i
  fs : s'.fs = s.fs
  holds : s'.holds = holds
  entries : Recounted s.files s'.files

theorem DescriptorStep.trans (h : DescriptorStep i s s' holds)
    (h' : DescriptorStep i s' s'' holds') : DescriptorStep i s s'' holds' :=
  ⟨h'.counted, h'.current, h'.fs.trans h.fs, h'.holds, h.entries.trans h'.entries⟩

theorem DescriptorStep.ofile (h : DescriptorStep i s s' holds) (j fd : Nat) :
    (s'.procs j).ofile fd = holds (j, fd) :=
  congrFun h.holds (j, fd)

/-- The descriptor that `fdalloc` takes. -/
def freeFd (ofile : Nat → Option Nat) : Option Nat :=
  (List.range' 3 (nofile - 3)).find? fun fd => (ofile fd).isNone

theorem freeFd_some {ofile : Nat → Option Nat} (h : freeFd ofile = some fd) :
    3 ≤ fd ∧ fd < nofile ∧ ofile fd = none := by
  have hmem := List.mem_range'_1.1 (List.mem_of_find?_eq_some h)
  have hnone := List.find?_some h
  rw [nofile] at hmem ⊢
  exact ⟨hmem.1, by omega, Option.isNone_iff_eq_none.1 hnone⟩

theorem freeFd_none {ofile : Nat → Option Nat} (h : freeFd ofile = none) (hlow : 3 ≤ fd)
    (hfd : fd < nofile) : ofile fd ≠ none := by
  intro hnone
  have hall := List.find?_eq_none.1 h fd
    (List.mem_range'_1.2 ⟨hlow, by rw [nofile] at hfd ⊢; omega⟩)
  rw [hnone] at hall
  exact hall rfl

theorem procCurrent_run (e : Errno) (hcur : s.current = some i) :
    procCurrent e s = (.ok i, s) := by
  rw [procCurrent, hcur]

theorem ofileOf_run (hfd : fd < nofile) (hf : (s.procs i).ofile fd = some f) :
    ofileOf i fd s = (.ok f, s) := by
  rw [ofileOf, if_neg (Nat.not_le.2 hfd), hf]

theorem ofileOf_none (hf : (s.procs i).ofile fd = none) : ofileOf i fd s = (.err .badf, s) := by
  rw [ofileOf, hf]
  by_cases hfd : nofile ≤ fd
  · rw [if_pos hfd]
  · rw [if_neg hfd]

theorem sysClose_step (h : Counted s none) (hcur : s.current = some i) (hfd : fd < nofile)
    (hf : (s.procs i).ofile fd = some f) :
    ∃ s', sysClose fd s = (.ok 0, s') ∧
      DescriptorStep i s s' (Function.update s.holds (i, fd) none) := by
  have hrun : sysClose fd s =
      (.ok 0, ({ s with files := closeEntry s.files f } : Sys).setOfile i fd none) := by
    rw [sysClose, Prog.bind_ok (procCurrent_run _ hcur), Prog.bind_ok (ofileOf_run hfd hf)]
    rfl
  refine ⟨_, hrun, (sysClose_counted fd).ok h hrun, hcur, rfl, ?_, .close s.files f⟩
  exact Sys.holds_setOfile (s := { s with files := closeEntry s.files f }) none

/-- A console has no file that `dup` could take. -/
theorem sysDup_console (hcur : s.current = some i) (hf : (s.procs i).ofile fd = none) :
    sysDup fd s = (.err .badf, s) := by
  rw [sysDup, Prog.bind_ok (procCurrent_run _ hcur), Prog.bind_err (ofileOf_none hf)]

theorem sysDup_step {copy : Nat} (h : Counted s none) (hcur : s.current = some i)
    (hfd : fd < nofile) (hf : (s.procs i).ofile fd = some f)
    (hfree : freeFd (s.procs i).ofile = some copy) :
    ∃ s', sysDup fd s = (.ok copy, s') ∧
      DescriptorStep i s s' (Function.update s.holds (i, copy) (some f)) := by
  let files := s.files.setSlot f { s.files.slot f with ref := (s.files.slot f).ref + 1 }
  have hrun : sysDup fd s =
      (.ok copy, ({ s with files := files } : Sys).setOfile i copy (some f)) := by
    have halloc : fdallocOrClose i f { s with files := files } =
        (.ok copy, ({ s with files := files } : Sys).setOfile i copy (some f)) := by
      apply Prog.onErr_ok
      rw [freeFd] at hfree
      rw [fdalloc, hfree]
    rw [sysDup, Prog.bind_ok (procCurrent_run _ hcur), Prog.bind_ok (ofileOf_run hfd hf), fileDup,
      Prog.modify_bind, Prog.bind_ok halloc]
    rfl
  refine ⟨_, hrun, (sysDup_counted fd).ok h hrun, hcur, rfl, ?_, .count s.files f _⟩
  exact Sys.holds_setOfile (s := { s with files := files }) (some f)

/-- Without a descriptor for the copy `dup` gives its reference back. -/
theorem sysDup_full (h : Counted s none) (hcur : s.current = some i) (hfd : fd < nofile)
    (hf : (s.procs i).ofile fd = some f) (hfree : freeFd (s.procs i).ofile = none) :
    ∃ s', sysDup fd s = (.err .mfile, s') ∧ DescriptorStep i s s' s.holds := by
  let files := s.files.setSlot f { s.files.slot f with ref := (s.files.slot f).ref + 1 }
  have hrun : sysDup fd s = (.err .mfile, { s with files := closeEntry files f }) := by
    have halloc : fdalloc i f { s with files := files } = (.err .mfile, { s with files := files }) := by
      rw [freeFd] at hfree
      rw [fdalloc, hfree]
    rw [sysDup, Prog.bind_ok (procCurrent_run _ hcur), Prog.bind_ok (ofileOf_run hfd hf), fileDup,
      Prog.modify_bind]
    apply Prog.bind_err
    rw [fdallocOrClose, Prog.onErr_err halloc]
    rfl
  refine ⟨_, hrun, (sysDup_counted fd).err h hrun, hcur, rfl, rfl, ?_⟩
  exact (Recounted.count s.files f _).trans (.close files f)

theorem sysDup3_step {oldfd newfd : Nat} (h : Counted s none) (hcur : s.current = some i)
    (hold : oldfd < nofile) (hnew : newfd < nofile) (hne : oldfd ≠ newfd)
    (hf : (s.procs i).ofile oldfd = some f) :
    ∃ s', sysDup3 oldfd newfd s = (.ok newfd, s') ∧
      DescriptorStep i s s' (Function.update s.holds (i, newfd) (some f)) := by
  have hcontinue : ∃ t, closeIfOpen i newfd s = (.ok (), t) ∧
      t.holds = Function.update s.holds (i, newfd) none ∧ t.current = some i ∧ t.fs = s.fs ∧
      Recounted s.files t.files := by
    cases hg : (s.procs i).ofile newfd with
    | none =>
        refine ⟨s, ?_, ?_, hcur, rfl, .refl s.files⟩
        · rw [closeIfOpen, Prog.get_bind, hg]
          rfl
        · have hheld : s.holds (i, newfd) = none := hg
          rw [← hheld, Function.update_eq_self]
    | some g =>
        refine ⟨({ s with files := closeEntry s.files g } : Sys).setOfile i newfd none, ?_, ?_, hcur,
          rfl, .close s.files g⟩
        · rw [closeIfOpen, Prog.get_bind, hg]
          rfl
        · exact Sys.holds_setOfile (s := { s with files := closeEntry s.files g }) none
  obtain ⟨t, hclose, hholds, htcur, hfs, hentries⟩ := hcontinue
  have htf : (t.procs i).ofile oldfd = some f := by
    have heq := congrFun hholds (i, oldfd)
    rw [Function.update_of_ne (fun heq => hne (Prod.mk.inj heq).2)] at heq
    exact heq.trans hf
  let files := t.files.setSlot f { t.files.slot f with ref := (t.files.slot f).ref + 1 }
  have hrun : sysDup3 oldfd newfd s =
      (.ok newfd, ({ t with files := files } : Sys).setOfile i newfd (some f)) := by
    rw [sysDup3, Prog.bind_ok (procCurrent_run _ hcur), if_neg (Nat.not_le.2 hnew),
      Prog.bind_ok (ofileOf_run hold hf), if_neg hne, Prog.bind_ok hclose,
      Prog.bind_ok (ofileOf_run hold htf)]
    rfl
  refine ⟨_, hrun, (sysDup3_counted oldfd newfd).ok h hrun, htcur, hfs, ?_,
    hentries.trans (.count t.files f _)⟩
  refine (Sys.holds_setOfile (s := { t with files := files }) (some f)).trans ?_
  change Function.update t.holds (i, newfd) (some f) = _
  rw [hholds, Function.update_idem]

end Steps

section Open

/-- A new open file for writing at the vnode of a path, behind the lowest free descriptor. -/
structure Opened (i path_ptr flags : Nat) (s s' : Sys) (fd f vn off : Nat) : Prop where
  free : freeFd (s.procs i).ofile = some fd
  found : ∃ path, (copyinPath i path_ptr s).1 = .ok path ∧
    openVnode (s.procs i).cwd path flags s.fs = (.ok vn, s'.fs)
  position : if flags &&& oAppend ≠ 0 then
      ∃ st, vfsStat (some vn) s'.fs = (.ok st, s'.fs) ∧ off = st.stSize
    else off = 0
  current : s'.current = s.current
  new : s.files.used f = false ∧ f < nfile
  holds : s'.holds = Function.update s.holds (i, fd) (some f)
  slot : s'.files.slot f =
    ⟨1, decide (flags &&& oWronly = 0), decide (flags &&& oWronly ≠ 0 ∨ flags &&& oRdwr ≠ 0), off,
      some vn⟩
  other : ∀ g, g ≠ f → s'.files.used g = s.files.used g ∧ s'.files.slot g = s.files.slot g

theorem Opened.ofile {path_ptr flags vn off : Nat}
    (h : Opened i path_ptr flags s s' fd f vn off)
    (c : Nat) : (s'.procs i).ofile c = if c = fd then some f else (s.procs i).ofile c := by
  have hholds := congrFun h.holds (i, c)
  by_cases hc : c = fd
  · subst hc
    rw [Function.update_self] at hholds
    rw [if_pos rfl]
    exact hholds
  · rw [Function.update_of_ne (fun heq => hc (Prod.mk.inj heq).2)] at hholds
    rw [if_neg hc]
    exact hholds

theorem openOffset_ok {vn flags off : Nat} (hrun : openOffset f vn flags s = (.ok off, s')) :
    s' = s ∧ if flags &&& oAppend ≠ 0 then
      ∃ st, vfsStat (some vn) s.fs = (.ok st, s.fs) ∧ off = st.stSize else off = 0 := by
  rw [openOffset] at hrun
  by_cases happend : flags &&& oAppend ≠ 0
  · rw [if_pos happend] at hrun ⊢
    obtain ⟨st, s₁, hstat, hsize⟩ := Prog.of_bind_ok (Prog.of_onErr_ok fileClose_fail_ne hrun)
    obtain ⟨hoff, rfl⟩ := Prod.mk.inj hsize
    obtain ⟨k, hstat', rfl⟩ := Prog.of_zoom_ok hstat
    have hk := vfsStat_run (some vn) s.fs
    rw [hstat'] at hk
    obtain rfl : k = s.fs := hk
    exact ⟨rfl, st, hstat', (Outcome.ok.inj hoff).symm⟩
  · rw [if_neg happend] at hrun ⊢
    obtain ⟨hoff, rfl⟩ := Prod.mk.inj hrun
    exact ⟨rfl, (Outcome.ok.inj hoff).symm⟩

theorem sysOpenat_opened {path_ptr flags : Nat} {r : Int} (hcur : s.current = some i)
    (hrun : sysOpenat atFdcwd path_ptr flags s = (.ok r, s')) :
    ∃ fd f vn off : Nat, r = fd ∧ Opened i path_ptr flags s s' fd f vn off := by
  rw [sysOpenat, Prog.bind_ok (procCurrent_run _ hcur), if_neg (fun h => h rfl)] at hrun
  obtain ⟨path, s₁, hcopy, hcheck⟩ := Prog.of_bind_ok hrun
  obtain rfl : s₁ = s := (@copyinPath_reads s _ _).ok rfl hcopy
  by_cases hflags : flags &&& oTrunc ≠ 0 ∧ flags &&& (oWronly ||| oRdwr) = 0
  · rw [if_pos hflags] at hcheck
    cases hcheck
  rw [if_neg hflags, Prog.get_bind] at hcheck
  obtain ⟨vn, s₂, hopen, halloc⟩ := Prog.of_bind_ok hcheck
  obtain ⟨k, hvnode, rfl⟩ := Prog.of_zoom_ok hopen
  obtain ⟨found, s₃, hfound, hfill⟩ := Prog.of_bind_ok halloc
  rw [fileAlloc] at hfound
  dsimp only at hfound
  cases hfree : s₁.files.firstFree nfile with
  | none =>
      rw [hfree] at hfound
      cases hfound
      cases hfill
  | some f =>
      rw [hfree] at hfound
      cases hfound
      obtain ⟨hlt, hunused⟩ := Pool.firstFree_eq_some hfree
      obtain ⟨_, s₄, hblank, hoffset⟩ := Prog.of_bind_ok hfill
      cases hblank
      obtain ⟨off, s₅, hoff, hstore⟩ := Prog.of_bind_ok hoffset
      obtain ⟨rfl, hposition⟩ := openOffset_ok hoff
      obtain ⟨_, s₆, hstored, hslot⟩ := Prog.of_bind_ok hstore
      cases hstored
      obtain ⟨fd, s₇, hfd, hlast⟩ := Prog.of_bind_ok hslot
      have hfd' := Prog.of_onErr_ok fileClose_fail_ne hfd
      rw [fdalloc] at hfd'
      cases hnew : freeFd (s₁.procs i).ofile with
      | none =>
          rw [freeFd] at hnew
          dsimp only at hfd'
          rw [hnew] at hfd'
          cases hfd'
      | some fd' =>
          have hfind := hnew
          rw [freeFd] at hfind
          dsimp only at hfd'
          rw [hfind] at hfd'
          cases hfd'
          cases hlast
          refine ⟨fd, f, vn, off, rfl, ?_⟩
          exact
            { free := hnew
              found := ⟨path, by rw [hcopy], hvnode⟩
              position := hposition
              current := rfl
              new := ⟨hunused, hlt⟩
              holds := Sys.holds_setOfile (some f)
              slot := by simp
              other := fun g hg => by simp [hg] }

/-- The entries in use are some of those before, opened as they were. -/
def SameOpen (files files' : Pool OpenFile) : Prop :=
  ∀ g, files'.used g = true → files.used g = true ∧
    (files'.slot g).readable = (files.slot g).readable ∧
    (files'.slot g).writable = (files.slot g).writable ∧ (files'.slot g).vn = (files.slot g).vn

theorem Recounted.sameOpen {files files' : Pool OpenFile} (h : Recounted files files') :
    SameOpen files files' := by
  intro g hg
  obtain ⟨hused, ref, hslot⟩ := h g hg
  rw [hslot]
  exact ⟨hused, rfl, rfl, rfl⟩

theorem SameFiles.sameOpen (h : SameFiles s s') : SameOpen s.files s'.files := by
  intro g hg
  obtain ⟨off, hslot⟩ := h.slot g
  rw [h.used] at hg
  rw [hslot]
  exact ⟨hg, rfl, rfl, rfl⟩

theorem SameOpen.trans {files files' files'' : Pool OpenFile} (h : SameOpen files files')
    (h' : SameOpen files' files'') : SameOpen files files'' := by
  intro g hg
  obtain ⟨hused', hread', hwrite', hvn'⟩ := h' g hg
  obtain ⟨hused, hread, hwrite, hvn⟩ := h g hused'
  exact ⟨hused, hread'.trans hread, hwrite'.trans hwrite, hvn'.trans hvn⟩

/-- The descriptors are the same, and open files are none but those before. -/
structure Still (s s' : Sys) : Prop where
  current : s'.current = s.current
  holds : s'.holds = s.holds
  files : SameOpen s.files s'.files

theorem SameFiles.still (h : SameFiles s s') : Still s s' := ⟨h.current, h.holds, h.sameOpen⟩

/-- The entry `f` is new and counts one reference. -/
structure NewEntry (f : Nat) (s s' : Sys) : Prop where
  current : s'.current = s.current
  holds : s'.holds = s.holds
  ref : (s'.files.slot f).ref = 1
  other : ∀ g, g ≠ f → s'.files.used g = s.files.used g ∧
    ∃ off, s'.files.slot g = { s.files.slot g with off := off }

theorem NewEntry.fill (h : NewEntry f s s') (file : OpenFile) :
    NewEntry f s { s' with
      files := s'.files.setSlot f { file with ref := (s'.files.slot f).ref } } := by
  refine ⟨h.current, h.holds, ?_, fun g hg => ?_⟩
  · rw [Pool.setSlot_slot, if_pos rfl]
    exact h.ref
  · rw [Pool.setSlot_slot, if_neg hg]
    exact h.other g hg

theorem NewEntry.close (h : NewEntry f s s') :
    Still s { s' with files := closeEntry s'.files f } := by
  refine ⟨h.current, h.holds, fun g hg => ?_⟩
  have hlast : (s'.files.slot f).ref - 1 = 0 := by
    rw [h.ref]
    rfl
  rw [closeEntry, if_pos hlast] at hg ⊢
  by_cases hgf : g = f
  · subst hgf
    rw [Pool.release] at hg
    dsimp only at hg
    rw [if_pos rfl] at hg
    contradiction
  · obtain ⟨hused, off, hslot⟩ := h.other g hgf
    rw [Pool.release] at hg ⊢
    dsimp only at hg ⊢
    rw [if_neg hgf] at hg
    rw [Pool.setSlot_slot, if_neg hgf, hslot]
    exact ⟨hused ▸ hg, rfl, rfl, rfl⟩

theorem closing_still (f : Nat) (e : Errno) :
    Prog.Triple (NewEntry f s) (do fileClose f; Prog.fail e : SysM Nat) (fun _ _ => True)
      (fun _ => Still s) (fun _ => True) :=
  Prog.Triple.bind (Prog.Triple.modify fun _ h => h.close) fun _ => Prog.Triple.fail fun _ => id

theorem openOffset_newEntry (f vn flags : Nat) :
    Prog.Triple (NewEntry f s) (openOffset f vn flags) (fun _ => NewEntry f s)
      (fun _ => Still s) (fun _ => True) := by
  have hfs : ∀ m : Kern VfsStat, Prog.Keeps (NewEntry f s) (onFs m) := fun m =>
    Prog.Keeps.zoom fun k t h => ⟨h.current, h.holds, h.ref, h.other⟩
  refine Prog.Triple.ite (fun _ => ?_) fun _ => Prog.Triple.pure fun _ => id
  refine Prog.Triple.onErr (F := fun _ => NewEntry f s) ?_ fun e => ?_
  · exact Prog.Triple.bind ((hfs _).conseq (fun _ => id) (fun _ _ => id) (fun _ _ => id)
      fun _ _ => trivial) fun _ => Prog.Triple.pure fun _ => id
  · exact Prog.Triple.bind (Prog.Triple.modify fun _ h => h.close) fun _ =>
      Prog.Triple.fail fun _ => id

theorem fdallocOrClose_newEntry (i f : Nat) :
    Prog.Triple (NewEntry f s) (fdallocOrClose i f) (fun _ _ => True) (fun _ => Still s)
      (fun _ => True) := by
  refine Prog.Triple.onErr (F := fun _ => NewEntry f s) (fun t h => ?_) (closing_still f)
  rw [fdalloc]
  cases (List.range' 3 (nofile - 3)).find? fun fd => ((t.procs i).ofile fd).isNone with
  | none => exact h
  | some fd => trivial

/-- An open that fails leaves descriptors and open files. -/
theorem sysOpenat_still (path_ptr flags : Nat) :
    Prog.Triple (SameFiles s) (sysOpenat atFdcwd path_ptr flags) (fun _ _ => True)
      (fun _ => Still s) (fun _ => True) := by
  have hkeep : ∀ {α : Type} {m : SysM α}, Prog.Keeps (SameFiles s) m →
      Prog.Triple (SameFiles s) m (fun _ => SameFiles s) (fun _ => Still s) (fun _ => True) :=
    fun h => h.conseq (fun _ => id) (fun _ _ => id) (fun _ _ h => h.still) fun _ _ => trivial
  refine Prog.Triple.bind (hkeep (procCurrent_reads _)) fun i => ?_
  refine Prog.Triple.ite (fun _ => Prog.Triple.fail fun _ h => h.still) fun _ => ?_
  refine Prog.Triple.bind (hkeep (copyinPath_sameFiles i path_ptr)) fun path => ?_
  refine Prog.Triple.ite (fun _ => Prog.Triple.fail fun _ h => h.still) fun _ => ?_
  refine Prog.Triple.get_bind fun t ht => Prog.Triple.pre ?_ fun t' ht' => ht' ▸ ht
  refine Prog.Triple.bind (hkeep (onFs_sameFiles _)) fun vn => ?_
  refine Prog.Triple.bind
    (R := fun found t => found.elim (Still s t) fun f => NewEntry f s t) (fun t h => ?_)
    fun found => ?_
  · rw [fileAlloc]
    cases t.files.firstFree nfile with
    | none => exact h.still
    | some f =>
        refine ⟨h.current, h.holds, by simp, fun g hg => ?_⟩
        rw [Pool.take_used, Pool.take_slot, if_neg hg, if_neg hg]
        exact ⟨congrFun h.used g, h.slot g⟩
  cases found with
  | none => exact Prog.Triple.fail fun _ => id
  | some f =>
      have hfill : ∀ file, Prog.Triple (NewEntry f s) (fileFill f file)
          (fun _ => NewEntry f s) (fun _ => Still s) (fun _ => True) := fun file =>
        Prog.Triple.modify fun _ h => h.fill file
      refine Prog.Triple.bind (hfill _) fun _ => ?_
      refine Prog.Triple.bind (openOffset_newEntry f vn flags) fun off => ?_
      refine Prog.Triple.bind (hfill _) fun _ => ?_
      exact Prog.Triple.bind (fdallocOrClose_newEntry i f) fun _ =>
        Prog.Triple.pure fun _ => id

end Open

end OsAgentLab
