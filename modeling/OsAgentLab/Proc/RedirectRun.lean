/-
A redirected builtin from its start to its end: descriptor 1 comes back exactly when `dup` could
save it.
-/
import OsAgentLab.Proc.RedirectCalls

namespace OsAgentLab

namespace Shell

variable {s s' s₁ : Sys} {tty tty' : Tty} {i fd f g vn off : Nat} {strings : Strings}
  {append : Bool} {m : SysM Int} {saved : Int} {holds : Nat × Nat → Option Nat}

section Meaning

/-- Every descriptor is as before, and so is every entry of the table of files. -/
structure Restored (s s' : Sys) : Prop where
  ofile : ∀ j fd, (s'.procs j).ofile fd = (s.procs j).ofile fd
  used : ∀ g, g < nfile → s'.files.used g = s.files.used g
  entry : ∀ g, g < nfile → s.files.used g = true →
    (s'.files.slot g).ref = (s.files.slot g).ref ∧
      (s'.files.slot g).readable = (s.files.slot g).readable ∧
      (s'.files.slot g).writable = (s.files.slot g).writable ∧
      (s'.files.slot g).vn = (s.files.slot g).vn

/-- Descriptor 1 has a file, and besides the descriptor for the target there is one for its
copy. -/
def Saveable (i : Nat) (s : Sys) : Prop :=
  (s.procs i).ofile 1 ≠ none ∧ ∃ fd copy, fd ≠ copy ∧ (3 ≤ fd ∧ fd < nofile) ∧
    (3 ≤ copy ∧ copy < nofile) ∧ (s.procs i).ofile fd = none ∧ (s.procs i).ofile copy = none

/-- Where the output starts in the target: behind what is there, or at its start. -/
def StartsAt (append : Bool) (vn off : Nat) (k : Kernel) : Prop :=
  if append then ∃ st, vfsStat (some vn) k = (.ok st, k) ∧ off = st.stSize else off = 0

/-- When `pwd` runs, descriptor 1 is the target, and what `pwd` writes there is written to it. -/
def Delivered (i : Nat) (strings : Strings) (append : Bool) (s : Sys) (tty : Tty) : Prop :=
  ∀ fd x₁ saved x₂,
    wrapRet (onSys (sysOpenat atFdcwd strings.path (redirectFlags append))) (s, tty) =
      (.ok fd, x₁) → 0 ≤ fd → redirectOut fd.toNat x₁ = (.ok saved, x₂) →
    ∃ path f vn, (copyinPath i strings.path s).1 = .ok path ∧
      openVnode (s.procs i).cwd path (redirectFlags append) s.fs = (.ok vn, x₂.1.fs) ∧
      (x₂.1.files.slot f).writable = true ∧ (x₂.1.files.slot f).vn = some vn ∧
      StartsAt append vn (x₂.1.files.slot f).off x₂.1.fs ∧
      builtinPwd sysWrite i strings x₂ = builtinPwd (writeTo i f) i strings x₂

theorem ref_of_holds (h : Counted s none) (h' : Counted s' none) (hholds : s'.holds = s.holds)
    (hg : g < nfile) : (s'.files.slot g).ref = (s.files.slot g).ref := by
  rw [h'.ref g hg, h.ref g hg, hholds]

theorem used_of_holds (h : Counted s none) (h' : Counted s' none) (hholds : s'.holds = s.holds)
    (hg : g < nfile) : s'.files.used g = s.files.used g := by
  rw [Bool.eq_iff_iff, h'.used g hg, h.used g hg, ref_of_holds h h' hholds hg]

theorem restored_of_still (h : Counted s none) (h' : Counted s' none) (hstill : Still s s') :
    Restored s s' := by
  refine ⟨fun j fd => congrFun hstill.holds (j, fd), fun g => used_of_holds h h' hstill.holds,
    fun g hg hin => ⟨ref_of_holds h h' hstill.holds hg, ?_⟩⟩
  exact (hstill.files g ((used_of_holds h h' hstill.holds hg).trans hin)).2

end Meaning

section Calls

theorem wrapRet_ok {r : Int} (hrun : m s = (.ok r, s')) (hr : 0 ≤ r) :
    wrapRet (onSys m) (s, tty) = (.ok r, (s', tty)) := by
  have hcall : Prog.onErr (onSys m) (fun _ => pure (-1)) (s, tty) = (.ok r, (s', tty)) :=
    Prog.onErr_ok (Prog.zoom_apply hrun) _
  rw [wrapRet, Prog.bind_ok hcall, if_neg (Int.not_lt.2 hr)]
  rfl

theorem wrapRet_err {e : Errno} (hrun : m s = (.err e, s')) :
    wrapRet (onSys m) (s, tty) = (.ok (-1), (s', tty)) := by
  have hfail : onSys m (s, tty) = (.err e, (s', tty)) := Prog.zoom_apply hrun
  have hcall : Prog.onErr (onSys m) (fun _ => pure (-1)) (s, tty) = (.ok (-1), (s', tty)) :=
    (Prog.onErr_err hfail _).trans rfl
  rw [wrapRet, Prog.bind_ok hcall, if_pos (by decide)]
  rfl

/-- A system call that comes back has either delivered its value or failed. -/
theorem of_wrapRet {r : Int} {x : Sys × Tty} (hpos : ∀ r s', m s = (.ok r, s') → 0 ≤ r)
    (hrun : wrapRet (onSys m) (s, tty) = (.ok r, x)) :
    (0 ≤ r ∧ ∃ s', m s = (.ok r, s') ∧ x = (s', tty)) ∨
      (r = -1 ∧ ∃ e s', m s = (.err e, s') ∧ x = (s', tty)) := by
  cases hm : m s with
  | mk out s' =>
      cases out with
      | ok r' =>
          rw [wrapRet_ok hm (hpos r' s' hm)] at hrun
          obtain ⟨hr, hx⟩ := Prod.mk.inj hrun
          obtain rfl := Outcome.ok.inj hr
          exact Or.inl ⟨hpos _ _ hm, s', rfl, hx.symm⟩
      | err e =>
          rw [wrapRet_err hm] at hrun
          obtain ⟨hr, hx⟩ := Prod.mk.inj hrun
          exact Or.inr ⟨(Outcome.ok.inj hr).symm, e, s', rfl, hx.symm⟩
      | fault =>
          have hstop : onSys m (s, tty) = (.fault, (s', tty)) := Prog.zoom_apply hm
          simp only [wrapRet, Bind.bind, Prog.onErr, hstop] at hrun
          cases hrun
      | diverges =>
          have hstop : onSys m (s, tty) = (.diverges, (s', tty)) := Prog.zoom_apply hm
          simp only [wrapRet, Bind.bind, Prog.onErr, hstop] at hrun
          cases hrun

end Calls

section Redirection

/-- `dup2(fd, 1)` and `close(fd)` behind a copy that was made or not. -/
theorem redirectOut_step (hc : Counted s none) (hcur : s.current = some i) (hfd : 3 ≤ fd)
    (hlt : fd < nofile) (hf : (s.procs i).ofile fd = some f)
    (hdup : wrapRet (onSys (sysDup 1)) (s₁, tty) = (.ok saved, (s, tty))) :
    ∃ s', redirectOut fd (s₁, tty) = (.ok saved, (s', tty)) ∧
      DescriptorStep i s s'
        (Function.update (Function.update s.holds (i, 1) (some f)) (i, fd) none) := by
  obtain ⟨t, hdup3, hstep⟩ := sysDup3_step hc hcur hlt (by decide : 1 < nofile) (by omega) hf
  have hne : (i, fd) ≠ (i, 1) := fun heq => by
    have := (Prod.mk.inj heq).2
    omega
  have hfd' : (t.procs i).ofile fd = some f := by
    rw [hstep.ofile, Function.update_of_ne hne]
    exact hf
  obtain ⟨s', hclose, hstep'⟩ := sysClose_step hstep.counted hstep.current hlt hfd'
  refine ⟨s', ?_, ?_⟩
  · rw [redirectOut, Prog.bind_ok hdup, Prog.bind_ok (wrapRet_ok hdup3 (by decide)),
      Prog.bind_ok (wrapRet_ok hclose (Int.le_refl 0))]
    rfl
  · rw [hstep.holds] at hstep'
    exact hstep.trans hstep'

/-- `dup2(saved, 1)` and `close(saved)`. -/
theorem restoreOut_step {copy : Nat} (hc : Counted s none) (hcur : s.current = some i)
    (hcopy : 3 ≤ copy) (hlt : copy < nofile) (hg : (s.procs i).ofile copy = some g) :
    ∃ s', restoreOut copy (s, tty) = (.ok (), (s', tty)) ∧
      DescriptorStep i s s'
        (Function.update (Function.update s.holds (i, 1) (some g)) (i, copy) none) := by
  obtain ⟨t, hdup3, hstep⟩ := sysDup3_step hc hcur hlt (by decide : 1 < nofile) (by omega) hg
  have hne : (i, copy) ≠ (i, 1) := fun heq => by
    have := (Prod.mk.inj heq).2
    omega
  have hcopy' : (t.procs i).ofile copy = some g := by
    rw [hstep.ofile, Function.update_of_ne hne]
    exact hg
  obtain ⟨s', hclose, hstep'⟩ := sysClose_step hstep.counted hstep.current hlt hcopy'
  refine ⟨s', ?_, ?_⟩
  · rw [restoreOut, if_pos (Int.natCast_nonneg copy), Int.toNat_natCast,
      Prog.bind_ok (wrapRet_ok hdup3 (by decide)),
      Prog.bind_ok (wrapRet_ok hclose (Int.le_refl 0))]
    rfl
  · rw [hstep.holds] at hstep'
    exact hstep.trans hstep'

/-- There is a copy of descriptor 1 exactly when it has a file and one more descriptor is free. -/
theorem saveable_iff {path_ptr flags : Nat} (h : Opened i path_ptr flags s s₁ fd f vn off) :
    Saveable i s ↔
      (s.procs i).ofile 1 ≠ none ∧ ∃ copy, freeFd (s₁.procs i).ofile = some copy := by
  obtain ⟨hlow, hlt, hnone⟩ := freeFd_some h.free
  refine and_congr_right fun _ => ⟨?_, ?_⟩
  · rintro ⟨a, b, hab, ha, hb, hanone, hbnone⟩
    obtain ⟨c, hc, hcfd, hcnone⟩ : ∃ c, (3 ≤ c ∧ c < nofile) ∧ c ≠ fd ∧
        (s.procs i).ofile c = none := by
      by_cases hafd : a = fd
      · exact ⟨b, hb, fun hbfd => hab (hafd.trans hbfd.symm), hbnone⟩
      · exact ⟨a, ha, hafd, hanone⟩
    have hfree : (s₁.procs i).ofile c = none := by rw [h.ofile, if_neg hcfd, hcnone]
    exact Option.ne_none_iff_exists'.1 fun hfull => freeFd_none hfull hc.1 hc.2 hfree
  · rintro ⟨copy, hcopy⟩
    obtain ⟨hclow, hclt, hcnone⟩ := freeFd_some hcopy
    rw [h.ofile] at hcnone
    by_cases hcfd : copy = fd
    · rw [if_pos hcfd] at hcnone
      contradiction
    · rw [if_neg hcfd] at hcnone
      exact ⟨fd, copy, Ne.symm hcfd, ⟨hlow, hlt⟩, ⟨hclow, hclt⟩, hnone, hcnone⟩

/-- Descriptor 1 is the target, and its copy is kept if there could be one. -/
inductive Redirected (i fd f : Nat) (s s₁ s₂ : Sys) : Int → Prop
  | saved {g copy : Nat} (hout : (s.procs i).ofile 1 = some g) (hlow : 3 ≤ copy)
      (hlt : copy < nofile) (hne : copy ≠ fd) (hfree : (s.procs i).ofile copy = none)
      (hstep : DescriptorStep i s₁ s₂ (Function.update (Function.update
        (Function.update s₁.holds (i, copy) (some g)) (i, 1) (some f)) (i, fd) none)) :
      Redirected i fd f s s₁ s₂ copy
  | lost (hnot : ¬Saveable i s) (hstep : DescriptorStep i s₁ s₂
      (Function.update (Function.update s₁.holds (i, 1) (some f)) (i, fd) none)) :
      Redirected i fd f s s₁ s₂ (-1)

theorem redirectOut_redirected {path_ptr flags : Nat}
    (h : Opened i path_ptr flags s s₁ fd f vn off) (hc : Counted s₁ none)
    (hcur : s₁.current = some i) :
    ∃ saved s₂, redirectOut fd (s₁, tty) = (.ok saved, (s₂, tty)) ∧
      Redirected i fd f s s₁ s₂ saved := by
  obtain ⟨hlow, hlt, -⟩ := freeFd_some h.free
  have hone : (s₁.procs i).ofile 1 = (s.procs i).ofile 1 := by
    rw [h.ofile, if_neg (by omega)]
  have htarget : (s₁.procs i).ofile fd = some f := by rw [h.ofile, if_pos rfl]
  by_cases hsave : Saveable i s
  · obtain ⟨hsome, copy, hcopy⟩ := (saveable_iff h).1 hsave
    obtain ⟨g, hg⟩ := Option.ne_none_iff_exists'.1 hsome
    obtain ⟨hclow, hclt, hcnone⟩ := freeFd_some hcopy
    have hne : copy ≠ fd := by
      rintro rfl
      rw [htarget] at hcnone
      contradiction
    rw [h.ofile, if_neg hne] at hcnone
    obtain ⟨t, hdup, hstep⟩ := sysDup_step hc hcur (by decide) (hone.trans hg) hcopy
    have hfd : (t.procs i).ofile fd = some f := by
      rw [hstep.ofile, Function.update_of_ne (fun heq => hne (Prod.mk.inj heq).2.symm)]
      exact htarget
    have hcopied : wrapRet (onSys (sysDup 1)) (s₁, tty) = (.ok copy, (t, tty)) :=
      wrapRet_ok hdup (Int.natCast_nonneg copy)
    obtain ⟨s₂, hrun, hstep'⟩ := redirectOut_step hstep.counted hstep.current hlow hlt hfd hcopied
    rw [hstep.holds] at hstep'
    exact ⟨copy, s₂, hrun, .saved hg hclow hclt hne hcnone (hstep.trans hstep')⟩
  · obtain ⟨t, hdup, hstep⟩ : ∃ t, wrapRet (onSys (sysDup 1)) (s₁, tty) = (.ok (-1), (t, tty)) ∧
        DescriptorStep i s₁ t s₁.holds := by
      cases hout : (s₁.procs i).ofile 1 with
      | none =>
          exact ⟨s₁, wrapRet_err (sysDup_console hcur hout), hc, hcur, rfl, rfl, .refl _⟩
      | some g =>
          cases hfree : freeFd (s₁.procs i).ofile with
          | none =>
              obtain ⟨t, hdup, hstep⟩ := sysDup_full hc hcur (by decide) hout hfree
              exact ⟨t, wrapRet_err hdup, hstep⟩
          | some copy =>
              refine absurd ((saveable_iff h).2 ⟨?_, copy, hfree⟩) hsave
              rw [← hone, hout]
              exact Option.some_ne_none g
    have hfd : (t.procs i).ofile fd = some f := (hstep.ofile i fd).trans htarget
    obtain ⟨s₂, hrun, hstep'⟩ := redirectOut_step hstep.counted hstep.current hlow hlt hfd hdup
    rw [hstep.holds] at hstep'
    exact ⟨-1, s₂, hrun, .lost hsave (hstep.trans hstep')⟩

end Redirection

section Whole

variable {s₂ s₃ : Sys}

/-- With a target on descriptor 1, its entry is in use and opened as `openat` opened it. -/
theorem Redirected.target {path_ptr flags : Nat} (h : Redirected i fd f s s₁ s₂ saved)
    (hopen : Opened i path_ptr flags s s₁ fd f vn off) (hi : i < nproc) :
    Counted s₂ none ∧ OutputIs i f (s₂, tty) ∧ s₂.fs = s₁.fs ∧
      ∃ ref, s₂.files.slot f = { s₁.files.slot f with ref := ref } := by
  have hlow := (freeFd_some hopen.free).1
  have hne : (i, 1) ≠ (i, fd) := fun heq => by
    have := (Prod.mk.inj heq).2
    omega
  have hstep : ∃ holds, DescriptorStep i s₁ s₂ holds ∧ holds (i, 1) = some f := by
    cases h with
    | saved hout hclow hclt hcne hfree hstep =>
        exact ⟨_, hstep, by rw [Function.update_of_ne hne, Function.update_self]⟩
    | lost hnot hstep =>
        exact ⟨_, hstep, by rw [Function.update_of_ne hne, Function.update_self]⟩
  obtain ⟨holds, hstep, hone⟩ := hstep
  have hout : (s₂.procs i).ofile 1 = some f := (hstep.ofile i 1).trans hone
  have hused := (hstep.counted.used_of_holds hi (by decide : 1 < nofile) hout).2
  exact ⟨hstep.counted, ⟨hstep.current, hout⟩, hstep.fs, (hstep.entries f hused).2⟩

theorem sysOpenat_nonneg {path_ptr flags : Nat} (hcur : s.current = some i) (r : Int) (s' : Sys)
    (hrun : sysOpenat atFdcwd path_ptr flags s = (.ok r, s')) : 0 ≤ r := by
  obtain ⟨n, f, vn, off, rfl, -⟩ := sysOpenat_opened hcur hrun
  exact Int.natCast_nonneg n

theorem redirectFlags_writes (append : Bool) : redirectFlags append &&& oWronly ≠ 0 := by
  cases append <;> decide

theorem delivered (hc : Counted s none) (hcur : s.current = some i) :
    Delivered i strings append s tty := by
  intro fd x₁ saved x₂ hopen hfd hout
  rcases of_wrapRet (sysOpenat_nonneg hcur) hopen with ⟨-, s₁, hrun, rfl⟩ | ⟨rfl, -⟩
  · obtain ⟨n, f, vn, off, rfl, hopened⟩ := sysOpenat_opened hcur hrun
    have hc₁ := (sysOpenat_counted _ _ _).ok hc hrun
    have hcur₁ : s₁.current = some i := hopened.current.trans hcur
    obtain ⟨saved', s₂, hredirect, hredirected⟩ := redirectOut_redirected hopened hc₁ hcur₁
    rw [Int.toNat_natCast, hredirect] at hout
    obtain ⟨hsaved, rfl⟩ := Prod.mk.inj hout
    obtain ⟨hc₂, hout₂, hfs, ref, hslot⟩ := hredirected.target hopened (hc.current i hcur).1
    obtain ⟨path, hpath, hvn⟩ := hopened.found
    refine ⟨path, f, vn, hpath, ?_, ?_, ?_, ?_, builtinPwd_writeTo strings _ hout₂⟩
    · rw [hfs]
      exact hvn
    · rw [hslot, hopened.slot]
      exact decide_eq_true (Or.inl (redirectFlags_writes append))
    · rw [hslot, hopened.slot]
    · have hposition := hopened.position
      rw [hslot, hopened.slot, hfs, StartsAt]
      cases append
      · exact hposition
      · exact hposition
  · contradiction

/-- The table behind the whole redirection is the one before it, if the descriptors are. -/
theorem still_of_opened {path_ptr flags : Nat} (h : Opened i path_ptr flags s s₁ fd f vn off)
    (hc : Counted s none) (hc' : Counted s' none) (hholds : s'.holds = s.holds)
    (hcur : s'.current = s.current) (hfiles : SameOpen s₁.files s'.files) : Still s s' := by
  refine ⟨hcur, hholds, fun g hg => ?_⟩
  have hgf : g ≠ f := by
    rintro rfl
    rw [used_of_holds hc hc' hholds h.new.2, h.new.1] at hg
    contradiction
  obtain ⟨hused, hslot⟩ := h.other g hgf
  have hsame := hfiles g hg
  rw [hused, hslot] at hsame
  exact hsame

/-- The copy that was kept goes back to descriptor 1. -/
theorem Redirected.restored {path_ptr flags : Nat} (h : Redirected i fd f s s₁ s₂ saved)
    (hopen : Opened i path_ptr flags s s₁ fd f vn off) (hc : Counted s none)
    (hcur : s.current = some i) (hsame : SameFiles s₂ s₃) (hsave : Saveable i s) :
    ∃ s', restoreOut saved (s₃, tty) = (.ok (), (s', tty)) ∧ Restored s s' := by
  cases h with
  | lost hnot => exact absurd hsave hnot
  | @saved g copy hout hlow hlt hne hfree hstep =>
      obtain ⟨hfdlow, hfdlt, hfdnone⟩ := freeFd_some hopen.free
      have hpair : ∀ {a b : Nat}, a ≠ b → (i, a) ≠ (i, b) := fun hab heq =>
        hab (Prod.mk.inj heq).2
      have hcopy : (s₃.procs i).ofile copy = some g := by
        have hheld := congrFun (hsame.holds.trans hstep.holds) (i, copy)
        rw [Function.update_of_ne (hpair hne), Function.update_of_ne (hpair (by omega)),
          Function.update_self] at hheld
        exact hheld
      have hc₃ := hsame.counted hstep.counted
      obtain ⟨s', hrun, hstep'⟩ :=
        restoreOut_step hc₃ (hsame.current.trans hstep.current) hlow hlt hcopy
      have hholds : s'.holds = s.holds := by
        rw [hstep'.holds, hsame.holds, hstep.holds, hopen.holds]
        funext d
        by_cases hdcopy : d = (i, copy)
        · subst hdcopy
          rw [Function.update_self]
          exact hfree.symm
        rw [Function.update_of_ne hdcopy]
        by_cases hdone : d = (i, 1)
        · subst hdone
          rw [Function.update_self]
          exact hout.symm
        rw [Function.update_of_ne hdone]
        by_cases hdfd : d = (i, fd)
        · subst hdfd
          rw [Function.update_self]
          exact hfdnone.symm
        rw [Function.update_of_ne hdfd, Function.update_of_ne hdone, Function.update_of_ne hdcopy,
          Function.update_of_ne hdfd]
      have hfiles : SameOpen s₁.files s'.files :=
        (hstep.entries.sameOpen.trans hsame.sameOpen).trans hstep'.entries.sameOpen
      have hcur' : s'.current = s.current := hstep'.current.trans hcur.symm
      exact ⟨s', hrun, restored_of_still hc hstep'.counted
        (still_of_opened hopen hc hstep'.counted hholds hcur' hfiles)⟩

/-- Without a copy, descriptor 1 stays on the target. -/
theorem Redirected.stays {path_ptr flags : Nat} (h : Redirected i fd f s s₁ s₂ saved)
    (hopen : Opened i path_ptr flags s s₁ fd f vn off) (hc : Counted s none)
    (hcur : s.current = some i) (hsame : SameFiles s₂ s₃) (hsave : ¬Saveable i s) :
    restoreOut saved (s₃, tty) = (.ok (), (s₃, tty)) ∧ ¬Restored s s₃ := by
  have hout : OutputIs i f (s₂, tty) := (h.target hopen (hc.current i hcur).1).2.1
  cases h with
  | saved hsome hlow hlt hne hfree hstep =>
      refine absurd ⟨?_, fd, _, Ne.symm hne, (freeFd_some hopen.free).imp_right And.left,
        ⟨hlow, hlt⟩, (freeFd_some hopen.free).2.2, hfree⟩ hsave
      rw [hsome]
      exact Option.some_ne_none _
  | lost hnot hstep =>
      refine ⟨by rw [restoreOut, if_neg (by decide)]; rfl, fun hrestored => ?_⟩
      have hthen := (output_of_sameFiles hsame hout tty).2
      have hbefore : (s.procs i).ofile 1 = some f := (hrestored.ofile i 1).symm.trans hthen
      have hused := (hc.used_of_holds (hc.current i hcur).1 (by decide : 1 < nofile) hbefore).2
      rw [hopen.new.1] at hused
      contradiction

end Whole

section Redirected

theorem redirectPwd_restored (hc : Counted s none) (hcur : s.current = some i)
    (hrun : redirectPwd i strings append (s, tty) = (.ok (), (s', tty'))) :
    Restored s s' ↔
      ((sysOpenat atFdcwd strings.path (redirectFlags append) s).1.IsOk → Saveable i s) := by
  rw [redirectPwd] at hrun
  obtain ⟨fd, x₁, hopen, hrest⟩ := Prog.of_bind_ok hrun
  rcases of_wrapRet (sysOpenat_nonneg hcur) hopen with ⟨hfd, s₁, hopened, rfl⟩ | ⟨rfl, e, s₁, hfail, rfl⟩
  · obtain ⟨n, f, vn, off, rfl, hnew⟩ := sysOpenat_opened hcur hopened
    have hc₁ := (sysOpenat_counted _ _ _).ok hc hopened
    have hcur₁ : s₁.current = some i := hnew.current.trans hcur
    obtain ⟨saved, s₂, hout, hredirected⟩ := redirectOut_redirected hnew hc₁ hcur₁
    rw [if_neg (Int.not_lt.2 hfd), Int.toNat_natCast, Prog.bind_ok hout] at hrest
    obtain ⟨_, ⟨s₃, tty₃⟩, hpwd, hback⟩ := Prog.of_bind_ok hrest
    have hsame : SameFiles s₂ s₃ := sameFiles_of_run (builtinPwd_sameFiles i strings) hpwd
    rw [hopened]
    by_cases hsave : Saveable i s
    · obtain ⟨s₄, hrestore, hrestored⟩ := hredirected.restored hnew hc hcur hsame hsave
      rw [hrestore] at hback
      obtain rfl : s₄ = s' := congrArg (fun r => r.2.1) hback
      exact ⟨fun _ _ => hsave, fun _ => hrestored⟩
    · obtain ⟨hrestore, hstays⟩ := hredirected.stays hnew hc hcur hsame hsave
      rw [hrestore] at hback
      obtain rfl : s₃ = s' := congrArg (fun r => r.2.1) hback
      exact ⟨fun h => absurd h hstays, fun h => absurd (h trivial) hsave⟩
  · rw [if_pos (by decide)] at hrest
    have hstill := (sysOpenat_still _ _).err (SameFiles.refl s) hfail
    have hc₁ := (sysOpenat_counted _ _ _).err hc hfail
    have hsame : SameFiles s₁ s' :=
      sameFiles_of_run (outPieces_keeps sysWrite_sameFiles _ _) hrest
    rw [hfail]
    refine ⟨fun _ h => h.elim, fun _ => restored_of_still hc (hsame.counted hc₁) ?_⟩
    exact ⟨hsame.current.trans hstill.current, hsame.holds.trans hstill.holds,
      hstill.files.trans hsame.sameOpen⟩

theorem run_of_fst {σ ε α : Type} {m : Prog σ ε α} {x : σ} {a : α} (h : (m x).1 = .ok a) :
    m x = (.ok a, (m x).2) := Prod.ext h rfl

theorem ttyRun_of_fst {α : Type} {m : TtyM α} {x : Sys × Tty} {a : α} (h : (m x).1 = .ok a) :
    m x = (.ok a, ((m x).2.1, (m x).2.2)) := Prod.ext h rfl

/-- The path "f", the buffer and the newline in the page of the process. -/
def pageStrings : Strings := ⟨0, 0, 16, 8, [], [], []⟩

theorem appendSys_counted : Counted appendSys none where
  ref f _ := by
    have hnone : pointing descriptors appendSys.holds f = 0 := by
      rw [pointing, Finset.card_eq_zero, Finset.filter_eq_empty_iff]
      intro d _ hd
      cases hd
    rw [hnone]
    rfl
  used f _ := by
    constructor
    · intro h
      cases h
    · intro h
      cases h
  lt d _ f hf := by cases hf
  idle d _ h := by
    rcases h with h | h
    · cases h
    · cases h
  current i hi := by
    cases hi
    exact ⟨by decide, rfl⟩

/-- The same process with the file behind its descriptor 1. -/
def outputSys : Sys := (sysDup3 3 1 (sysOpenat atFdcwd 0 (redirectFlags false) appendSys).2).2

theorem outputSys_counted : Counted outputSys none := by
  have hopen : (sysOpenat atFdcwd 0 (redirectFlags false) appendSys).1 = .ok 3 := by
    decide +kernel
  have hdup : (sysDup3 3 1 (sysOpenat atFdcwd 0 (redirectFlags false) appendSys).2).1 = .ok 1 := by
    decide +kernel
  have hcounted := (sysOpenat_counted _ _ _).ok appendSys_counted (run_of_fst hopen)
  exact (sysDup3_counted _ _).ok hcounted (run_of_fst hdup)

end Redirected

end Shell

end OsAgentLab
