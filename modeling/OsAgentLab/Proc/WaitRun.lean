/-
`proc_wait` over runs: when the caller has a child that matches the pid it waits for,
the child stays in its slot until the wait is over, and every yield waits for it.
-/
import OsAgentLab.Proc.ParentRun

namespace OsAgentLab

/-- A slot in use holds a child of the process in slot `i` that matches `pid`. -/
def HasMatch (s : Sys) (i : Nat) (pid : Int) : Prop :=
  ∃ c < nproc, isChild s i c = true ∧ (pid = -1 ∨ (s.procs c).pid = pid)

/-- No slot in use holds a child. -/
def NoChild (s : Sys) (i : Nat) : Prop := ∀ c < nproc, isChild s i c = false

/-- One round of `proc_wait`: without a matching child it fails at once, and if it yields
a matching child is alive. -/
structure WaitSound (s : Sys) (i : Nat) (pid : Int) : Prop where
  fails : pid ≠ -1 → ¬ HasMatch s i pid → procWaitPass i pid s = (.err .child, s)
  waits : ∀ s', procWaitPass i pid s = (.ok none, s') →
    ∃ c < nproc, isChild s i c = true ∧ (pid = -1 ∨ (s.procs c).pid = pid) ∧
      (s.procs c).state ≠ .zombie

section Round

variable {s s' : Sys} {i : Nat} {pid : Int}

/-- Without a zombie that matches, any child at all makes the round yield. -/
theorem procWaitPass_none (h : waitZombie s i pid = none) :
    procWaitPass i pid s =
      if (List.range nproc).any (isChild s i) then (.ok none, s) else (.err .child, s) := by
  rw [procWaitPass, Prog.get_bind, h, Option.elim_none]
  split <;> rfl

theorem waitZombie_none (h : waitZombie s i pid = none) :
    ∀ c < nproc, isChild s i c = true → (pid = -1 ∨ (s.procs c).pid = pid) →
      (s.procs c).state ≠ .zombie := by
  intro c hc hchild hpid hzombie
  have hnot := List.find?_eq_none.mp h c (List.mem_range.mpr hc)
  simp only [isReapable, hchild, hpid, hzombie, decide_true, Bool.and_self, not_true_eq_false] at hnot

theorem noChild_iff : NoChild s i ↔ (List.range nproc).any (isChild s i) = false := by
  rw [NoChild, List.any_eq_false]
  simp only [List.mem_range, Bool.not_eq_true]

theorem NoChild.zombie (h : NoChild s i) : waitZombie s i pid = none := by
  refine List.find?_eq_none.mpr fun c hc => ?_
  rw [isReapable, h c (List.mem_range.mp hc)]
  simp

theorem not_hasMatch_zombie (h : ¬ HasMatch s i pid) : waitZombie s i pid = none := by
  refine List.find?_eq_none.mpr fun c hc hreap => h ⟨c, List.mem_range.mp hc, ?_⟩
  simp only [isReapable, Bool.and_eq_true, decide_eq_true_eq] at hreap
  exact ⟨hreap.1.1, hreap.1.2⟩

/-- A round yields only with a child in the table. -/
theorem not_noChild_of_yield (h : procWaitPass i pid s = (.ok none, s')) : ¬ NoChild s i := by
  intro hnone
  rw [procWaitPass_none hnone.zombie, noChild_iff.mp hnone] at h
  cases h

/-- A round that yields has found no zombie that matches. -/
theorem zombie_none_of_yield (h : procWaitPass i pid s = (.ok none, s')) :
    waitZombie s i pid = none := by
  cases hzombie : waitZombie s i pid with
  | none => rfl
  | some c =>
      rw [procWaitPass, Prog.get_bind, hzombie, Option.elim_some] at h
      obtain ⟨r, t, -, hdone⟩ := Prog.of_bind_ok h
      cases hdone

/-- A round does what is expected exactly when the caller has a child that matches, or
none at all. -/
theorem waitSound_iff : WaitSound s i pid ↔ HasMatch s i pid ∨ NoChild s i := by
  constructor
  · intro h
    by_contra hnot
    obtain ⟨hmatch, hchild⟩ := not_or.mp hnot
    have hany : (List.range nproc).any (isChild s i) = true := by
      rw [← Bool.not_eq_false]
      exact fun heq => hchild (noChild_iff.mpr heq)
    have hyield : procWaitPass i pid s = (.ok none, s) := by
      rw [procWaitPass_none (not_hasMatch_zombie hmatch), hany]
      rfl
    obtain ⟨c, hc, hisChild, hpid, -⟩ := h.waits s hyield
    exact hmatch ⟨c, hc, hisChild, hpid⟩
  · rintro (⟨c, hc, hchild, hpid⟩ | hnone)
    · refine ⟨fun _ hmatch => absurd ⟨c, hc, hchild, hpid⟩ hmatch, fun s' hyield => ?_⟩
      exact ⟨c, hc, hchild, hpid, waitZombie_none (zombie_none_of_yield hyield) c hc hchild hpid⟩
    · refine ⟨fun _ _ => ?_, fun s' hyield => absurd hnone (not_noChild_of_yield hyield)⟩
      rw [procWaitPass_none hnone.zombie, noChild_iff.mp hnone]
      rfl

end Round

namespace Run

variable {r r' : Run}

/-- A wait begins with a child that matches, or without any child. -/
def WaitsForChild (e : Event) (r : Run) : Prop :=
  ∀ i pid, e = .wait pid → r.sys.current = some i → r.waiting i = none →
    HasMatch r.sys i pid ∨ NoChild r.sys i

/-- Who waits has a child that matches. -/
def Awaited (r : Run) : Prop := ∀ i pid, r.waiting i = some pid → HasMatch r.sys i pid

theorem isChild_iff {s : Sys} {i c : Nat} :
    isChild s i c = true ↔ (s.procs c).parent = some i ∧ (s.procs c).state ≠ .unused := by
  rw [isChild, Bool.and_eq_true, decide_eq_true_eq, decide_eq_true_eq]

/-- A child whose slot keeps its link still matches. -/
theorem hasMatch_of_kept {s s' : Sys} {i c : Nat} {pid : Int} (hc : c < nproc)
    (hchild : isChild s i c = true) (hpid : pid = -1 ∨ (s.procs c).pid = pid)
    (hsame : (s'.procs c).pid = (s.procs c).pid) (hparent : (s'.procs c).parent = (s.procs c).parent)
    (hstate : (s'.procs c).state = .unused ↔ (s.procs c).state = .unused) :
    HasMatch s' i pid := by
  obtain ⟨hmine, hlive⟩ := isChild_iff.mp hchild
  exact ⟨c, hc, isChild_iff.mpr ⟨hparent.trans hmine, fun h => hlive (hstate.mp h)⟩, hsame ▸ hpid⟩

/-- A matching child stays, unless the step gives back its slot for the caller. -/
theorem hasMatch_step {e : Event} {i : Nat} {pid : Int} (hlink : LinkStep r e r')
    (hmatch : HasMatch r.sys i pid) (hwaiting : r'.waiting i ≠ none) : HasMatch r'.sys i pid := by
  obtain ⟨c, hc, hchild, hpid⟩ := hmatch
  obtain ⟨hmine, hlive⟩ := isChild_iff.mp hchild
  cases hlink with
  | calm hcalm _ =>
      rcases hcalm c with ⟨hsame, hparent, hstate⟩ | ⟨hunused, -⟩
      · exact hasMatch_of_kept hc hchild hpid hsame hparent hstate
      · exact absurd hunused hlive
  | @forked j k hcur hforked _ =>
      have hck : c ≠ k := fun heq => hlive (heq ▸ (procFindUnused_some hforked.find).2)
      rcases hforked.link c hck with hkept | ⟨hunused, -⟩
      · obtain ⟨hsame, hparent, hstate⟩ := calm_of_link hkept
        exact hasMatch_of_kept hc hchild hpid hsame hparent hstate
      · exact absurd hunused hlive
  | @reaped j d pid' he hcur hzombie hreaped _ hdone =>
      have hcd : c ≠ d := by
        rintro rfl
        have hparent := (waitZombie_some hzombie).2.1
        rw [hmine] at hparent
        exact hwaiting (Option.some.inj hparent ▸ hdone)
      obtain ⟨hsame, hparent, hstate⟩ := calm_of_link (hreaped.link c hcd)
      exact hasMatch_of_kept hc hchild hpid hsame hparent hstate

/-- A step that leaves a process waiting found it so, or is a round that yields. -/
theorem Step.waiting_cases {e : Event} (hstep : Step r e r') {i : Nat} {pid : Int}
    (h : r'.waiting i = some pid) : r.waiting i = some pid ∨
      e = .wait pid ∧ r.sys.current = some i ∧ (r.waiting i = none ∨ r.waiting i = some pid) ∧
        ∃ s', procWaitPass i pid r.sys = (.ok none, s') := by
  cases hstep with
  | @wait j pid' _ _ hcur hwait hrun hreturns hdone =>
      change Function.update r.waiting j none i = some pid at h
      by_cases hij : i = j
      · subst hij
        rw [Function.update_self] at h
        cases h
      · rw [Function.update_of_ne hij] at h
        exact Or.inl h
  | @waitYields j pid' s' _ hcur hwait hrun hyield =>
      change Function.update r.waiting j (some pid') i = some pid at h
      by_cases hij : i = j
      · subst hij
        rw [Function.update_self] at h
        obtain rfl := Option.some.inj h
        exact Or.inr ⟨rfl, hcur, hwait, s', hrun⟩
      · rw [Function.update_of_ne hij] at h
        exact Or.inl h
  | _ => exact Or.inl h

/-- One step keeps a matching child for everyone who waits. -/
theorem Step.awaited {e : Event} (hcounted : Counted r.sys none) (h : Awaited r)
    (hok : WaitsForChild e r) (hstep : Step r e r') : Awaited r' := by
  intro i pid hwaiting
  have hmatch : HasMatch r.sys i pid := by
    rcases hstep.waiting_cases hwaiting with hbefore | ⟨he, hcur, hbegin, s', hyield⟩
    · exact h i pid hbefore
    · rcases hbegin with hnone | hsome
      · exact (hok i pid he hcur hnone).resolve_right (not_noChild_of_yield hyield)
      · exact h i pid hsome
  refine hasMatch_step (hstep.links hcounted) hmatch ?_
  rw [hwaiting]
  exact Option.some_ne_none pid

theorem awaited_of_waitsForChild (hfirst : Initial r) (hrun : Steps WaitsForChild r r') :
    Awaited r' := by
  have hinv : Counted r'.sys none ∧ Awaited r' :=
    Steps.invariant (P := fun r => Counted r.sys none ∧ Awaited r) hrun
      ⟨hfirst.counted, fun i pid h => by rw [hfirst.waiting i] at h; cases h⟩
      fun _ _ _ h hok hstep => ⟨hstep.counted h.1, hstep.awaited h.1 h.2 hok⟩
  exact hinv.2

section Sample

/-- A process in slot 0 with one child, the process 2. -/
def oneChild : Sys :=
  { bootRun.sys with
    procs := Function.update (Function.update (fun _ => Proc.zero)
      0 { Proc.zero with state := .running, pid := 1 })
      1 { Proc.zero with state := .runnable, pid := 2, parent := some 0 }
    current := some 0
    nextPid := 3 }

end Sample

end Run

end OsAgentLab
