/-
The process table in whole runs: one process runs at a time, and a zombie can be given back
as long as nobody ends before its children.
-/
import OsAgentLab.Proc.SlotRun

namespace OsAgentLab

namespace Run

variable {r r' r₀ : Run} {e : Event} {i k : Nat}

section Running

/-- A slot that is running holds the current process. -/
def OneRunning (r : Run) : Prop :=
  ∀ k, (r.sys.procs k).state = .running → r.sys.current = some k

theorem Initial.oneRunning (h : Initial r) : OneRunning r := by
  intro k hk
  rw [h.procs] at hk
  cases hk

theorem Step.oneRunning (hcounted : Counted r.sys none) (h : OneRunning r) (hstep : Step r e r') :
    OneRunning r' := by
  intro k hk
  have hkeeps : (r.sys.procs k).state = .running → r'.sys.current = some k := by
    intro hbefore
    have hcur := h k hbefore
    cases hstep.current hcounted with
    | stays hsame => exact hsame.trans hcur
    | picks _ hidle _ =>
        rw [hidle] at hcur
        cases hcur
    | gives hcur' _ hstate =>
        obtain rfl := Option.some.inj (hcur'.symm.trans hcur)
        rw [hk] at hstate
        rcases hstate with hstate | hstate
        · cases hstate
        · cases hstate
  cases hstep.slot hcounted k with
  | same hstate _ => exact hkeeps (hstate.symm.trans hk)
  | claimed _ _ _ hafter _ => cases hafter.symm.trans hk
  | readied _ _ hafter _ => cases hafter.symm.trans hk
  | selected _ hcur _ _ _ => exact hcur
  | released _ _ hafter _ => cases hafter.symm.trans hk
  | ended _ _ _ hafter _ => cases hafter.symm.trans hk
  | born _ _ _ _ hafter _ => cases hafter.symm.trans hk
  | reaped _ _ _ hafter _ => cases hafter.symm.trans hk

theorem steps_oneRunning {ok : Event → Run → Prop} (hfirst : Initial r₀) (hrun : Steps ok r₀ r) :
    Counted r.sys none ∧ OneRunning r :=
  hrun.invariant (P := fun r => Counted r.sys none ∧ OneRunning r)
    ⟨hfirst.counted, hfirst.oneRunning⟩
    fun _ _ _ h _ hstep => ⟨hstep.counted h.1, hstep.oneRunning h.1 h.2⟩

end Running

section Children

/-- The process in the slot can still call `proc_wait`. -/
def Alive (s : Sys) (k : Nat) : Prop := (s.procs k).state ≠ .unused ∧ (s.procs k).state ≠ .zombie

/-- Every slot in use was filled by `kernel_main`, or it names a parent that is alive. -/
def Attended (r : Run) : Prop :=
  ∀ k, (r.sys.procs k).state ≠ .unused →
    (r.maker k = none ∧ (r.sys.procs k).parent = none) ∨
      ∃ p, (r.sys.procs k).parent = some p ∧ Alive r.sys p

/-- The step ends no process that a slot in use names as its parent. -/
def NoHeirs (e : Event) (r : Run) : Prop :=
  ∀ i, r.sys.current = some i → Ends e r →
    ∀ k, (r.sys.procs k).state ≠ .unused → (r.sys.procs k).parent ≠ some i

/-- Until the scheduler runs nobody was forked, and it runs before anybody is current. -/
structure Booted (r : Run) : Prop where
  maker : r.booting = true → ∀ k, r.maker k = none
  current : ∀ i, r.sys.current = some i → r.booting = false

theorem Initial.booted (h : Initial r) (hmaker : ∀ k, r.maker k = none) : Booted r where
  maker _ := hmaker
  current i hi := by
    rw [h.current] at hi
    cases hi

theorem Step.booted (h : Booted r) (hcounted : Counted r.sys none) (hstep : Step r e r') :
    Booted r' := by
  have hboot : r'.booting = true → r.booting = true := by
    intro hboot
    cases hstep with
    | schedule => cases hboot
    | _ => exact hboot
  refine ⟨fun hbooting k => ?_, fun i hi => ?_⟩
  · have hmaker := h.maker (hboot hbooting) k
    cases hstep.links hcounted with
    | calm _ hsame => rw [hsame, hmaker]
    | forked hcur _ _ =>
        rw [h.current _ hcur] at hboot
        exact absurd (hboot hbooting) (by decide)
    | reaped _ _ _ _ hsame _ => rw [hsame, hmaker]
  · have hcases : r'.booting = false ∨ r'.booting = r.booting := by
      cases hstep with
      | schedule => exact Or.inl rfl
      | _ => exact Or.inr rfl
    rcases hcases with hfalse | hsame
    · exact hfalse
    · rw [hsame]
      cases hstep.current hcounted with
      | stays hcur => exact h.current i (hcur.symm.trans hi)
      | picks he _ _ =>
          subst he
          cases hstep
          exact hsame.symm
      | gives hcur _ _ => exact h.current _ hcur

/-- A step that makes a process leaves the others with their makers. -/
theorem Step.maker_of_used (hcounted : Counted r.sys none) (hstep : Step r e r')
    (hused : (r.sys.procs k).state ≠ .unused) : r'.maker k = r.maker k := by
  cases hstep.links hcounted with
  | calm _ hsame => rw [hsame]
  | @forked i j _ hforked hmaker =>
      have hkj : k ≠ j := fun heq => hused (heq ▸ (procFindUnused_some hforked.find).2)
      rw [hmaker, Function.update_of_ne hkj]
  | reaped _ _ _ _ hsame _ => rw [hsame]

/-- A parent stays alive, unless the step ends it. -/
theorem Step.alive {p : Nat} (hcounted : Counted r.sys none) (hok : NoHeirs e r)
    (hstep : Step r e r') (hused : (r.sys.procs k).state ≠ .unused)
    (hparent : (r.sys.procs k).parent = some p) (h : Alive r.sys p) : Alive r'.sys p := by
  have hstate : ∀ {state : ProcState}, (r'.sys.procs p).state = state → state ≠ .unused →
      state ≠ .zombie → Alive r'.sys p := by
    rintro _ rfl hunused hzombie
    exact ⟨hunused, hzombie⟩
  cases hstep.slot hcounted p with
  | same hsame _ => exact hstate hsame h.1 h.2
  | claimed _ _ hbefore _ _ => exact absurd hbefore h.1
  | readied _ _ hafter _ => exact hstate hafter (by decide) (by decide)
  | selected _ _ _ hafter _ => exact hstate hafter (by decide) (by decide)
  | released _ _ hafter _ => exact hstate hafter (by decide) (by decide)
  | ended hcur _ he _ _ => exact absurd hparent (hok p hcur he k hused)
  | born _ _ _ hbefore _ _ => exact absurd hbefore h.1
  | reaped _ _ hbefore _ _ => exact absurd hbefore h.2

/-- A step that ends no parent keeps everyone attended. -/
theorem Step.attended (hcounted : Counted r.sys none) (hbooted : Booted r) (h : Attended r)
    (hok : NoHeirs e r) (hstep : Step r e r') : Attended r' := by
  intro k hk
  have hkeeps : (r.sys.procs k).state ≠ .unused →
      (r'.sys.procs k).parent = (r.sys.procs k).parent →
      (r'.maker k = none ∧ (r'.sys.procs k).parent = none) ∨
        ∃ p, (r'.sys.procs k).parent = some p ∧ Alive r'.sys p := by
    intro hused hparent
    rw [hparent, hstep.maker_of_used hcounted hused]
    rcases h k hused with hfirst | ⟨p, hp, halive⟩
    · exact Or.inl hfirst
    · exact Or.inr ⟨p, hp, hstep.alive hcounted hok hused hp halive⟩
  cases hstep.slot hcounted k with
  | same hstate hparent =>
      have hused : (r.sys.procs k).state ≠ .unused := hstate ▸ hk
      exact hkeeps hused (hparent hused)
  | claimed _ hboot _ _ hparent =>
      refine Or.inl ⟨?_, hparent⟩
      cases hstep.links hcounted with
      | calm _ hsame => rw [hsame, hbooted.maker hboot]
      | forked hcur _ _ =>
          rw [hbooted.current _ hcur] at hboot
          cases hboot
      | reaped _ _ _ _ hsame _ => rw [hsame, hbooted.maker hboot]
  | readied _ hbefore _ hparent => exact hkeeps (by simp [hbefore]) hparent
  | selected _ _ hbefore _ hparent => exact hkeeps (by simp [hbefore]) hparent
  | released hcur _ _ hparent => exact hkeeps (by simp [(hcounted.current k hcur).2]) hparent
  | ended hcur _ _ _ hparent => exact hkeeps (by simp [(hcounted.current k hcur).2]) hparent
  | @born i _ hcur hstays _ _ hparent =>
      refine Or.inr ⟨i, hparent, ?_⟩
      have hrunning := (hcounted.current i hcur).2
      cases hstep.slot hcounted i with
      | same hsame _ => exact ⟨by simp [hsame, hrunning], by simp [hsame, hrunning]⟩
      | claimed _ _ hbefore _ _ => cases hbefore.symm.trans hrunning
      | readied _ hbefore _ _ => cases hbefore.symm.trans hrunning
      | selected _ _ hbefore _ _ => cases hbefore.symm.trans hrunning
      | released _ hidle _ _ => cases hidle.symm.trans hstays
      | ended _ hidle _ _ _ => cases hidle.symm.trans hstays
      | born _ _ _ hbefore _ _ => cases hbefore.symm.trans hrunning
      | reaped _ _ hbefore _ _ => cases hbefore.symm.trans hrunning
  | reaped _ _ _ hafter _ => exact absurd hafter hk

/-- Who ends is a zombie. -/
theorem Step.zombie (hends : Ends e r) (hcur : r.sys.current = some i) (hstep : Step r e r') :
    r'.sys.current = none ∧ (r'.sys.procs i).state = .zombie := by
  rcases hends with ⟨status, rfl⟩ | ⟨c, s', rfl, hfault⟩
  · cases hstep with
    | exit hcur' hwait hrun =>
        obtain rfl := Option.some.inj (hcur'.symm.trans hcur)
        obtain ⟨hidle, hzombie, _⟩ := procExit_link hrun
        exact ⟨hidle, hzombie⟩
  · cases hstep with
    | call hcur' hwait hrun hreturns =>
        obtain rfl := (Prod.mk.inj (hrun.symm.trans hfault)).1
        rcases hreturns with hval | herr
        · cases hval
        · cases herr
    | trap hcur' hwait hrun hexit =>
        obtain rfl := Option.some.inj (hcur'.symm.trans hcur)
        obtain ⟨hidle, hzombie, _⟩ := procExit_link hexit
        exact ⟨hidle, hzombie⟩

/-- Whoever ends before a child leaves that child without a parent that could wait for it. -/
theorem Step.noHeirs_of_attended (hcounted : Counted r.sys none) (h : Attended r')
    (hstep : Step r e r') : NoHeirs e r := by
  intro i hcur hends k hk hparent
  obtain ⟨hidle, hzombie⟩ := hstep.zombie hends hcur
  have hlost : (r'.sys.procs k).state ≠ .unused →
      (r'.sys.procs k).parent = (r.sys.procs k).parent → False := by
    intro hused hsame
    rw [hparent] at hsame
    rcases h k hused with ⟨_, hnone⟩ | ⟨p, hp, halive⟩
    · rw [hsame] at hnone
      cases hnone
    · obtain rfl := Option.some.inj (hsame.symm.trans hp)
      exact halive.2 hzombie
  cases hstep.slot hcounted k with
  | same hstate hsame => exact hlost (hstate ▸ hk) (hsame hk)
  | claimed _ _ hbefore _ _ => exact hk hbefore
  | readied _ _ hafter hsame => exact hlost (by simp [hafter]) hsame
  | selected _ _ _ hafter hsame => exact hlost (by simp [hafter]) hsame
  | released _ _ hafter hsame => exact hlost (by simp [hafter]) hsame
  | ended _ _ _ hafter hsame => exact hlost (by simp [hafter]) hsame
  | born _ _ _ hbefore _ _ => exact hk hbefore
  | reaped _ hstays _ _ _ => cases hidle.symm.trans hstays

/-- Slots in use lie in the table. -/
def InTable (r : Run) : Prop := ∀ k, (r.sys.procs k).state ≠ .unused → k < nproc

theorem Step.inTable (hcounted : Counted r.sys none) (h : InTable r) (hstep : Step r e r') :
    InTable r' := by
  intro k hk
  cases hstep.slot hcounted k with
  | same hstate _ => exact h k (hstate ▸ hk)
  | claimed hlt _ _ _ _ => exact hlt
  | readied _ hbefore _ _ => exact h k (by simp [hbefore])
  | selected _ _ hbefore _ _ => exact h k (by simp [hbefore])
  | released hcur _ _ _ => exact h k (by simp [(hcounted.current k hcur).2])
  | ended hcur _ _ _ _ => exact h k (by simp [(hcounted.current k hcur).2])
  | born hlt _ _ _ _ _ => exact hlt
  | reaped _ _ _ hafter _ => exact absurd hafter hk

theorem procReap_run (s : Sys) (c : Nat) :
    ∃ s', procReap c s = (.ok ((s.procs c).pid, (s.procs c).exitStatus), s') := by
  obtain ⟨_, mm₁, hfree⟩ := delivers_run (delivers_uvmFree (s.procs c).pagetable) s.mm
  obtain ⟨_, mm₂, hkfree⟩ := delivers_run (delivers_kfree (s.procs c).tf) mm₁
  have hfirst : onMm (uvmFree (s.procs c).pagetable) s = (.ok (), { s with mm := mm₁ }) :=
    Prog.zoom_apply hfree
  have hsecond : onMm (kfree (s.procs c).tf) { s with mm := mm₁ } =
      (.ok (), { s with mm := mm₂ }) :=
    Prog.zoom_apply hkfree
  rw [procReap, Prog.get_bind, Prog.bind_ok hfirst, Prog.bind_ok hsecond, Prog.modify_bind]
  exact ⟨_, rfl⟩

/-- A parent that waits for any child gets a zombie as long as it has one. -/
theorem procWaitPass_zombie {s : Sys} {p : Nat} (hlt : k < nproc)
    (hzombie : (s.procs k).state = .zombie) (hparent : (s.procs k).parent = some p) :
    ∃ c v s', procWaitPass p (-1) s = (.ok (some v), s') ∧ (s.procs c).parent = some p ∧
      (s.procs c).state = .zombie ∧ v = ((s.procs c).pid, (s.procs c).exitStatus) ∧
        Reaped s c s' := by
  have hreapable : isReapable s p (-1) k = true := by
    simp [isReapable, isChild, hparent, hzombie]
  obtain ⟨c, hc⟩ : ∃ c, waitZombie s p (-1) = some c := by
    rw [← Option.isSome_iff_exists, waitZombie, List.find?_isSome]
    exact ⟨k, List.mem_range.mpr hlt, hreapable⟩
  obtain ⟨_, hcparent, _, hczombie⟩ := waitZombie_some hc
  obtain ⟨s', hreap⟩ := procReap_run s c
  have hrun : procWaitPass p (-1) s =
      (.ok (some ((s.procs c).pid, (s.procs c).exitStatus)), s') := by
    rw [procWaitPass, Prog.get_bind, hc, Option.elim_some, Prog.bind_ok hreap, Prog.pure_apply]
  obtain ⟨d, hd, _, hreaped⟩ := (procWaitPass_links p (-1)).ok rfl hrun
  obtain rfl := Option.some.inj (hd.symm.trans hc)
  exact ⟨d, _, s', hrun, hcparent, hczombie, rfl, hreaped⟩

end Children

end Run

end OsAgentLab
