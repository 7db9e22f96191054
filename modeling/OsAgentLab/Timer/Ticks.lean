/-
No tick is lost: the comparator and the pending bit always agree with the next
deadline, and every deadline is counted once, in order, when it is due.
-/
import OsAgentLab.Timer.Hart

namespace OsAgentLab

/-- Comparator and pending bit while the kernel waits for the next deadline: the
deadline is armed, or it has passed and the firmware has parked the comparator. -/
def Armed (s : TimerState) : Prop :=
  s.hart.stip = false ∧ s.hart.mtimecmp = s.vars.nextDeadline ∨
    s.hart.stip = true ∧ s.hart.mtimecmp = allOnes ∧ s.vars.nextDeadline ≤ s.hart.mtime

/-- The firmware has parked the comparator and raised the pending bit. -/
def Parked (s : TimerState) : Prop := s.hart.stip = true ∧ s.hart.mtimecmp = allOnes

/-- What holds in each phase of `timer_handle`, for the first deadline `d₀`. -/
def PhaseInv (d₀ : Nat) (s : TimerState) : Prop :=
  match s.phase with
  | .outside => Armed s ∧ s.vars.nextDeadline = d₀ + s.vars.ticks * s.vars.interval
  | .entered => (Parked s ∧ s.vars.nextDeadline ≤ s.hart.mtime) ∧
      s.vars.nextDeadline = d₀ + s.vars.ticks * s.vars.interval
  | .counted => Parked s ∧
      s.vars.nextDeadline + s.vars.interval = d₀ + s.vars.ticks * s.vars.interval
  | .advanced => Parked s ∧ s.vars.nextDeadline = d₀ + s.vars.ticks * s.vars.interval
  | .armed => Armed s ∧ s.vars.nextDeadline = d₀ + s.vars.ticks * s.vars.interval

/-- The invariant of the timer. -/
structure TimerInv (d₀ width : Nat) (s : TimerState) : Prop where
  interval : s.vars.interval = width
  pos : 0 < width
  first : width ≤ d₀
  lt : s.vars.nextDeadline < 2 ^ 64
  phase : PhaseInv d₀ s
  ticks : s.vars.ticks = s.log.length
  deadlines : s.log.map Prod.snd = (List.range s.log.length).map fun k => d₀ + k * width
  due : ∀ e ∈ s.log, e.2 ≤ e.1

variable {s s' : TimerState} {d₀ width : Nat} {h h' : Hart} {tf tf' : MtrapFrame}

section Handler

theorem mtrapHandler_machine (hcause : tf.mcause = machineTimer)
    (hrun : mtrapHandler h tf = some (h', tf')) :
    h' = { h with mtimecmp := allOnes, stip := true } := by
  rw [mtrapHandler, hcause, if_pos (by decide), if_pos (by decide)] at hrun
  exact (Prod.mk.inj (Option.some.inj hrun)).1.symm

/-- The call of the firmware arms the deadline and clears the pending bit. -/
theorem sbiSetTimer_eq (h : Hart) (stime : Nat) :
    sbiSetTimer h stime = some { h with mtimecmp := stime, stip := false } := by
  rw [sbiSetTimer, mtrapHandler, if_neg (by simp [setTimerFrame]),
    if_pos (show (setTimerFrame stime).mcause = 9 from rfl),
    if_pos (show (setTimerFrame stime).a7 = sbiExtTime ∧ (setTimerFrame stime).a6 = 0 from
      ⟨rfl, rfl⟩)]
  rfl

theorem timerInterval_pos (rates : Nat × Nat) : 0 < timerInterval rates := by
  unfold timerInterval
  split
  · exact Nat.one_pos
  · exact Nat.pos_of_ne_zero ‹_›

end Handler

section Invariant

/-- `timer_init` establishes the invariant. -/
theorem timerInit_inv {bi : Option (Nat × Nat)} {delay : Nat}
    (hwrap : h.mtime + timerInterval (timerRates bi) < 2 ^ 64)
    (hinit : timerInit bi delay h = some s) :
    TimerInv (h.mtime + timerInterval (timerRates bi)) (timerInterval (timerRates bi)) s := by
  rw [timerInit, sbiSetTimer_eq, Option.map_some] at hinit
  obtain rfl := Option.some.inj hinit
  have hdeadline : u64 (h.mtime + timerInterval (timerRates bi)) =
      h.mtime + timerInterval (timerRates bi) := u64_of_lt hwrap
  refine ⟨rfl, timerInterval_pos _, Nat.le_add_left _ _, ?_, ⟨Or.inl ⟨rfl, rfl⟩, ?_⟩, rfl, rfl, ?_⟩
  · exact Nat.mod_lt _ (by decide)
  · simp only [hdeadline]
    omega
  · exact fun e he => by cases he

/-- The firmware's interrupt parks a comparator that is due. -/
theorem PhaseInv.machine (hinv : PhaseInv d₀ s) (hdue : s.hart.mtimecmp ≤ s.hart.mtime) :
    PhaseInv d₀ { s with hart := { s.hart with mtimecmp := allOnes, stip := true } } := by
  have harmed : Armed s →
      Armed { s with hart := { s.hart with mtimecmp := allOnes, stip := true } } := by
    rintro (⟨_, hcmp⟩ | ⟨_, _, hle⟩)
    · exact Or.inr ⟨rfl, rfl, hcmp ▸ hdue⟩
    · exact Or.inr ⟨rfl, rfl, hle⟩
  cases hphase : s.phase with
  | outside =>
      simp only [PhaseInv, hphase] at hinv ⊢
      exact ⟨harmed hinv.1, hinv.2⟩
  | entered =>
      simp only [PhaseInv, hphase] at hinv ⊢
      exact ⟨⟨⟨rfl, rfl⟩, hinv.1.2⟩, hinv.2⟩
  | counted =>
      simp only [PhaseInv, hphase] at hinv ⊢
      exact ⟨⟨rfl, rfl⟩, hinv.2⟩
  | advanced =>
      simp only [PhaseInv, hphase] at hinv ⊢
      exact ⟨⟨rfl, rfl⟩, hinv.2⟩
  | armed =>
      simp only [PhaseInv, hphase] at hinv ⊢
      exact ⟨harmed hinv.1, hinv.2⟩

/-- A deadline that has passed stays so. -/
theorem PhaseInv.time {t : Nat} (hinv : PhaseInv d₀ s) (hle : s.hart.mtime ≤ t) :
    PhaseInv d₀ { s with hart := { s.hart with mtime := t } } := by
  have harmed : Armed s → Armed { s with hart := { s.hart with mtime := t } } := by
    rintro (hwait | ⟨hstip, hcmp, hdue⟩)
    · exact Or.inl hwait
    · exact Or.inr ⟨hstip, hcmp, Nat.le_trans hdue hle⟩
  cases hphase : s.phase with
  | outside =>
      simp only [PhaseInv, hphase] at hinv ⊢
      exact ⟨harmed hinv.1, hinv.2⟩
  | entered =>
      simp only [PhaseInv, hphase] at hinv ⊢
      exact ⟨⟨hinv.1.1, Nat.le_trans hinv.1.2 hle⟩, hinv.2⟩
  | counted =>
      simp only [PhaseInv, hphase] at hinv ⊢
      exact hinv
  | advanced =>
      simp only [PhaseInv, hphase] at hinv ⊢
      exact hinv
  | armed =>
      simp only [PhaseInv, hphase] at hinv ⊢
      exact ⟨harmed hinv.1, hinv.2⟩

/-- Every step keeps the invariant. -/
theorem TimerInv.step (hinv : TimerInv d₀ width s) (hstep : TimerStep s s') :
    TimerInv d₀ width s' := by
  cases hstep with
  | time hle hlt =>
      exact ⟨hinv.interval, hinv.pos, hinv.first, hinv.lt, hinv.phase.time hle, hinv.ticks,
        hinv.deadlines, hinv.due⟩
  | machine hdue hcause hrun =>
      rw [mtrapHandler_machine hcause hrun]
      exact ⟨hinv.interval, hinv.pos, hinv.first, hinv.lt, hinv.phase.machine hdue, hinv.ticks,
        hinv.deadlines, hinv.due⟩
  | supervisor hphase hpending =>
      refine ⟨hinv.interval, hinv.pos, hinv.first, hinv.lt, ?_, hinv.ticks, hinv.deadlines,
        hinv.due⟩
      have hold := hinv.phase
      simp only [PhaseInv, hphase] at hold ⊢
      rcases hold.1 with ⟨hclear, _⟩ | ⟨hstip, hcmp, hdue⟩
      · rw [hpending] at hclear
        cases hclear
      · exact ⟨⟨⟨hstip, hcmp⟩, hdue⟩, hold.2⟩
  | count hphase =>
      have hold := hinv.phase
      simp only [PhaseInv, hphase] at hold
      obtain ⟨⟨hparked, hdue⟩, hdeadline⟩ := hold
      have hticks : s.vars.ticks + 1 < 2 ^ 64 := by
        have hmul : s.vars.ticks * 1 ≤ s.vars.ticks * s.vars.interval :=
          Nat.mul_le_mul_left _ (hinv.interval ▸ hinv.pos)
        have hlt := hinv.lt
        have hfirst := hinv.first
        have hpos := hinv.pos
        omega
      have hu64 : u64 (s.vars.ticks + 1) = s.vars.ticks + 1 := u64_of_lt hticks
      refine ⟨hinv.interval, hinv.pos, hinv.first, hinv.lt, ⟨hparked, ?_⟩, ?_, ?_, ?_⟩
      · simp only [hu64, Nat.succ_mul]
        omega
      · simp only [List.length_append, List.length_singleton]
        rw [hu64, hinv.ticks]
      · rw [List.map_append, hinv.deadlines, List.length_append, List.length_singleton,
          List.range_succ, List.map_append, List.map_singleton, List.map_singleton]
        rw [hdeadline, hinv.interval, hinv.ticks]
      · intro e he
        rcases List.mem_append.mp he with he | he
        · exact hinv.due e he
        · rw [List.mem_singleton.mp he]
          exact hdue
  | advance hphase hwrap =>
      have hold := hinv.phase
      simp only [PhaseInv, hphase] at hold
      have hu64 : u64 (s.vars.nextDeadline + s.vars.interval) =
          s.vars.nextDeadline + s.vars.interval := u64_of_lt hwrap
      refine ⟨hinv.interval, hinv.pos, hinv.first, ?_, ⟨hold.1, ?_⟩, hinv.ticks, hinv.deadlines,
        hinv.due⟩
      · simp only [hu64]
        exact hwrap
      · simp only [hu64]
        exact hold.2
  | arm hphase hrun =>
      rw [sbiSetTimer_eq] at hrun
      obtain rfl := Option.some.inj hrun
      have hold := hinv.phase
      simp only [PhaseInv, hphase] at hold
      exact ⟨hinv.interval, hinv.pos, hinv.first, hinv.lt, ⟨Or.inl ⟨rfl, rfl⟩, hold.2⟩, hinv.ticks,
        hinv.deadlines, hinv.due⟩
  | leave hphase =>
      have hold := hinv.phase
      simp only [PhaseInv, hphase] at hold
      exact ⟨hinv.interval, hinv.pos, hinv.first, hinv.lt, hold, hinv.ticks, hinv.deadlines,
        hinv.due⟩

theorem TimerInv.steps (hinv : TimerInv d₀ width s) (hsteps : TimerSteps s s') :
    TimerInv d₀ width s' := by
  induction hsteps with
  | refl => exact hinv
  | tail _ hlast ih => exact ih.step hlast

theorem TimerSteps.trans {s'' : TimerState} (hfst : TimerSteps s s') (hsnd : TimerSteps s' s'') :
    TimerSteps s s'' := by
  induction hsnd with
  | refl => exact hfst
  | tail _ hlast ih => exact ih.tail hlast

end Invariant

section CatchUp

/-- A state that the system reaches by itself, before time goes on. -/
structure Handled (s s' : TimerState) (ticks : Nat) : Prop where
  steps : TimerSteps s s'
  mtime : s'.hart.mtime = s.hart.mtime
  phase : s'.phase = .outside
  ticks : s'.vars.ticks = ticks

/-- From inside the handler, after the counting, to its end. -/
theorem TimerInv.finish_advanced (hphase : s.phase = .advanced) :
    ∃ s', Handled s s' s.vars.ticks := by
  have harm := TimerStep.arm hphase (sbiSetTimer_eq s.hart s.vars.nextDeadline)
  exact ⟨_, ((TimerSteps.refl s).tail harm).tail (.leave rfl), rfl, rfl, rfl⟩

theorem TimerInv.finish_counted (hphase : s.phase = .counted)
    (hwrap : s.vars.nextDeadline + s.vars.interval < 2 ^ 64) :
    ∃ s', Handled s s' s.vars.ticks := by
  have hadvance := TimerStep.advance hphase hwrap
  obtain ⟨s', hdone⟩ := TimerInv.finish_advanced (s := { s with
    phase := .advanced
    vars := { s.vars with nextDeadline := u64 (s.vars.nextDeadline + s.vars.interval) } }) rfl
  exact ⟨s', ((TimerSteps.refl s).tail hadvance).trans hdone.steps, hdone.mtime, hdone.phase,
    hdone.ticks⟩

theorem TimerInv.finish_entered (hinv : TimerInv d₀ width s) (hphase : s.phase = .entered)
    (hwrap : s.vars.nextDeadline + s.vars.interval < 2 ^ 64) :
    ∃ s', Handled s s' (s.vars.ticks + 1) := by
  have hcount := TimerStep.count hphase
  have hticks : u64 (s.vars.ticks + 1) = s.vars.ticks + 1 := by
    have hnext := (hinv.step hcount).ticks
    rw [List.length_append, List.length_singleton, ← hinv.ticks] at hnext
    exact hnext
  obtain ⟨s', hdone⟩ := TimerInv.finish_counted (s := { s with
    phase := .counted
    vars := { s.vars with ticks := u64 (s.vars.ticks + 1) }
    log := s.log ++ [(s.hart.mtime, s.vars.nextDeadline)] }) rfl hwrap
  exact ⟨s', ((TimerSteps.refl s).tail hcount).trans hdone.steps, hdone.mtime, hdone.phase,
    hdone.ticks.trans hticks⟩

/-- A deadline that has passed is pending: the handler is entered. -/
theorem TimerInv.enter (hinv : TimerInv d₀ width s) (hphase : s.phase = .outside)
    (hdue : s.vars.nextDeadline ≤ s.hart.mtime) :
    ∃ s', TimerSteps s s' ∧ s'.phase = .entered ∧ s'.hart.mtime = s.hart.mtime ∧
      s'.vars = s.vars := by
  have hold := hinv.phase
  simp only [PhaseInv, hphase] at hold
  rcases hold.1 with ⟨_, hcmp⟩ | ⟨hstip, _⟩
  · have hmachine : TimerStep s
        { s with hart := { s.hart with mtimecmp := allOnes, stip := true } } :=
      .machine (hcmp ▸ hdue) (show (MtrapFrame.mk 0 0 0 0 0 machineTimer).mcause = machineTimer from
        rfl) rfl
    exact ⟨_, ((TimerSteps.refl s).tail hmachine).tail (.supervisor hphase rfl), rfl, rfl, rfl⟩
  · exact ⟨_, (TimerSteps.refl s).tail (.supervisor hphase hstip), rfl, rfl, rfl⟩

/-- One run of the handler counts the deadline that has passed. -/
theorem TimerInv.cycle (hinv : TimerInv d₀ width s) (hphase : s.phase = .outside)
    (hdue : s.vars.nextDeadline ≤ s.hart.mtime)
    (hwrap : s.vars.nextDeadline + s.vars.interval < 2 ^ 64) :
    ∃ s', Handled s s' (s.vars.ticks + 1) := by
  obtain ⟨s₁, hsteps, hentered, hmtime, hvars⟩ := hinv.enter hphase hdue
  obtain ⟨s', hdone⟩ := (hinv.steps hsteps).finish_entered hentered (by rw [hvars]; exact hwrap)
  exact ⟨s', hsteps.trans hdone.steps, hdone.mtime.trans hmtime, hdone.phase,
    by rw [hdone.ticks, hvars]⟩

theorem TimerInv.nextDeadline_outside (hinv : TimerInv d₀ width s) (hphase : s.phase = .outside) :
    s.vars.nextDeadline = d₀ + s.vars.ticks * width := by
  have hold := hinv.phase
  simp only [PhaseInv, hphase] at hold
  rw [hold.2, hinv.interval]

/-- The handler comes to its end; it has counted at most one more deadline. -/
theorem TimerInv.finish (hinv : TimerInv d₀ width s)
    (hwrap : d₀ + (s.vars.ticks + 1) * width < 2 ^ 64) :
    ∃ s', Handled s s' s.vars.ticks ∨ Handled s s' (s.vars.ticks + 1) := by
  have hold := hinv.phase
  rw [Nat.succ_mul] at hwrap
  cases hphase : s.phase with
  | outside => exact ⟨s, Or.inl ⟨.refl s, rfl, hphase, rfl⟩⟩
  | entered =>
      simp only [PhaseInv, hphase] at hold
      have hlt : s.vars.nextDeadline + s.vars.interval < 2 ^ 64 := by
        rw [hold.2, hinv.interval]
        omega
      obtain ⟨s', hdone⟩ := hinv.finish_entered hphase hlt
      exact ⟨s', Or.inr hdone⟩
  | counted =>
      simp only [PhaseInv, hphase] at hold
      have hlt : s.vars.nextDeadline + s.vars.interval < 2 ^ 64 := by
        rw [hold.2, hinv.interval]
        omega
      obtain ⟨s', hdone⟩ := TimerInv.finish_counted hphase hlt
      exact ⟨s', Or.inl hdone⟩
  | advanced =>
      obtain ⟨s', hdone⟩ := TimerInv.finish_advanced hphase
      exact ⟨s', Or.inl hdone⟩
  | armed =>
      exact ⟨_, Or.inl ⟨(TimerSteps.refl s).tail (.leave hphase), rfl, rfl, rfl⟩⟩

/-- Induction on the deadlines that have passed and are not counted yet. -/
theorem TimerInv.catchUp_outside (hinv : TimerInv d₀ width s) (hphase : s.phase = .outside)
    (missed : Nat) (hdue : d₀ + (s.vars.ticks + missed) * width ≤ s.hart.mtime)
    (hwrap : d₀ + (s.vars.ticks + missed + 1) * width < 2 ^ 64) :
    ∃ s', Handled s s' (s.vars.ticks + missed + 1) := by
  have hnext := hinv.nextDeadline_outside hphase
  have hcycle (hle : s.vars.ticks * width ≤ (s.vars.ticks + missed) * width) :
      ∃ s', Handled s s' (s.vars.ticks + 1) := by
    apply hinv.cycle hphase
    · rw [hnext]
      omega
    · rw [hnext, hinv.interval]
      rw [Nat.succ_mul] at hwrap
      omega
  obtain ⟨s₁, hfst⟩ := hcycle (Nat.mul_le_mul_right _ (Nat.le_add_right _ _))
  induction missed generalizing s s₁ with
  | zero => exact ⟨s₁, hfst⟩
  | succ missed ih =>
      have hticks : s.vars.ticks + (missed + 1) = s₁.vars.ticks + missed := by
        rw [hfst.ticks]
        omega
      have hinv₁ := hinv.steps hfst.steps
      rw [hticks, ← hfst.mtime] at hdue
      rw [hticks] at hwrap
      have hnext₁ := hinv₁.nextDeadline_outside hfst.phase
      have hle : s₁.vars.ticks * width ≤ (s₁.vars.ticks + missed) * width :=
        Nat.mul_le_mul_right _ (Nat.le_add_right _ _)
      have hcycle₁ : ∃ s', Handled s₁ s' (s₁.vars.ticks + 1) := by
        apply hinv₁.cycle hfst.phase
        · rw [hnext₁]
          omega
        · rw [hnext₁, hinv₁.interval]
          rw [Nat.succ_mul] at hwrap
          omega
      obtain ⟨s₂, hsnd⟩ := hcycle₁
      obtain ⟨s', hdone⟩ :=
        ih hinv₁ hfst.phase hdue hwrap hnext₁ (fun _ => ⟨s₂, hsnd⟩) s₂ hsnd
      exact ⟨s', hfst.steps.trans hdone.steps, hdone.mtime.trans hfst.mtime, hdone.phase,
        by rw [hdone.ticks, hticks]⟩

/-- A missed deadline is counted as soon as the handler gets to run. -/
theorem TimerInv.catchUp (hinv : TimerInv d₀ width s) {k : Nat} (hticks : s.vars.ticks ≤ k)
    (hdue : d₀ + k * width ≤ s.hart.mtime) (hwrap : d₀ + (k + 1) * width < 2 ^ 64) :
    ∃ s', Handled s s' (k + 1) := by
  have hfinish : d₀ + (s.vars.ticks + 1) * width < 2 ^ 64 := by
    have hle := Nat.mul_le_mul_right width (Nat.succ_le_succ hticks)
    simp only [Nat.succ_eq_add_one] at hle
    omega
  have hfrom {s₁ : TimerState} (hfst : Handled s s₁ s₁.vars.ticks) (hle : s₁.vars.ticks ≤ k) :
      ∃ s', Handled s s' (k + 1) := by
    obtain ⟨missed, rfl⟩ := Nat.exists_eq_add_of_le hle
    obtain ⟨s', hdone⟩ := (hinv.steps hfst.steps).catchUp_outside hfst.phase missed
      (hfst.mtime ▸ hdue) hwrap
    exact ⟨s', hfst.steps.trans hdone.steps, hdone.mtime.trans hfst.mtime, hdone.phase,
      hdone.ticks⟩
  obtain ⟨s₁, hfst | hfst⟩ := hinv.finish hfinish
  · exact hfrom (hfst.ticks ▸ hfst) (hfst.ticks ▸ hticks)
  · rcases Nat.lt_or_eq_of_le hticks with hlt | heq
    · exact hfrom (hfst.ticks ▸ hfst) (hfst.ticks ▸ hlt)
    · exact ⟨s₁, heq ▸ hfst⟩

end CatchUp

section Exact

/-- No interrupt is due and the handler does not run. -/
def Idle (s : TimerState) : Prop :=
  s.phase = .outside ∧ s.hart.stip = false ∧ s.hart.mtime < s.hart.mtimecmp

/-- When nothing is left to do, every deadline that has passed is counted. -/
theorem TimerInv.idle (hinv : TimerInv d₀ width s) (hidle : Idle s) {k : Nat}
    (hdue : d₀ + k * width ≤ s.hart.mtime) : k < s.vars.ticks := by
  obtain ⟨hphase, hstip, hlt⟩ := hidle
  have hnext := hinv.nextDeadline_outside hphase
  have hold := hinv.phase
  simp only [PhaseInv, hphase] at hold
  rcases hold.1 with ⟨_, hcmp⟩ | ⟨hset, _⟩
  · rw [hcmp, hnext] at hlt
    have hmul : k * width < s.vars.ticks * width := by omega
    exact Nat.lt_of_mul_lt_mul_right hmul
  · rw [hstip] at hset
    cases hset

/-- Each entry of the log is the next deadline, and it was due. -/
theorem TimerInv.log_get (hinv : TimerInv d₀ width s) {k : Nat} (hk : k < s.log.length) :
    s.log[k].2 = d₀ + k * width ∧ d₀ + k * width ≤ s.log[k].1 := by
  have hget : s.log[k].2 = d₀ + k * width := by
    have hmap : (s.log.map Prod.snd)[k]? =
        ((List.range s.log.length).map fun k => d₀ + k * width)[k]? := by
      rw [hinv.deadlines]
    simpa [hk] using hmap
  exact ⟨hget, hget ▸ hinv.due _ (List.getElem_mem hk)⟩

/-- After `timer_init` no tick is lost.  In every state that is reached:
outside of the handler the comparator waits for the next deadline, or it is
parked and the interrupt is pending; the next deadline is the first one and one
interval for each tick; each tick is for its own deadline and not early; when
the timer is idle every deadline so far is counted; and from any state the
handler counts all that were missed. -/
theorem timer_exact {bi : Option (Nat × Nat)} {delay : Nat} {s₀ : TimerState}
    (hwrap : h.mtime + timerInterval (timerRates bi) < 2 ^ 64)
    (hinit : timerInit bi delay h = some s₀) (hsteps : TimerSteps s₀ s) :
    let width := timerInterval (timerRates bi)
    let d₀ := h.mtime + width
    s.vars.interval = width ∧
    (s.phase = .outside →
      (s.hart.stip = false ∧ s.hart.mtimecmp = s.vars.nextDeadline ∨
        s.hart.stip = true ∧ s.hart.mtimecmp = 2 ^ 64 - 1) ∧
      s.vars.nextDeadline = d₀ + s.vars.ticks * width) ∧
    s.vars.ticks = s.log.length ∧
    (∀ k (hk : k < s.log.length),
      s.log[k].2 = d₀ + k * width ∧ d₀ + k * width ≤ s.log[k].1) ∧
    (Idle s → ∀ k, d₀ + k * width ≤ s.hart.mtime → k < s.vars.ticks) ∧
    (∀ k, s.vars.ticks ≤ k → d₀ + k * width ≤ s.hart.mtime → d₀ + (k + 1) * width < 2 ^ 64 →
      ∃ s', Handled s s' (k + 1)) := by
  intro width d₀
  have hinv : TimerInv d₀ width s := (timerInit_inv hwrap hinit).steps hsteps
  refine ⟨hinv.interval, fun hphase => ⟨?_, hinv.nextDeadline_outside hphase⟩, hinv.ticks,
    fun k hk => hinv.log_get hk, fun hidle k hdue => hinv.idle hidle hdue,
    fun k hticks hdue hlt => hinv.catchUp hticks hdue hlt⟩
  have hold := hinv.phase
  simp only [PhaseInv, hphase] at hold
  rcases hold.1 with hwait | ⟨hstip, hcmp, _⟩
  · exact Or.inl hwait
  · exact Or.inr ⟨hstip, hcmp⟩

/-- A hart that is three deadlines late, before the handler runs. -/
theorem timer_exact_late :
    let h : Hart := ⟨5, 0, false⟩
    let s₀ : TimerState := ⟨⟨6, 15, false⟩, ⟨10, 10, 0, 15⟩, .outside, []⟩
    timerInit (some (100, 10)) 1 h = some s₀ ∧
      ∃ s', Handled { s₀ with hart := ⟨40, 15, false⟩ } s' 3 := by
  intro h s₀
  have hinit : timerInit (some (100, 10)) 1 h = some s₀ := by
    rw [timerInit, sbiSetTimer_eq]
    rfl
  have hsteps : TimerSteps s₀ { s₀ with hart := ⟨40, 15, false⟩ } :=
    (TimerSteps.refl s₀).tail (.time (by decide) (by decide))
  exact ⟨hinit, (timer_exact (by decide) hinit hsteps).2.2.2.2.2 2 (by decide) (by decide)
    (by decide)⟩

end Exact

end OsAgentLab
