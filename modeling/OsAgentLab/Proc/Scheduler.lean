/-
The loop of `scheduler`: it looks at one slot after the other, and switches to each process
that is runnable.
-/
import OsAgentLab.Proc.ProcessTable
import OsAgentLab.Rounds

namespace OsAgentLab

namespace Run

/-- The kernel with its scheduler.  `scan` counts the slots that the loop has passed, so that
`i` is `scan % NPROC`. -/
structure Sched where
  run : Run
  scan : Nat

namespace Sched

/-- `i`, the slot that the loop looks at. -/
def slot (c : Sched) : Nat := c.scan % nproc

/-- One step of the scheduler or of the process that it has switched to; the label is the
slot that the scheduler selects. -/
inductive Turn (c : Sched) : Option Nat → Sched → Prop
  /-- `if (p->state != PROC_RUNNABLE) continue`. -/
  | skip (hidle : c.run.sys.current = none)
      (hready : (c.run.sys.procs c.slot).state ≠ .runnable) :
      Turn c none { c with scan := c.scan + 1 }
  /-- The switch to the process. -/
  | select {r' : Run} (hstep : Step c.run (.schedule c.slot) r') :
      Turn c (some c.slot) { c with run := r' }
  /-- The process goes on. -/
  | work {i : Nat} {e : Event} {r' : Run} (hcur : c.run.sys.current = some i)
      (hstep : Step c.run e r') (hbusy : r'.sys.current = some i) : Turn c none { c with run := r' }
  /-- The process gives up the processor, and the loop goes on. -/
  | release {i : Nat} {e : Event} {r' : Run} (hcur : c.run.sys.current = some i)
      (hstep : Step c.run e r') (hidle : r'.sys.current = none) :
      Turn c none { run := r', scan := c.scan + 1 }

/-- Any number of turns, with the slots that were selected in them. -/
inductive Path : Sched → List Nat → Sched → Prop
  | refl (c : Sched) : Path c [] c
  | tail {c c' c'' : Sched} {sel : List Nat} {o : Option Nat} :
      Path c sel c' → Turn c' o c'' → Path c (sel ++ o.toList) c''

/-- The slots that the loop has begun to look at. -/
def front (c : Sched) : Nat := if c.run.sys.current = none then c.scan else c.scan + 1

variable {c c' c'' c₁ c₂ c₃ c₄ : Sched} {o : Option Nat} {sel : List Nat} {m n p q : Nat}

/-- What is known of the kernel while the scheduler runs. -/
structure Sound (c : Sched) : Prop where
  counted : Counted c.run.sys none
  one : OneRunning c.run
  table : InTable c.run

/-- Whatever the kernel has done before. -/
theorem Sound.of_steps {r₀ r : Run} (hfirst : Initial r₀) (hrun : Steps anyStep r₀ r) (n : Nat) :
    Sound ⟨r, n⟩ := by
  have hinv : Counted r.sys none ∧ OneRunning r ∧ InTable r :=
    Steps.invariant (P := fun r => Counted r.sys none ∧ OneRunning r ∧ InTable r) hrun
      ⟨hfirst.counted, hfirst.oneRunning, fun k hk => absurd (by rw [hfirst.procs]; rfl) hk⟩
      fun _ _ _ h _ hstep =>
        ⟨hstep.counted h.1, hstep.oneRunning h.1 h.2.1, hstep.inTable h.1 h.2.2⟩
  exact ⟨hinv.1, hinv.2.1, hinv.2.2⟩

theorem Sound.step {e : Event} {r' : Run} (h : Sound c) (hstep : Step c.run e r') (n : Nat) :
    Sound ⟨r', n⟩ :=
  ⟨hstep.counted h.counted, hstep.oneRunning h.counted h.one, hstep.inTable h.counted h.table⟩

theorem Turn.sound (h : Sound c) (hturn : Turn c o c') : Sound c' := by
  cases hturn with
  | skip => exact ⟨h.counted, h.one, h.table⟩
  | select hstep => exact h.step hstep _
  | work _ hstep _ => exact h.step hstep _
  | release _ hstep _ => exact h.step hstep _

theorem Path.sound (h : Sound c) (hpath : Path c sel c') : Sound c' := by
  induction hpath with
  | refl => exact h
  | tail _ hturn ih => exact hturn.sound ih

theorem front_idle (h : c.run.sys.current = none) : c.front = c.scan := if_pos h

theorem front_busy {i : Nat} (h : c.run.sys.current = some i) : c.front = c.scan + 1 :=
  if_neg (by simp [h])

/-- A turn begins to look at one more slot, or at none. -/
theorem Turn.front (hturn : Turn c o c') : c'.front = c.front ∧ o = none ∨
    c'.front = c.front + 1 ∧ c.run.sys.current = none ∧ c.front = c.scan ∧
      ((o = none ∧ (c.run.sys.procs c.slot).state ≠ .runnable) ∨ o = some c.slot) := by
  cases hturn with
  | skip hidle hready =>
      refine Or.inr ⟨?_, hidle, front_idle hidle, Or.inl ⟨rfl, hready⟩⟩
      rw [front_idle hidle]
      exact front_idle hidle
  | select hstep =>
      cases hstep with
      | schedule hlt hidle hready =>
          refine Or.inr ⟨?_, hidle, front_idle hidle, Or.inr rfl⟩
          rw [front_idle hidle]
          exact front_busy rfl
  | work hcur hstep hbusy =>
      refine Or.inl ⟨?_, rfl⟩
      rw [front_busy hcur]
      exact front_busy hbusy
  | release hcur hstep hidle =>
      refine Or.inl ⟨?_, rfl⟩
      rw [front_busy hcur]
      exact front_idle hidle

theorem Path.front_le (hpath : Path c sel c') : c.front ≤ c'.front := by
  induction hpath with
  | refl => exact Nat.le_refl _
  | tail _ hturn ih =>
      rcases hturn.front with ⟨hsame, _⟩ | ⟨hmore, _⟩
      · rw [hsame]
        exact ih
      · rw [hmore]
        exact Nat.le_succ_of_le ih

/-- A runnable process stays runnable until it is selected. -/
theorem Turn.runnable (hs : Sound c) (hturn : Turn c o c') (hq : o ≠ some q)
    (h : (c.run.sys.procs q).state = .runnable) : (c'.run.sys.procs q).state = .runnable := by
  have hstep : ∀ {e : Event} {r' : Run}, Step c.run e r' → e ≠ .schedule q →
      (r'.sys.procs q).state = .runnable := by
    intro e r' hstep he
    cases hstep.slot hs.counted q with
    | same hstate _ => exact hstate.trans h
    | claimed _ _ hbefore _ _ => cases hbefore.symm.trans h
    | readied _ hbefore _ _ => cases hbefore.symm.trans h
    | selected hidle hcur _ _ _ =>
        cases hstep.current hs.counted with
        | stays hsame =>
            rw [hsame, hidle] at hcur
            cases hcur
        | picks he' _ hpick =>
            obtain rfl := Option.some.inj (hpick.symm.trans hcur)
            exact absurd he' he
        | gives hcur' _ _ => cases hidle.symm.trans hcur'
    | released _ _ hafter _ => exact hafter
    | ended hcur _ _ _ _ => cases ((hs.counted.current q hcur).2).symm.trans h
    | born _ _ _ hbefore _ _ => cases hbefore.symm.trans h
    | reaped _ _ hbefore _ _ => cases hbefore.symm.trans h
  cases hturn with
  | skip => exact h
  | select hs' =>
      refine hstep hs' fun heq => hq ?_
      rw [Event.schedule.inj heq]
  | work hcur hs' _ =>
      refine hstep hs' fun heq => ?_
      subst heq
      cases hs' with
      | schedule _ hidle _ => cases hidle.symm.trans hcur
  | release hcur hs' _ =>
      refine hstep hs' fun heq => ?_
      subst heq
      cases hs' with
      | schedule _ hidle _ => cases hidle.symm.trans hcur

/-- The selected slots are places of the stretch that the loop goes through. -/
theorem Path.stretch (hpath : Path c sel c') :
    ∃ ns, Stretch c.front c'.front ns ∧ sel = ns.map (· % nproc) := by
  induction hpath with
  | refl => exact ⟨[], Stretch.nil _ _, rfl⟩
  | tail hpath hturn ih =>
      obtain ⟨ns, hns, rfl⟩ := ih
      rcases hturn.front with ⟨hsame, rfl⟩ | ⟨hmore, _, hscan, ⟨rfl, _⟩ | rfl⟩
      · exact ⟨ns, hsame ▸ hns, by simp⟩
      · exact ⟨ns, hns.extend (by omega), by simp⟩
      · refine ⟨ns ++ [_], hmore ▸ hns.snoc hpath.front_le, ?_⟩
        rw [List.map_append, hscan]
        rfl

/-- A process that is runnable and is not selected stays so, and the loop does not come to
its slot. -/
theorem Path.runnable (hs : Sound c) (hpath : Path c sel c') (hq : q ∉ sel)
    (h : (c.run.sys.procs q).state = .runnable) :
    (c'.run.sys.procs q).state = .runnable ∧
      ∀ n, c.front ≤ n → n < c'.front → n % nproc ≠ q := by
  induction hpath with
  | refl => exact ⟨h, fun n hge hlt => absurd hge (Nat.not_le_of_lt hlt)⟩
  | @tail c₁ c₂ sel o hpath hturn ih =>
      obtain ⟨hready, hpassed⟩ := ih fun hmem => hq (List.mem_append_left _ hmem)
      have hother : o ≠ some q := by
        rintro rfl
        exact hq (List.mem_append_right _ (by simp))
      refine ⟨hturn.runnable (hpath.sound hs) hother hready, fun n hge hlt => ?_⟩
      rcases hturn.front with ⟨hsame, _⟩ | ⟨hmore, _, hscan, hslot⟩
      · exact hpassed n hge (hsame ▸ hlt)
      · rcases Nat.lt_or_ge n c₁.front with hbefore | hat
        · exact hpassed n hge hbefore
        · obtain rfl : n = c₁.scan := by omega
          intro heq
          rcases hslot with ⟨_, hskipped⟩ | rfl
          · exact hskipped (by rw [slot, heq]; exact hready)
          · exact hother (congrArg some heq)

/-- The loop does not get round before a process that is runnable is selected. -/
theorem Path.front_lt (hs : Sound c) (hpath : Path c sel c') (hlt : q < nproc) (hq : q ∉ sel)
    (h : (c.run.sys.procs q).state = .runnable) : c'.front < c.front + nproc := by
  obtain ⟨n, hge, hround, hmod⟩ := exists_round c.front hlt
  by_contra hfar
  exact (hpath.runnable hs hq h).2 n hge (by omega) hmod

theorem Path.append {sel' : List Nat} (hpath : Path c sel c') (hpath' : Path c' sel' c'') :
    Path c (sel ++ sel') c'' := by
  induction hpath' with
  | refl => rwa [List.append_nil]
  | tail _ hturn ih =>
      rw [← List.append_assoc]
      exact ih.tail hturn

/-- The processor is taken by the scheduler only. -/
theorem Path.front_of_busy {i : Nat} (hpath : Path c sel c') (hnone : sel = [])
    (hcur : c'.run.sys.current = some i) : c.run.sys.current = some i ∧ c'.front = c.front := by
  induction hpath with
  | refl => exact ⟨hcur, rfl⟩
  | @tail c₁ c₂ sel o hpath hturn ih =>
      obtain ⟨hsel, ho⟩ := List.append_eq_nil_iff.mp hnone
      cases hturn with
      | skip hidle _ => cases hidle.symm.trans hcur
      | select _ => cases ho
      | @work j e r' hcur' hstep hbusy =>
          obtain rfl := Option.some.inj (hbusy.symm.trans hcur)
          obtain ⟨hfirst, hfront⟩ := ih hsel hcur'
          refine ⟨hfirst, Eq.trans ?_ hfront⟩
          exact (front_busy (c := ⟨r', c₁.scan⟩) hbusy).trans (front_busy hcur').symm
      | release _ _ hidle => cases hidle.symm.trans hcur

theorem Turn.select_scan (hturn : Turn c (some p) c') :
    c.run.sys.current = none ∧ c.scan % nproc = p ∧ c'.front = c.scan + 1 := by
  rcases hturn.front with ⟨_, hnone⟩ | ⟨hmore, hidle, hscan, ⟨hnone, _⟩ | hslot⟩
  · cases hnone
  · cases hnone
  · exact ⟨hidle, (Option.some.inj hslot).symm, hscan ▸ hmore⟩

theorem Turn.release_front (hs : Sound c) (hturn : Turn c none c')
    (hcur : c.run.sys.current = some p) (hready : (c'.run.sys.procs p).state = .runnable) :
    c'.run.sys.current = none ∧ c'.front = c.front := by
  have hs' := hturn.sound hs
  cases hturn with
  | skip hidle _ => cases hidle.symm.trans hcur
  | work hcur' _ hbusy =>
      obtain rfl := Option.some.inj (hcur'.symm.trans hcur)
      cases (hs'.counted.current _ hbusy).2.symm.trans hready
  | release hcur' hstep hidle => exact ⟨hidle, (front_idle hidle).trans (front_busy hcur').symm⟩

/-- From every state that the kernel reaches: a process that is runnable stays so until it is
selected, and before that the scheduler selects each other slot at most once. -/
theorem bounded_waiting (hs : Sound c) (hpath : Path c sel c')
    (hready : (c.run.sys.procs q).state = .runnable) (hq : q ∉ sel) :
    (c'.run.sys.procs q).state = .runnable ∧ sel.Nodup ∧ sel.length < nproc ∧
      c'.front < c.front + nproc := by
  have hlt : q < nproc := hs.table q (by simp [hready])
  have hfront := hpath.front_lt hs hlt hq hready
  obtain ⟨ns, hns, rfl⟩ := hpath.stretch
  have hnodup := hns.nodup hfront.le
  refine ⟨(hpath.runnable hs hq hready).1, hnodup, ?_, hfront⟩
  refine length_lt_of_missing hnodup (fun x hx => ?_) hlt hq
  obtain ⟨n, _, rfl⟩ := List.mem_map.mp hx
  exact Nat.mod_lt n (by decide)

/-- A process that gives up the processor and stays runnable is selected again exactly one
round later, and in between every process that was runnable has its turn, exactly once. -/
theorem round_robin (hs : Sound c₁) (hturn : Turn c₁ (some p) c₂) (hrun : Path c₂ [] c)
    (hcur : c.run.sys.current = some p) (hgives : Turn c none c')
    (hready : (c'.run.sys.procs p).state = .runnable) (hpath : Path c' sel c₃) (hp : p ∉ sel)
    (hagain : Turn c₃ (some p) c₄) :
    c₃.scan = c₁.scan + nproc ∧ sel.Nodup ∧
      ∀ q, q ≠ p → (c₁.run.sys.procs q).state = .runnable → q ∈ sel := by
  have hs₂ := hturn.sound hs
  have hs' := hgives.sound (hrun.sound hs₂)
  obtain ⟨_, hfirst, hfront₂⟩ := hturn.select_scan
  obtain ⟨hidle₃, hlast, _⟩ := hagain.select_scan
  obtain ⟨_, hsame⟩ := hgives.release_front (hrun.sound hs₂) hcur hready
  have hstart : c'.front = c₁.scan + 1 := by
    rw [hsame, (hrun.front_of_busy rfl hcur).2, hfront₂]
  have hend : c₃.front = c₃.scan := front_idle hidle₃
  have hround : c₃.scan = c₁.scan + nproc := by
    have hlt := hpath.front_lt hs' (hs'.table p (by simp [hready])) hp hready
    have hle := hpath.front_le
    have hfar := round_le (m := c₁.scan) (n := c₃.scan) (by omega) (hfirst.trans hlast.symm)
    omega
  refine ⟨hround, ?_, fun q hq hbefore => ?_⟩
  · obtain ⟨ns, hns, rfl⟩ := hpath.stretch
    exact hns.nodup (by omega)
  · by_contra hmem
    have hother : some p ≠ some q := fun heq => hq (Option.some.inj heq).symm
    have hready₂ := hturn.runnable hs hother hbefore
    have hready' := hgives.runnable (hrun.sound hs₂) (by simp)
      (hrun.runnable hs₂ List.not_mem_nil hready₂).1
    obtain ⟨n, hge, hlt, hmod⟩ := exists_round c'.front (hs.table q (by simp [hbefore]))
    refine (hpath.runnable hs' hmem hready').2 n hge ?_ hmod
    rcases Nat.lt_or_ge n c₃.front with hin | hout
    · exact hin
    · -- number `c₁.scan + nproc` is slot `p` itself
      obtain rfl : n = c₁.scan + nproc := by omega
      rw [Nat.add_mod_right] at hmod
      exact absurd (hmod.symm.trans hfirst) hq

section Sample

/-- A process that is selected and interrupted at once. -/
theorem turn_interrupted (hidle : c.run.sys.current = none) (hlt : c.slot < nproc)
    (hready : (c.run.sys.procs c.slot).state = .runnable) (hwait : c.run.waiting c.slot = none) :
    ∃ c₁ c₂, Turn c (some c.slot) c₁ ∧ c₁.run.sys.current = some c.slot ∧ Turn c₁ none c₂ ∧
      c₂.scan = c.scan + 1 ∧ c₂.run.sys.current = none ∧ c₂.run.waiting = c.run.waiting ∧
        ∀ k, (c₂.run.sys.procs k).state = (c.run.sys.procs k).state := by
  refine ⟨_, _, .select (.schedule hlt hidle hready), rfl, .release (i := c.slot) rfl
    (.preempt rfl hwait rfl) rfl, rfl, rfl, rfl, fun k => ?_⟩
  have hrunning : ((c.run.sys.setState c.slot .running).procs c.slot).state = .running := by
    rw [Sys.setState, Sys.setProc_self]
  obtain ⟨hself, _, hothers⟩ := unrun_link (s := { c.run.sys.setState c.slot .running with
    current := some c.slot
    mm := { c.run.sys.mm with satp := (c.run.sys.procs c.slot).pagetable } }) hrunning
  by_cases hk : k = c.slot
  · subst hk
    exact hself.trans hready.symm
  · refine (Sys.link_eq (hothers k hk)).2.1.trans ?_
    exact congrArg Proc.state (c.run.sys.setProc_of_ne hk _)

/-- The loop passes slots that are not runnable. -/
theorem path_skips (hidle : c.run.sys.current = none) (hsome : ∀ n, n < m →
    (c.run.sys.procs ((c.scan + n) % nproc)).state ≠ .runnable) :
    Path c [] { c with scan := c.scan + m } := by
  induction m with
  | zero => exact .refl c
  | succ m ih =>
      have hbefore := ih fun n hn => hsome n (Nat.lt_succ_of_lt hn)
      exact hbefore.tail (.skip hidle (hsome m m.lt_succ_self))

/-- Two processes that are runnable, in the slots 0 and 1. -/
def twoReady : Sched where
  run :=
    { bootRun with
      sys :=
        { bootRun.sys with
          procs := fun i => if i < 2 then { Proc.zero with state := .runnable } else Proc.zero } }
  scan := 0

theorem twoReady_ready {k : Nat} (hk : k < 2) :
    twoReady.run.sys.procs k = { Proc.zero with state := .runnable } :=
  if_pos hk

theorem twoReady_zero {k : Nat} (hk : ¬ k < 2) : twoReady.run.sys.procs k = Proc.zero := if_neg hk

theorem twoReady_state (k : Nat) : (twoReady.run.sys.procs k).state = .runnable ↔ k < 2 := by
  by_cases hk : k < 2
  · rw [twoReady_ready hk]
    exact iff_of_true rfl hk
  · rw [twoReady_zero hk]
    exact iff_of_false (fun h => by cases h) hk

theorem twoReady_sound : Sound twoReady := by
  have hholds : ∀ d, twoReady.run.sys.holds d = none := by
    intro d
    by_cases hd : d.1 < 2
    · rw [Sys.holds, twoReady_ready hd]
      rfl
    · rw [Sys.holds, twoReady_zero hd]
      rfl
  refine ⟨⟨fun f _ => ?_, fun f _ => ?_, fun d _ f hf => ?_, fun d _ _ => hholds d,
    fun i hi => by cases hi⟩, fun k hk => ?_, fun k hk => ?_⟩
  · have hnone : pointing descriptors twoReady.run.sys.holds f = 0 := by
      rw [pointing, Finset.card_eq_zero, Finset.filter_eq_empty_iff]
      exact fun d _ hd => by cases (hholds d).symm.trans hd
    rw [hnone]
    rfl
  · have hunused : twoReady.run.sys.files.used f = false := rfl
    have href : (twoReady.run.sys.files.slot f).ref = 0 := rfl
    rw [hunused, href]
    decide
  · cases (hholds d).symm.trans hf
  · by_cases hlt : k < 2
    · cases ((twoReady_state k).mpr hlt).symm.trans hk
    · rw [twoReady_zero hlt] at hk
      cases hk
  · by_contra hge
    have hlt : ¬ k < 2 := fun hlt => hge (hlt.trans (by decide))
    rw [twoReady_zero hlt] at hk
    exact hk rfl

theorem bounded_waiting_two : ∃ c' : Sched, (c'.run.sys.procs 1).state = .runnable ∧
    [0].Nodup ∧ [0].length < nproc ∧ c'.front < twoReady.front + nproc := by
  have hwait : ∀ k, twoReady.run.waiting k = none := fun _ => rfl
  obtain ⟨c₁, c₂, hselect, _, hback, _, _, _, _⟩ :=
    turn_interrupted (c := twoReady) rfl (by decide) ((twoReady_state _).mpr (by decide)) (hwait _)
  have hpath : Path twoReady [0] c₂ := ((Path.refl twoReady).tail hselect).tail hback
  exact ⟨c₂, bounded_waiting twoReady_sound hpath ((twoReady_state 1).mpr (by decide)) (by decide)⟩

theorem round_robin_two : ∃ c₃ : Sched, c₃.scan = twoReady.scan + nproc ∧ [1].Nodup ∧
    ∀ q, q ≠ 0 → (twoReady.run.sys.procs q).state = .runnable → q ∈ [1] := by
  obtain ⟨c₁, c₂, hselect, hcur, hback, hscan, hidle, hwait, hstate⟩ :=
    turn_interrupted (c := twoReady) rfl (by decide) ((twoReady_state _).mpr (by decide)) rfl
  have hslot : c₂.slot = 1 := by
    rw [slot, hscan]
    rfl
  obtain ⟨c₃, c₄, hselect', _, hback', hscan', hidle', hwait', hstate'⟩ :=
    turn_interrupted (c := c₂) hidle (by rw [hslot]; decide)
      (by rw [hslot, hstate]; exact (twoReady_state 1).mpr (by decide)) (by rw [hwait]; rfl)
  rw [hslot] at hselect'
  have hscan₄ : c₄.scan = 2 := by
    rw [hscan', hscan]
    rfl
  have hskips := path_skips (c := c₄) (m := 14) hidle' fun n hn => by
    rw [hstate', hstate, Ne, twoReady_state, hscan₄, nproc]
    omega
  have hslot'' : Sched.slot { c₄ with scan := c₄.scan + 14 } = 0 := by
    simp only [slot, hscan₄, nproc, Nat.reduceAdd, Nat.mod_self]
  obtain ⟨c₅, _, hselect'', _⟩ := turn_interrupted (c := { c₄ with scan := c₄.scan + 14 }) hidle'
    (Nat.mod_lt _ (by decide)) (by
      rw [hslot'', hstate', hstate]
      exact (twoReady_state 0).mpr (by decide))
    (by rw [hwait', hwait]; rfl)
  rw [hslot''] at hselect''
  have hpath : Path c₂ [1] { c₄ with scan := c₄.scan + 14 } :=
    (((Path.refl c₂).tail hselect').tail hback').append hskips
  exact ⟨_, round_robin twoReady_sound hselect (Path.refl c₁) hcur hback
    (by rw [hstate]; exact (twoReady_state 0).mpr (by decide)) hpath (by decide) hselect''⟩

end Sample

end Sched

end Run

end OsAgentLab
