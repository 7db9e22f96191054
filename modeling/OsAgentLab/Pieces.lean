/-
Transfers piece by piece.  A loop that moves a few units in each pass, and ends at the end, at
a short piece or at an error, returns the sum of the pieces or the error; what it has moved
by then is counted here in both cases.
-/
import OsAgentLab.Program

namespace OsAgentLab

/-- What one pass of a transfer comes to: `n` units and it goes on, `n` units and it is over,
an error behind `n` units, or no return at all. -/
inductive Piece (ε : Type) where
  | more (n : Nat)
  | last (n : Nat)
  | failed (n : Nat) (e : ε)
  | lost
deriving DecidableEq, Repr

section Transfer

variable {σ ε : Type} (step : Nat → σ → Piece ε × σ)

/-- From `s` on, `t` units have been moved, and the transfer goes on from `u`. -/
inductive Moved (s : σ) : Nat → σ → Prop
  | start : Moved s 0 s
  | more {t n : Nat} {u u' : σ} (h : Moved s t u) (hstep : step t u = (.more n, u')) :
      Moved s (t + n) u'

/-- The transfer from `s` has ended in `u`, with an error or without, after `t` units. -/
inductive Ended (s : σ) : Option ε → Nat → σ → Prop
  | last {t n : Nat} {u u' : σ} (h : Moved step s t u) (hstep : step t u = (.last n, u')) :
      Ended s none (t + n) u'
  | failed {t n : Nat} {u u' : σ} {e : ε} (h : Moved step s t u)
      (hstep : step t u = (.failed n e, u')) : Ended s (some e) (t + n) u'

/-- No piece but the first one fails, and a transfer that comes to its end has moved less
than `bound` units. -/
def Whole (bound : Nat) (s : σ) : Prop :=
  (∀ e t u, Ended step s (some e) t u → t = 0) ∧ ∀ t u, Ended step s none t u → t < bound

end Transfer

section Loop

variable {σ σ' ε α : Type}

/-- The loop `body` makes the transfer `step` of `len` units: the loop variables after `t`
units are `pos t`, with the count `total t`, and the state is `put t u`. -/
structure Transfers (step : Nat → σ → Piece ε × σ) (body : α → Prog σ' ε (Option α))
    (pos : Nat → α) (put : Nat → σ → σ') (out : α → Int) (total : Nat → Int) (len : Nat) :
    Prop where
  count : ∀ t, out (pos t) = total t
  stop : ∀ t u, len ≤ t → step t u = (.last 0, u)
  more : ∀ {t n u u'}, step t u = (.more n, u') → 0 < n ∧ t + n ≤ len ∧
    body (pos t) (put t u) = (.ok (some (pos (t + n))), put (t + n) u')
  last : ∀ {t n u u'}, step t u = (.last n, u') → t + n ≤ max t len ∧ ∀ fuel, ∃ a,
    out a = total (t + n) ∧
      Prog.loop body (fuel + 1) (pos t) (put t u) = (.ok a, put (t + n) u')
  failed : ∀ {t n u u' e}, step t u = (.failed n e, u') → t + n ≤ max t len ∧
    body (pos t) (put t u) = (.err e, put (t + n) u')
  lost : ∀ {t u u'}, step t u = (.lost, u') → ∃ r s', body (pos t) (put t u) = (r, s') ∧
    ¬ r.IsOk ∧ ¬ r.IsErr

/-- How the loop ends. -/
inductive LoopEnds (step : Nat → σ → Piece ε × σ) (put : Nat → σ → σ') (out : α → Int)
    (total : Nat → Int) (s : σ) : Outcome ε α → σ' → Prop
  | all {a : α} {t : Nat} {u : σ} (h : Ended step s none t u) (hout : out a = total t) :
      LoopEnds step put out total s (.ok a) (put t u)
  | failed {e : ε} {t : Nat} {u : σ} (h : Ended step s (some e) t u) :
      LoopEnds step put out total s (.err e) (put t u)
  | lost {r : Outcome ε α} {s' : σ'} (hok : ¬ r.IsOk) (herr : ¬ r.IsErr) :
      LoopEnds step put out total s r s'

variable {step : Nat → σ → Piece ε × σ} {body : α → Prog σ' ε (Option α)} {pos : Nat → α}
  {put : Nat → σ → σ'} {out : α → Int} {total : Nat → Int} {len t : Nat} {s u : σ}

namespace Transfers

variable (x : Transfers step body pos put out total len)

include x

theorem moved_le (h : Moved step s t u) : t ≤ len := by
  induction h with
  | start => exact Nat.zero_le _
  | more _ hstep _ => exact (x.more hstep).2.1

theorem ended_le {e : Option ε} (h : Ended step s e t u) : t ≤ len := by
  cases h with
  | last h hstep =>
      have hle := x.moved_le h
      exact Nat.le_trans (x.last hstep).1 (Nat.max_le.mpr ⟨hle, Nat.le_refl _⟩)
  | failed h hstep =>
      have hle := x.moved_le h
      exact Nat.le_trans (x.failed hstep).1 (Nat.max_le.mpr ⟨hle, Nat.le_refl _⟩)

/-- The loop from a place on the way ends as the transfer does. -/
theorem loop_ends (fuel : Nat) (h : Moved step s t u) (hfuel : len - t ≤ fuel) :
    ∃ r s', Prog.loop body fuel (pos t) (put t u) = (r, s') ∧
      LoopEnds step put out total s r s' := by
  induction fuel generalizing t u with
  | zero =>
      have hstop := x.stop t u (by omega)
      exact ⟨_, _, rfl, .all (.last h hstop) (x.count t)⟩
  | succ fuel ih =>
      cases hstep : step t u with
      | mk piece u' =>
          cases piece with
          | more n =>
              obtain ⟨hpos, _, hbody⟩ := x.more hstep
              rw [Prog.loop, Prog.bind_ok hbody]
              exact ih (.more h hstep) (by omega)
          | last n =>
              obtain ⟨_, hlast⟩ := x.last hstep
              obtain ⟨a, hout, hrun⟩ := hlast fuel
              exact ⟨_, _, hrun, .all (.last h hstep) hout⟩
          | failed n e =>
              rw [Prog.loop, Prog.bind_err (x.failed hstep).2]
              exact ⟨_, _, rfl, .failed (.failed h hstep)⟩
          | lost =>
              obtain ⟨r, s', hbody, hok, herr⟩ := x.lost hstep
              rw [Prog.loop]
              simp only [bind, hbody]
              cases r with
              | ok a => exact absurd trivial hok
              | err e => exact absurd trivial herr
              | fault => exact ⟨_, _, rfl, .lost id id⟩
              | diverges => exact ⟨_, _, rfl, .lost id id⟩

/-- The loop comes to every place that the transfer comes to. -/
theorem loop_moved (h : Moved step s t u) : ∃ fuel, len - t ≤ fuel ∧
    Prog.loop body len (pos 0) (put 0 s) = Prog.loop body fuel (pos t) (put t u) := by
  induction h with
  | start => exact ⟨len, Nat.le_refl _, rfl⟩
  | @more t n u u' _ hstep ih =>
      obtain ⟨fuel, hfuel, hrun⟩ := ih
      obtain ⟨hpos, hle, hbody⟩ := x.more hstep
      cases fuel with
      | zero => omega
      | succ fuel =>
          rw [Prog.loop, Prog.bind_ok hbody] at hrun
          exact ⟨fuel, by omega, hrun⟩

theorem loop_all (h : Ended step s none t u) :
    ∃ a, Prog.loop body len (pos 0) (put 0 s) = (.ok a, put t u) ∧ out a = total t := by
  cases h with
  | @last t n u u' h hstep =>
      obtain ⟨fuel, hfuel, hrun⟩ := x.loop_moved h
      cases fuel with
      | zero =>
          have hstop := x.stop t u (by omega)
          obtain ⟨hn, rfl⟩ := Prod.mk.inj (hstep.symm.trans hstop)
          cases hn
          exact ⟨_, hrun, x.count t⟩
      | succ fuel =>
          obtain ⟨a, hout, hlast⟩ := (x.last hstep).2 fuel
          exact ⟨a, hrun.trans hlast, hout⟩

theorem loop_failed {e : ε} (h : Ended step s (some e) t u) :
    Prog.loop body len (pos 0) (put 0 s) = (.err e, put t u) := by
  cases h with
  | @failed t n u u' e h hstep =>
      obtain ⟨fuel, hfuel, hrun⟩ := x.loop_moved h
      cases fuel with
      | zero =>
          have hstop := x.stop t u (by omega)
          cases hstep.symm.trans hstop
      | succ fuel =>
          rw [Prog.loop, Prog.bind_err (x.failed hstep).2] at hrun
          exact hrun

/-- The results of the loop account for what has been moved exactly when the transfer is
whole: a state reached after `t` units accounts for `t` units and no others. -/
theorem accounts_iff {bound : Nat} {Good : Nat → σ' → Prop}
    (hcount : ∀ t, t ≤ len → ((total t).toNat = t ↔ t < bound))
    (hall : ∀ t u, Ended step s none t u → Good t (put t u))
    (hnone : ∀ e u, Ended step s (some e) 0 u → Good 0 (put 0 u))
    (honly : ∀ e t u n, Ended step s e t u → Good n (put t u) → n ≤ max t bound → n = t)
    (hbound : ∀ t, (total t).toNat ≤ bound) :
    (∀ r s', (Prog.loop body len (pos 0) >>= fun last => pure (out last)) (put 0 s) = (r, s') →
      match r with
      | .ok n => Good n.toNat s'
      | .err _ => Good 0 s'
      | _ => True) ↔ Whole step bound s := by
  constructor
  · intro hruns
    refine ⟨fun e t u h => ?_, fun t u h => ?_⟩
    · have hzero := hruns _ _ (Prog.bind_err (x.loop_failed h) _)
      exact (honly _ t u 0 h hzero (Nat.zero_le _)).symm
    · obtain ⟨a, hrun, hout⟩ := x.loop_all h
      have hcounted := hruns _ _ (Prog.bind_ok hrun _)
      dsimp only at hcounted
      rw [hout] at hcounted
      have heq := honly _ t u _ h hcounted (Nat.le_trans (hbound t) (Nat.le_max_right _ _))
      exact (hcount t (x.ended_le h)).mp heq
  · rintro ⟨hfailed, hless⟩ r s' hrun
    obtain ⟨r', s'', hloop, hends⟩ := x.loop_ends len .start (Nat.sub_le _ _)
    cases hends with
    | @all a t u h hout =>
        rw [Prog.bind_ok hloop, Prog.pure_apply, hout] at hrun
        cases hrun
        have heq := (hcount t (x.ended_le h)).mpr (hless t u h)
        dsimp only
        rw [heq]
        exact hall t u h
    | @failed e t u h =>
        rw [Prog.bind_err hloop] at hrun
        cases hrun
        have hzero := hfailed e t u h
        subst hzero
        exact hnone e u h
    | lost hok herr =>
        simp only [bind, hloop] at hrun
        cases r' with
        | ok a => exact absurd trivial hok
        | err e => exact absurd trivial herr
        | fault =>
            cases hrun
            trivial
        | diverges =>
            cases hrun
            trivial

end Transfers

end Loop

end OsAgentLab
