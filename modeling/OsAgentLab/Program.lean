/-
State programs with early exit.  A call either delivers a value, returns an
error, runs into an invalid memory access, or does not come back at all; the
state it leaves behind is kept in every case, as it is in a C program.
-/
import Mathlib.Data.List.Basic

namespace OsAgentLab

universe u

/-- How one call ends. -/
inductive Outcome (ε : Type u) (α : Type u) where
  | ok (value : α)
  | err (error : ε)
  | fault
  | diverges
deriving DecidableEq, Repr

namespace Outcome

variable {ε α β : Type u}

/-- The call came back with a value. -/
def IsOk : Outcome ε α → Prop
  | ok _ => True
  | _ => False

/-- The call came back with an error code. -/
def IsErr : Outcome ε α → Prop
  | err _ => True
  | _ => False

instance (r : Outcome ε α) : Decidable r.IsOk := by
  cases r <;> unfold IsOk <;> infer_instance

instance (r : Outcome ε α) : Decidable r.IsErr := by
  cases r <;> unfold IsErr <;> infer_instance

def map (f : α → β) : Outcome ε α → Outcome ε β
  | ok a => ok (f a)
  | err e => err e
  | fault => fault
  | diverges => diverges

end Outcome

/-- A program over the state `σ` with error codes `ε`. -/
def Prog (σ ε α : Type u) : Type u :=
  σ → Outcome ε α × σ

namespace Prog

variable {σ τ ε α β : Type u}

instance : Monad (Prog σ ε) where
  pure a := fun s => (.ok a, s)
  bind m f := fun s =>
    match m s with
    | (.ok a, s') => f a s'
    | (.err e, s') => (.err e, s')
    | (.fault, s') => (.fault, s')
    | (.diverges, s') => (.diverges, s')

/-- `return -e`. -/
def fail (e : ε) : Prog σ ε α := fun s => (.err e, s)

/-- A read or a write through an invalid pointer. -/
def crash : Prog σ ε α := fun s => (.fault, s)

/-- The calling loop never ends. -/
def hang : Prog σ ε α := fun s => (.diverges, s)

def get : Prog σ ε σ := fun s => (.ok s, s)

def modify (f : σ → σ) : Prog σ ε PUnit := fun s => (.ok ⟨⟩, f s)

/-- `if (m != 0) return -e`: whatever error `m` returns is replaced by `e`. -/
def orElse (m : Prog σ ε α) (e : ε) : Prog σ ε α := fun s =>
  match m s with
  | (.err _, s') => (.err e, s')
  | r => r

/-- `if ((ret = m) != 0) { cleanup }`. -/
def onErr (m : Prog σ ε α) (cleanup : ε → Prog σ ε α) : Prog σ ε α := fun s =>
  match m s with
  | (.err e, s') => cleanup e s'
  | r => r

/-- The return code of `m` as a value, for callers that look at it. -/
def attempt (m : Prog σ ε α) : Prog σ ε (Except ε α) := fun s =>
  match m s with
  | (.ok a, s') => (.ok (.ok a), s')
  | (.err e, s') => (.ok (.error e), s')
  | (.fault, s') => (.fault, s')
  | (.diverges, s') => (.diverges, s')

/-- Run a program on one component of a larger state. -/
def zoom (view : τ → σ) (put : σ → τ → τ) (m : Prog σ ε α) : Prog τ ε α :=
  fun t =>
    match m (view t) with
    | (r, s') => (r, put s' t)

/-- `for (i = first; i < first + count; i++) body(i)`. -/
def forCount (body : Nat → Prog σ ε PUnit) : Nat → Nat → Prog σ ε PUnit
  | 0, _ => pure ⟨⟩
  | count + 1, first => do
      body first
      forCount body count (first + 1)

/-- A loop with at most `fuel` passes over loop variables of type `α`; a pass
delivers the next ones, or ends the loop. -/
def loop (body : α → Prog σ ε (Option α)) : Nat → α → Prog σ ε α
  | 0, a => pure a
  | fuel + 1, a => do
      let next ← body a
      next.elim (pure a) (loop body fuel)

theorem pure_apply (a : α) (s : σ) : (pure a : Prog σ ε α) s = (.ok a, s) := rfl

theorem fail_apply (e : ε) (s : σ) : (fail e : Prog σ ε α) s = (.err e, s) := rfl

theorem get_apply (s : σ) : (get : Prog σ ε σ) s = (.ok s, s) := rfl

theorem modify_apply (f : σ → σ) (s : σ) :
    (modify f : Prog σ ε PUnit) s = (.ok ⟨⟩, f s) := rfl

theorem bind_ok {m : Prog σ ε α} {s s' : σ} {a : α} (h : m s = (.ok a, s'))
    (f : α → Prog σ ε β) : (m >>= f) s = f a s' := by
  simp only [bind, h]

theorem bind_err {m : Prog σ ε α} {s s' : σ} {e : ε} (h : m s = (.err e, s'))
    (f : α → Prog σ ε β) : (m >>= f) s = (.err e, s') := by
  simp only [bind, h]

/-- A sequence that delivers a value went through both programs. -/
theorem of_bind_ok {m : Prog σ ε α} {f : α → Prog σ ε β} {s s' : σ} {b : β}
    (h : (m >>= f) s = (.ok b, s')) : ∃ a s₁, m s = (.ok a, s₁) ∧ f a s₁ = (.ok b, s') := by
  simp only [bind] at h
  cases hm : m s with
  | mk r s₁ =>
      rw [hm] at h
      cases r with
      | ok a => exact ⟨a, s₁, rfl, h⟩
      | err e => cases h
      | fault => cases h
      | diverges => cases h

theorem get_bind (f : σ → Prog σ ε β) (s : σ) : (get >>= f) s = f s s := rfl

theorem modify_bind (g : σ → σ) (f : PUnit → Prog σ ε β) (s : σ) :
    (modify g >>= f) s = f ⟨⟩ (g s) := rfl

theorem pure_bind_apply (a : α) (f : α → Prog σ ε β) (s : σ) :
    ((pure a : Prog σ ε α) >>= f) s = f a s := rfl

theorem orElse_ok {m : Prog σ ε α} {s s' : σ} {a : α} (h : m s = (.ok a, s'))
    (e : ε) : orElse m e s = (.ok a, s') := by
  simp only [orElse, h]

theorem orElse_err {m : Prog σ ε α} {s s' : σ} {e' : ε} (h : m s = (.err e', s'))
    (e : ε) : orElse m e s = (.err e, s') := by
  simp only [orElse, h]

theorem of_orElse_ok {m : Prog σ ε α} {s s' : σ} {a : α} {e : ε}
    (h : orElse m e s = (.ok a, s')) : m s = (.ok a, s') := by
  simp only [orElse] at h
  cases hm : m s with
  | mk r s₁ =>
      rw [hm] at h
      cases r with
      | ok a => exact h
      | err e => cases h
      | fault => cases h
      | diverges => cases h

theorem onErr_ok {m : Prog σ ε α} {s s' : σ} {a : α} (h : m s = (.ok a, s'))
    (cleanup : ε → Prog σ ε α) : onErr m cleanup s = (.ok a, s') := by
  simp only [onErr, h]

theorem onErr_err {m : Prog σ ε α} {s s' : σ} {e : ε} (h : m s = (.err e, s'))
    (cleanup : ε → Prog σ ε α) : onErr m cleanup s = cleanup e s' := by
  simp only [onErr, h]

theorem attempt_ok {m : Prog σ ε α} {s s' : σ} {a : α} (h : m s = (.ok a, s')) :
    attempt m s = (.ok (.ok a), s') := by
  simp only [attempt, h]

theorem attempt_err {m : Prog σ ε α} {s s' : σ} {e : ε} (h : m s = (.err e, s')) :
    attempt m s = (.ok (.error e), s') := by
  simp only [attempt, h]

theorem zoom_apply {view : τ → σ} {put : σ → τ → τ} {m : Prog σ ε α} {t : τ}
    {r : Outcome ε α} {s' : σ} (h : m (view t) = (r, s')) :
    zoom view put m t = (r, put s' t) := by
  simp only [zoom, h]

theorem of_zoom_ok {view : τ → σ} {put : σ → τ → τ} {m : Prog σ ε α} {t t' : τ} {a : α}
    (h : zoom view put m t = (.ok a, t')) : ∃ s', m (view t) = (.ok a, s') ∧ t' = put s' t := by
  simp only [zoom] at h
  cases hm : m (view t) with
  | mk r s' =>
      rw [hm] at h
      obtain ⟨hr, ht⟩ := Prod.mk.inj h
      subst hr
      exact ⟨s', rfl, ht.symm⟩

/-- A call whose cleanup fails delivers its value without it. -/
theorem of_onErr_ok {m : Prog σ ε α} {cleanup : ε → Prog σ ε α} {s s' : σ} {a : α}
    (hfail : ∀ e s s' a, cleanup e s ≠ (.ok a, s')) (h : onErr m cleanup s = (.ok a, s')) :
    m s = (.ok a, s') := by
  simp only [onErr] at h
  cases hm : m s with
  | mk r s₁ =>
      rw [hm] at h
      cases r with
      | ok a => exact h
      | err e => exact absurd h (hfail e s₁ s' a)
      | fault => cases h
      | diverges => cases h

theorem forCount_ok (body : Nat → Prog σ ε PUnit) {count first : Nat} {s s' : σ}
    {r : Outcome ε PUnit × σ} (h : body first s = (.ok ⟨⟩, s'))
    (hrest : forCount body count (first + 1) s' = r) : forCount body (count + 1) first s = r := by
  rw [forCount, bind_ok h, hrest]

theorem forCount_err (body : Nat → Prog σ ε PUnit) {first : Nat} {s s' : σ} {e : ε}
    (h : body first s = (.err e, s')) (count : Nat) :
    forCount body (count + 1) first s = (.err e, s') := by
  rw [forCount, bind_err h]

/-- The counting loop keeps an invariant that may mention the counter: it is
enough that every pass succeeds from it and leads to it at the next value. -/
theorem forCount_inv (body : Nat → Prog σ ε PUnit) (inv : Nat → σ → Prop)
    (count first : Nat) (s : σ) (hs : inv first s)
    (hstep : ∀ i s, first ≤ i → i < first + count → inv i s →
      ∃ s', body i s = (.ok ⟨⟩, s') ∧ inv (i + 1) s') :
    ∃ s', forCount body count first s = (.ok ⟨⟩, s') ∧
      inv (first + count) s' := by
  induction count generalizing first s with
  | zero => exact ⟨s, rfl, hs⟩
  | succ count ih =>
      obtain ⟨next, hrun, hnext⟩ := hstep first s (Nat.le_refl _) (by omega) hs
      obtain ⟨last, hlast, hinv⟩ := ih (first + 1) next hnext (fun i s hle hlt hi =>
        hstep i s (by omega) (by omega) hi)
      refine ⟨last, ?_, ?_⟩
      · rw [forCount, bind_ok hrun, hlast]
      · rw [show first + (count + 1) = first + 1 + count by omega]
        exact hinv

end Prog

end OsAgentLab
