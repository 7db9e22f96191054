/-
Rules of pre- and postconditions for state programs.  A triple says what holds
when the program delivers a value, when it returns an error, and when it stops
for another reason.
-/
import OsAgentLab.Program

namespace OsAgentLab

universe u

namespace Prog

variable {σ τ ε α β : Type u}

/-- From every state in `P`, the program ends with a value in `Q`, with an error
in `E`, or without coming back in `C`. -/
def Triple (P : σ → Prop) (m : Prog σ ε α) (Q : α → σ → Prop) (E : ε → σ → Prop)
    (C : σ → Prop) : Prop :=
  ∀ s, P s → match m s with
    | (.ok a, s') => Q a s'
    | (.err e, s') => E e s'
    | (.fault, s') => C s'
    | (.diverges, s') => C s'

/-- The program keeps `I`, however it ends. -/
def Keeps (I : σ → Prop) (m : Prog σ ε α) : Prop :=
  Triple I m (fun _ => I) (fun _ => I) I

namespace Triple

variable {P P' : σ → Prop} {m : Prog σ ε α} {Q Q' : α → σ → Prop} {E E' : ε → σ → Prop}
  {C C' : σ → Prop}

theorem ok (h : Triple P m Q E C) {s s' : σ} {a : α} (hs : P s) (hrun : m s = (.ok a, s')) :
    Q a s' := by
  have hpost := h s hs
  rw [hrun] at hpost
  exact hpost

theorem err (h : Triple P m Q E C) {s s' : σ} {e : ε} (hs : P s) (hrun : m s = (.err e, s')) :
    E e s' := by
  have hpost := h s hs
  rw [hrun] at hpost
  exact hpost

theorem fault (h : Triple P m Q E C) {s s' : σ} (hs : P s) (hrun : m s = (.fault, s')) : C s' := by
  have hpost := h s hs
  rw [hrun] at hpost
  exact hpost

/-- A triple from the run of every state. -/
theorem of_ok (h : ∀ s, P s → ∃ a s', m s = (.ok a, s') ∧ Q a s') : Triple P m Q E C := by
  intro s hs
  obtain ⟨a, s', hrun, hpost⟩ := h s hs
  rw [hrun]
  exact hpost

theorem conseq (h : Triple P m Q E C) (hP : ∀ s, P' s → P s) (hQ : ∀ a s, Q a s → Q' a s)
    (hE : ∀ e s, E e s → E' e s) (hC : ∀ s, C s → C' s) : Triple P' m Q' E' C' := by
  intro s hs
  have hpost := h s (hP s hs)
  split at hpost
  · exact hQ _ _ hpost
  · exact hE _ _ hpost
  · exact hC _ hpost
  · exact hC _ hpost

theorem pre (h : Triple P m Q E C) (hP : ∀ s, P' s → P s) : Triple P' m Q E C :=
  h.conseq hP (fun _ _ => id) (fun _ _ => id) (fun _ => id)

theorem post (h : Triple P m Q E C) (hQ : ∀ a s, Q a s → Q' a s) : Triple P m Q' E C :=
  h.conseq (fun _ => id) hQ (fun _ _ => id) (fun _ => id)

/-- A fact about the first state may be used as an assumption. -/
theorem assume {p : Prop} (h : p → Triple P m Q E C) (hP : ∀ s, P s → p) : Triple P m Q E C :=
  fun s hs => h (hP s hs) s hs

theorem pure {a : α} (h : ∀ s, P s → Q a s) : Triple P (Pure.pure a : Prog σ ε α) Q E C := h

theorem fail {e : ε} (h : ∀ s, P s → E e s) : Triple P (Prog.fail e : Prog σ ε α) Q E C := h

theorem crash (h : ∀ s, P s → C s) : Triple P (Prog.crash : Prog σ ε α) Q E C := h

theorem modify {f : σ → σ} {Q : PUnit → σ → Prop} (h : ∀ s, P s → Q ⟨⟩ (f s)) :
    Triple P (Prog.modify f : Prog σ ε PUnit) Q E C := h

theorem bind {R : α → σ → Prop} {Q : β → σ → Prop} {f : α → Prog σ ε β}
    (hm : Triple P m R E C) (hf : ∀ a, Triple (R a) (f a) Q E C) :
    Triple P (m >>= f) Q E C := by
  intro s hs
  have hpost := hm s hs
  simp only [Bind.bind]
  cases hrun : m s with
  | mk r s' =>
      rw [hrun] at hpost
      cases r with
      | ok a => exact hf a s' hpost
      | err e => exact hpost
      | fault => exact hpost
      | diverges => exact hpost

/-- The value read is the state itself. -/
theorem get_bind {Q : β → σ → Prop} {f : σ → Prog σ ε β}
    (h : ∀ t, P t → Triple (fun s => s = t) (f t) Q E C) :
    Triple P (Prog.get >>= f) Q E C := by
  intro s hs
  exact h s hs s rfl

theorem ite {c : Prop} [Decidable c] {m' : Prog σ ε α} (hpos : c → Triple P m Q E C)
    (hneg : ¬ c → Triple P m' Q E C) : Triple P (if c then m else m') Q E C := by
  by_cases h : c
  · rw [if_pos h]
    exact hpos h
  · rw [if_neg h]
    exact hneg h

theorem elim {o : Option β} {n : Prog σ ε α} {f : β → Prog σ ε α} (hnone : Triple P n Q E C)
    (hsome : ∀ b, o = some b → Triple P (f b) Q E C) : Triple P (o.elim n f) Q E C := by
  cases ho : o with
  | none => exact hnone
  | some b => exact hsome b ho

theorem orElse {e : ε} (h : Triple P m Q (fun _ => E e) C) :
    Triple P (Prog.orElse m e) Q E C := by
  intro s hs
  have hpost := h s hs
  unfold Prog.orElse
  cases hrun : m s with
  | mk r s' =>
      rw [hrun] at hpost
      cases r <;> exact hpost

theorem onErr {F : ε → σ → Prop} {cleanup : ε → Prog σ ε α} (h : Triple P m Q F C)
    (hcleanup : ∀ e, Triple (F e) (cleanup e) Q E C) :
    Triple P (Prog.onErr m cleanup) Q E C := by
  intro s hs
  have hpost := h s hs
  unfold Prog.onErr
  cases hrun : m s with
  | mk r s' =>
      rw [hrun] at hpost
      cases r with
      | err e => exact hcleanup e s' hpost
      | ok a => exact hpost
      | fault => exact hpost
      | diverges => exact hpost

theorem attempt {Q : Except ε α → σ → Prop}
    (h : Triple P m (fun a => Q (.ok a)) (fun e => Q (.error e)) C) :
    Triple P (Prog.attempt m) Q E C := by
  intro s hs
  have hpost := h s hs
  unfold Prog.attempt
  cases hrun : m s with
  | mk r s' =>
      rw [hrun] at hpost
      cases r <;> exact hpost

/-- A program on a component of the state. -/
theorem zoom {view : τ → σ} {put : σ → τ → τ} {P : τ → Prop} {Q : α → τ → Prop}
    {E : ε → τ → Prop} {C : τ → Prop}
    (h : ∀ t, P t → Triple (fun s => s = view t) m (fun a s => Q a (put s t))
      (fun e s => E e (put s t)) (fun s => C (put s t))) :
    Triple P (Prog.zoom view put m) Q E C := by
  intro t ht
  have hpost := h t ht (view t) rfl
  unfold Prog.zoom
  cases hrun : m (view t) with
  | mk r s' =>
      rw [hrun] at hpost
      cases r <;> exact hpost

/-- A counting loop keeps an invariant over its counter. -/
theorem forCount {body : Nat → Prog σ ε PUnit} {J : Nat → σ → Prop} {first : Nat} (count : Nat)
    (h : ∀ i, first ≤ i → i < first + count →
      Triple (J i) (body i) (fun _ => J (i + 1)) E C) :
    Triple (J first) (Prog.forCount body count first) (fun _ => J (first + count)) E C := by
  induction count generalizing first with
  | zero => exact pure fun s hs => hs
  | succ count ih =>
      have hrest := @ih (first + 1) fun i hle hlt => h i (by omega) (by omega)
      rw [show first + 1 + count = first + (count + 1) by omega] at hrest
      exact bind (h first (Nat.le_refl _) (by omega)) fun _ => hrest

/-- A fold over a list keeps an invariant over the value so far. -/
theorem foldlM {f : β → α → Prog σ ε β} {J : β → σ → Prop} (l : List α) (b : β)
    (h : ∀ b, ∀ a ∈ l, Triple (J b) (f b a) J E C) :
    Triple (J b) (l.foldlM f b) J E C := by
  induction l generalizing b with
  | nil => exact pure fun s hs => hs
  | cons a l ih =>
      rw [List.foldlM_cons]
      exact bind (h b a List.mem_cons_self) fun b' =>
        ih b' fun b a ha => h b a (List.mem_cons_of_mem _ ha)

/-- A loop keeps an invariant over its variables; the pass that ends it leaves
them as they are. -/
theorem loop {body : α → Prog σ ε (Option α)} {J : α → σ → Prop}
    (h : ∀ a, Triple (J a) (body a) (fun r => r.elim (J a) J) E C) (fuel : Nat) (a : α) :
    Triple (J a) (Prog.loop body fuel a) J E C := by
  induction fuel generalizing a with
  | zero => exact pure fun s hs => hs
  | succ fuel ih =>
      refine bind (h a) fun next => ?_
      cases next with
      | none => exact pure fun s hs => hs
      | some b => exact ih b

/-- A loop whose passes lower a rank ends by itself: what the last pass says of
the loop variables holds. -/
theorem loop_ends {body : α → Prog σ ε (Option α)} {J D : α → σ → Prop} (rank : α → Nat)
    (h : ∀ a, Triple (J a) (body a)
      (fun r s => r.elim (D a s) fun b => J b s ∧ rank b < rank a) E C)
    (fuel : Nat) (a : α) (hfuel : rank a < fuel) :
    Triple (J a) (Prog.loop body fuel a) D E C := by
  induction fuel generalizing a with
  | zero => exact absurd hfuel (Nat.not_lt_zero _)
  | succ fuel ih =>
      refine bind (h a) fun next => ?_
      cases next with
      | none => exact pure fun s hs => hs
      | some b =>
          exact assume (fun hlt : rank b < rank a => (ih b (by omega)).pre fun s hs => hs.1)
            fun s hs => hs.2

end Triple

namespace Keeps

variable {I : σ → Prop} {m : Prog σ ε α}

theorem pure (a : α) : Keeps I (Pure.pure a : Prog σ ε α) := Triple.pure fun _ hs => hs

theorem fail (e : ε) : Keeps I (Prog.fail e : Prog σ ε α) := Triple.fail fun _ hs => hs

theorem crash : Keeps I (Prog.crash : Prog σ ε α) := Triple.crash fun _ hs => hs

/-- A program that never changes the state. -/
theorem of_snd (h : ∀ s, (m s).2 = s) : Keeps I m := by
  intro s hs
  have hsnd := h s
  cases hrun : m s with
  | mk r s' =>
      rw [hrun] at hsnd
      obtain rfl : s' = s := hsnd
      cases r <;> exact hs

theorem modify {f : σ → σ} (h : ∀ s, I s → I (f s)) :
    Keeps I (Prog.modify f : Prog σ ε PUnit) := Triple.modify h

theorem bind {f : α → Prog σ ε β} (hm : Keeps I m) (hf : ∀ a, Keeps I (f a)) :
    Keeps I (m >>= f) :=
  Triple.bind hm hf

theorem get_bind {f : σ → Prog σ ε β} (h : ∀ t, Keeps I (f t)) : Keeps I (Prog.get >>= f) :=
  fun s hs => h s s hs

theorem ite {c : Prop} [Decidable c] {m' : Prog σ ε α} (hpos : Keeps I m) (hneg : Keeps I m') :
    Keeps I (if c then m else m') :=
  Triple.ite (fun _ => hpos) fun _ => hneg

theorem elim {o : Option β} {n : Prog σ ε α} {f : β → Prog σ ε α} (hnone : Keeps I n)
    (hsome : ∀ b, Keeps I (f b)) : Keeps I (o.elim n f) :=
  Triple.elim hnone fun b _ => hsome b

theorem orElse {e : ε} (h : Keeps I m) : Keeps I (Prog.orElse m e) := Triple.orElse h

theorem onErr {cleanup : ε → Prog σ ε α} (h : Keeps I m) (hcleanup : ∀ e, Keeps I (cleanup e)) :
    Keeps I (Prog.onErr m cleanup) :=
  Triple.onErr h hcleanup

theorem attempt (h : Keeps I m) : Keeps I (Prog.attempt m) := Triple.attempt h

/-- What a program does to one component of the state does not matter to a fact
about the others. -/
theorem zoom {view : τ → σ} {put : σ → τ → τ} {I : τ → Prop} (h : ∀ s t, I t → I (put s t)) :
    Keeps I (Prog.zoom view put m) :=
  Triple.zoom fun t ht s _ => by
    split <;> exact h _ t ht

theorem forCount {body : Nat → Prog σ ε PUnit} (h : ∀ i, Keeps I (body i)) (count first : Nat) :
    Keeps I (Prog.forCount body count first) :=
  Triple.forCount (J := fun _ => I) count fun i _ _ => h i

theorem loop {body : α → Prog σ ε (Option α)} (h : ∀ a, Keeps I (body a)) (fuel : Nat) (a : α) :
    Keeps I (Prog.loop body fuel a) :=
  Triple.loop (J := fun _ => I) (fun a => (h a).post fun r _ hs => by
    cases r with
    | none => exact hs
    | some b => exact hs) fuel a

theorem foldlM {f : β → α → Prog σ ε β} (h : ∀ b a, Keeps I (f b a)) (l : List α) (b : β) :
    Keeps I (l.foldlM f b) :=
  Triple.foldlM (J := fun _ => I) l b fun b a _ => h b a

end Keeps

end Prog

end OsAgentLab
