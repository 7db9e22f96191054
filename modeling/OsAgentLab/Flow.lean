/-
Loops that may be left early.  A pass either goes on with a new loop state or
ends the loop with a result; nested loops over nested lists are one loop over
the flattened list.
-/
import Mathlib.Data.List.Basic

namespace OsAgentLab

universe u v w

/-- What one pass of a loop does. -/
inductive Flow (σ : Type u) (ρ : Type v) where
  | next (state : σ)
  | done (result : ρ)
deriving DecidableEq, Repr

namespace Flow

variable {ι κ : Type w} {σ : Type u} {ρ : Type v}

/-- Go on with the next state, or keep the result. -/
def bind (flow : Flow σ ρ) (f : σ → Flow σ ρ) : Flow σ ρ :=
  match flow with
  | next s => f s
  | done r => done r

/-- Run the passes over a list until one of them ends the loop. -/
def loop (pass : ι → σ → Flow σ ρ) : List ι → σ → Flow σ ρ
  | [], s => next s
  | i :: rest, s => (pass i s).bind (loop pass rest)

@[simp] theorem next_bind (s : σ) (f : σ → Flow σ ρ) : (next s).bind f = f s := rfl

@[simp] theorem done_bind (r : ρ) (f : σ → Flow σ ρ) :
    (done r : Flow σ ρ).bind f = done r := rfl

@[simp] theorem bind_next (flow : Flow σ ρ) : flow.bind next = flow := by
  cases flow <;> rfl

theorem bind_assoc (flow : Flow σ ρ) (f g : σ → Flow σ ρ) :
    (flow.bind f).bind g = flow.bind fun s => (f s).bind g := by
  cases flow <;> rfl

@[simp] theorem loop_nil (pass : ι → σ → Flow σ ρ) (s : σ) :
    loop pass [] s = next s := rfl

@[simp] theorem loop_cons (pass : ι → σ → Flow σ ρ) (i : ι) (rest : List ι) (s : σ) :
    loop pass (i :: rest) s = (pass i s).bind (loop pass rest) := rfl

theorem loop_append (pass : ι → σ → Flow σ ρ) (left right : List ι) (s : σ) :
    loop pass (left ++ right) s = (loop pass left s).bind (loop pass right) := by
  induction left generalizing s with
  | nil => rfl
  | cons i rest ih =>
      simp only [List.cons_append, loop_cons, bind_assoc]
      cases pass i s with
      | next s' => simp only [next_bind, ih]
      | done r => rfl

/-- The next state is in `I`, or the result in `R`. -/
def Ends (I : σ → Prop) (R : ρ → Prop) : Flow σ ρ → Prop
  | next s => I s
  | done r => R r

/-- A loop keeps what its passes over the items keep. -/
theorem loop_ends_of_mem {pass : ι → σ → Flow σ ρ} {I : σ → Prop} {R : ρ → Prop} {items : List ι}
    (h : ∀ i ∈ items, ∀ s, I s → (pass i s).Ends I R) {s : σ} (hs : I s) :
    (loop pass items s).Ends I R := by
  induction items generalizing s with
  | nil => exact hs
  | cons i rest ih =>
      have hpass := h i List.mem_cons_self s hs
      have hrest : ∀ j ∈ rest, ∀ s, I s → (pass j s).Ends I R := fun j hj =>
        h j (List.mem_cons_of_mem i hj)
      rw [loop_cons]
      cases hflow : pass i s with
      | next s' =>
          rw [hflow] at hpass
          exact ih hrest hpass
      | done r =>
          rw [hflow] at hpass
          exact hpass

/-- A loop keeps what each of its passes keeps. -/
theorem loop_ends {pass : ι → σ → Flow σ ρ} {I : σ → Prop} {R : ρ → Prop}
    (h : ∀ i s, I s → (pass i s).Ends I R) (items : List ι) (s : σ) (hs : I s) :
    (loop pass items s).Ends I R :=
  loop_ends_of_mem (fun i _ => h i) hs

/-- Two passes go on together, with states in `S`, or end together, with results in `R`. -/
def Related {σ' ρ' : Type*} (S : σ → σ' → Prop) (R : ρ → ρ' → Prop) :
    Flow σ ρ → Flow σ' ρ' → Prop
  | next s, next s' => S s s'
  | done r, done r' => R r r'
  | _, _ => False

/-- Two loops over the same items stay together when their passes over these do. -/
theorem loop_related_of_mem {σ' ρ' : Type*} {S : σ → σ' → Prop} {R : ρ → ρ' → Prop}
    {pass : ι → σ → Flow σ ρ} {pass' : ι → σ' → Flow σ' ρ'} {items : List ι}
    (h : ∀ i ∈ items, ∀ s s', S s s' → Related S R (pass i s) (pass' i s')) {s : σ} {s' : σ'}
    (hs : S s s') : Related S R (loop pass items s) (loop pass' items s') := by
  induction items generalizing s s' with
  | nil => exact hs
  | cons i rest ih =>
      have hpass := h i List.mem_cons_self s s' hs
      have hrest : ∀ j ∈ rest, ∀ s s', S s s' → Related S R (pass j s) (pass' j s') := fun j hj =>
        h j (List.mem_cons_of_mem i hj)
      rw [loop_cons, loop_cons]
      cases hflow : pass i s with
      | next t =>
          cases hflow' : pass' i s' with
          | next t' =>
              rw [hflow, hflow'] at hpass
              exact ih hrest hpass
          | done r' =>
              rw [hflow, hflow'] at hpass
              cases hpass
      | done r =>
          cases hflow' : pass' i s' with
          | next t' =>
              rw [hflow, hflow'] at hpass
              cases hpass
          | done r' =>
              rw [hflow, hflow'] at hpass
              exact hpass

/-- Two loops over the same items stay together when their passes do. -/
theorem loop_related {σ' ρ' : Type*} {S : σ → σ' → Prop} {R : ρ → ρ' → Prop}
    {pass : ι → σ → Flow σ ρ} {pass' : ι → σ' → Flow σ' ρ'}
    (h : ∀ i s s', S s s' → Related S R (pass i s) (pass' i s')) (items : List ι) {s : σ} {s' : σ'}
    (hs : S s s') : Related S R (loop pass items s) (loop pass' items s') :=
  loop_related_of_mem (fun i _ => h i) hs

/-- A loop whose passes are as before, unless they end badly, is as before, unless it ends badly. -/
theorem loop_eq_unless {pass pass' : ι → σ → Flow σ ρ} {bad : ρ → Prop}
    (h : ∀ i s, (∀ r, pass i s = done r → ¬bad r) → pass' i s = pass i s) (items : List ι) (s : σ)
    (hgood : ∀ r, loop pass items s = done r → ¬bad r) :
    loop pass' items s = loop pass items s := by
  induction items generalizing s with
  | nil => rfl
  | cons i rest ih =>
      rw [loop_cons] at hgood
      rw [loop_cons, loop_cons]
      cases hflow : pass i s with
      | next s' =>
          rw [hflow, next_bind] at hgood
          have hnext : ∀ r, pass i s = done r → ¬bad r := fun r hr => by
            rw [hflow] at hr
            cases hr
          rw [h i s hnext, hflow, next_bind, next_bind]
          exact ih s' hgood
      | done r =>
          rw [hflow, done_bind] at hgood
          have hdone : ∀ r', pass i s = done r' → ¬bad r' := fun r' hr => by
            rw [hflow] at hr
            exact hgood r' hr
          rw [h i s hdone, hflow, done_bind, done_bind]

/-- An inner loop over the items of `i` makes one loop over all items. -/
theorem loop_flatMap (pass : κ → σ → Flow σ ρ) (items : ι → List κ)
    (outer : List ι) (s : σ) :
    loop pass (outer.flatMap items) s =
      loop (fun i => loop pass (items i)) outer s := by
  induction outer generalizing s with
  | nil => rfl
  | cons i rest ih =>
      rw [List.flatMap_cons, loop_append, loop_cons]
      cases loop pass (items i) s with
      | next s' => simp only [next_bind, ih]
      | done r => rfl

theorem loop_map (pass : κ → σ → Flow σ ρ) (f : ι → κ) (items : List ι) (s : σ) :
    loop pass (items.map f) s = loop (fun i => pass (f i)) items s := by
  induction items generalizing s with
  | nil => rfl
  | cons i rest ih =>
      simp only [List.map_cons, loop_cons]
      cases pass (f i) s with
      | next s' => simp only [next_bind, ih]
      | done r => rfl

theorem loop_congr {pass pass' : ι → σ → Flow σ ρ} {items : List ι}
    (h : ∀ i ∈ items, pass i = pass' i) (s : σ) :
    loop pass items s = loop pass' items s := by
  induction items generalizing s with
  | nil => rfl
  | cons i rest ih =>
      simp only [loop_cons, h i List.mem_cons_self]
      cases pass' i s with
      | next s' => exact ih (fun j hj => h j (List.mem_cons_of_mem i hj)) s'
      | done r => rfl

/-- Whatever holds at the start and is kept by every pass that goes on holds
in the last state, if no pass ends the loop. -/
theorem loop_next_inv {pass : ι → σ → Flow σ ρ} (inv : σ → Prop) {items : List ι}
    {s s' : σ} (hs : inv s)
    (hstep : ∀ i ∈ items, ∀ s s', inv s → pass i s = next s' → inv s')
    (h : loop pass items s = next s') : inv s' := by
  induction items generalizing s with
  | nil =>
      cases h
      exact hs
  | cons i rest ih =>
      rw [loop_cons] at h
      cases hpass : pass i s with
      | next mid =>
          rw [hpass, next_bind] at h
          exact ih (hstep i List.mem_cons_self s mid hs hpass)
            (fun j hj => hstep j (List.mem_cons_of_mem i hj)) h
      | done r =>
          rw [hpass, done_bind] at h
          cases h

end Flow

end OsAgentLab
