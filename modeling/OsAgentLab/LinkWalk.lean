/-
Loops along stored links.  A pass over the place where the loop stands either
ends the loop or goes on; then the link of the place is read, which leads to the
next place, is the last one, or cannot be read.  Which places such a loop visits
and when it comes back is a question about the paths from its start.
-/
import OsAgentLab.Flow

namespace OsAgentLab

universe u v w

/-- What is stored at a place. -/
inductive Link (α : Type u) where
  | onward (place : α)
  | last
  | broken
deriving DecidableEq, Repr

namespace Link

/-- How a walk ends. -/
inductive WalkEnd (α : Type u) (σ : Type v) (ρ : Type w) where
  | found (result : ρ)
  | ran (place : α) (state : σ)
  | cut (place : α) (state : σ)
deriving DecidableEq, Repr

variable {α : Type u} {σ : Type v} {ρ : Type w}

/-- The walk from `a` on, with at most `fuel` passes. -/
def walk (pass : α → σ → Flow σ ρ) (link : α → Link α) :
    Nat → α → σ → Option (WalkEnd α σ ρ)
  | 0, _, _ => none
  | fuel + 1, a, s =>
      match pass a s with
      | .done r => some (.found r)
      | .next s' =>
          match link a with
          | .onward b => walk pass link fuel b s'
          | .last => some (.ran a s')
          | .broken => some (.cut a s')

/-- The places of its first `fuel` passes. -/
def visited (pass : α → σ → Flow σ ρ) (link : α → Link α) : Nat → α → σ → List α
  | 0, _, _ => []
  | fuel + 1, a, s =>
      a :: match pass a s with
        | .done _ => []
        | .next s' =>
            match link a with
            | .onward b => visited pass link fuel b s'
            | _ => []

/-- The links lead from `a` through the places of the list. -/
def Leads (link : α → Link α) : α → List α → Prop
  | _, [] => True
  | a, b :: rest => link a = .onward b ∧ Leads link b rest

/-- There is no way on from the last place of the path. -/
def Stuck (link : α → Link α) (a : α) (rest : List α) : Prop :=
  ∀ b, link (rest.getLastD a) ≠ .onward b

/-- The passes over the path end the loop, or there is no way on from its end. -/
def Ends (pass : α → σ → Flow σ ρ) (link : α → Link α) (a : α) (rest : List α) (s : σ) : Prop :=
  (∃ r, Flow.loop pass (a :: rest) s = .done r) ∨ Stuck link a rest

/-- There is a path from `a` through places with `P` on which the loop ends. -/
def Settled (pass : α → σ → Flow σ ρ) (link : α → Link α) (P : α → Prop) (a : α) (s : σ) : Prop :=
  ∃ rest, Leads link a rest ∧ (∀ x ∈ a :: rest, P x) ∧ Ends pass link a rest s

variable {pass : α → σ → Flow σ ρ} {link : α → Link α} {P : α → Prop}

theorem stuck_cons {a b : α} {rest : List α} :
    Stuck link a (b :: rest) ↔ Stuck link b rest := by
  cases rest <;> rfl

theorem Leads.snoc {a b : α} {rest : List α} (h : Leads link a rest)
    (hlink : link (rest.getLastD a) = .onward b) : Leads link a (rest ++ [b]) := by
  induction rest generalizing a with
  | nil => exact ⟨hlink, trivial⟩
  | cons c rest ih =>
      obtain ⟨hfirst, hrest⟩ := h
      refine ⟨hfirst, ih hrest ?_⟩
      cases rest <;> exact hlink

theorem ends_cons {a b : α} {rest : List α} {s s' : σ} (hpass : pass a s = .next s') :
    Ends pass link a (b :: rest) s ↔ Ends pass link b rest s' := by
  unfold Ends
  rw [Flow.loop_cons, hpass, Flow.next_bind, stuck_cons]

/-- A path of one place on which no pass ends the loop is stuck. -/
theorem Ends.stuck {a : α} {s s' : σ} (h : Ends pass link a [] s) (hpass : pass a s = .next s')
    (b : α) : link a ≠ .onward b := by
  rcases h with ⟨r, hr⟩ | hstuck
  · rw [Flow.loop_cons, hpass] at hr
    cases hr
  · exact hstuck b

theorem walk_isSome_of_settled {a : α} {s : σ} (h : Settled pass link P a s) :
    ∃ fuel, (walk pass link fuel a s).isSome := by
  obtain ⟨rest, hleads, hall, hend⟩ := h
  clear hall
  induction rest generalizing a s with
  | nil =>
      refine ⟨1, ?_⟩
      rw [walk]
      cases hpass : pass a s with
      | done r => rfl
      | next s' =>
          cases hlink : link a with
          | onward b => exact absurd hlink (hend.stuck hpass b)
          | last => rfl
          | broken => rfl
  | cons b rest ih =>
      obtain ⟨hlink, hleads⟩ := hleads
      cases hpass : pass a s with
      | done r => exact ⟨1, by rw [walk, hpass]; rfl⟩
      | next s' =>
          obtain ⟨fuel, hfuel⟩ := ih hleads ((ends_cons hpass).mp hend)
          refine ⟨fuel + 1, ?_⟩
          rw [walk, hpass]
          simp only [hlink, hfuel]

theorem visited_of_settled {a : α} {s : σ} (h : Settled pass link P a s) (fuel : Nat) :
    ∀ x ∈ visited pass link fuel a s, P x := by
  obtain ⟨rest, hleads, hall, hend⟩ := h
  induction rest generalizing a s fuel with
  | nil =>
      cases fuel with
      | zero => exact fun x hx => absurd hx List.not_mem_nil
      | succ fuel =>
          intro x hx
          rw [visited] at hx
          rcases List.mem_cons.mp hx with rfl | hx
          · exact hall x List.mem_cons_self
          · cases hpass : pass a s with
            | done r =>
                rw [hpass] at hx
                exact absurd hx List.not_mem_nil
            | next s' =>
                cases hlink : link a with
                | onward b => exact absurd hlink (hend.stuck hpass b)
                | last =>
                    simp only [hpass, hlink] at hx
                    exact absurd hx List.not_mem_nil
                | broken =>
                    simp only [hpass, hlink] at hx
                    exact absurd hx List.not_mem_nil
  | cons b rest ih =>
      obtain ⟨hlink, hleads⟩ := hleads
      cases fuel with
      | zero => exact fun x hx => absurd hx List.not_mem_nil
      | succ fuel =>
          intro x hx
          rw [visited] at hx
          rcases List.mem_cons.mp hx with rfl | hx
          · exact hall x List.mem_cons_self
          · cases hpass : pass a s with
            | done r =>
                rw [hpass] at hx
                exact absurd hx List.not_mem_nil
            | next s' =>
                simp only [hpass, hlink] at hx
                exact ih fuel hleads (fun y hy => hall y (List.mem_cons_of_mem a hy))
                  ((ends_cons hpass).mp hend) x hx

theorem settled_of_walk {fuel : Nat} {a : α} {s : σ} (hsome : (walk pass link fuel a s).isSome)
    (hall : ∀ x ∈ visited pass link fuel a s, P x) : Settled pass link P a s := by
  induction fuel generalizing a s with
  | zero => cases hsome
  | succ fuel ih =>
      rw [walk] at hsome
      rw [visited] at hall
      have ha : ∀ x ∈ [a], P x := by
        intro x hx
        rw [List.mem_singleton.mp hx]
        exact hall a List.mem_cons_self
      cases hpass : pass a s with
      | done r =>
          refine ⟨[], trivial, ha, Or.inl ⟨r, ?_⟩⟩
          rw [Flow.loop_cons, hpass]
          rfl
      | next s' =>
          cases hlink : link a with
          | onward b =>
              simp only [hpass, hlink] at hsome hall
              obtain ⟨rest, hleads, hrest, hend⟩ :=
                ih hsome fun x hx => hall x (List.mem_cons_of_mem a hx)
              refine ⟨b :: rest, ⟨hlink, hleads⟩, ?_, (ends_cons hpass).mpr hend⟩
              intro x hx
              rcases List.mem_cons.mp hx with rfl | hx
              · exact hall x List.mem_cons_self
              · exact hrest x hx
          | last =>
              refine ⟨[], trivial, ha, Or.inr fun b hb => ?_⟩
              cases hlink.symm.trans hb
          | broken =>
              refine ⟨[], trivial, ha, Or.inr fun b hb => ?_⟩
              cases hlink.symm.trans hb

/-- A walk comes back and stays among the places with `P` exactly when its start
has a settled path. -/
theorem walk_settled_iff {a : α} {s : σ} :
    ((∃ fuel, (walk pass link fuel a s).isSome) ∧
      ∀ fuel, ∀ x ∈ visited pass link fuel a s, P x) ↔ Settled pass link P a s :=
  ⟨fun ⟨⟨_, hsome⟩, hall⟩ => settled_of_walk hsome (hall _),
    fun h => ⟨walk_isSome_of_settled h, visited_of_settled h⟩⟩

/-- A path on which a pass ends the loop is where the walk ends. -/
theorem walk_found {a : α} {rest : List α} {s : σ} {r : ρ} (hleads : Leads link a rest)
    (hloop : Flow.loop pass (a :: rest) s = .done r) :
    ∃ fuel, walk pass link fuel a s = some (.found r) := by
  induction rest generalizing a s with
  | nil =>
      refine ⟨1, ?_⟩
      rw [Flow.loop_cons] at hloop
      rw [walk]
      cases hpass : pass a s with
      | done r' =>
          rw [hpass] at hloop
          cases hloop
          rfl
      | next s' =>
          rw [hpass] at hloop
          cases hloop
  | cons b rest ih =>
      obtain ⟨hlink, hleads⟩ := hleads
      rw [Flow.loop_cons] at hloop
      cases hpass : pass a s with
      | done r' =>
          rw [hpass] at hloop
          cases hloop
          exact ⟨1, by rw [walk, hpass]⟩
      | next s' =>
          rw [hpass, Flow.next_bind] at hloop
          obtain ⟨fuel, hfuel⟩ := ih hleads hloop
          refine ⟨fuel + 1, ?_⟩
          rw [walk, hpass]
          simp only [hlink, hfuel]

/-- The place where a walk ends is one of those it visits. -/
theorem mem_visited_of_walk {fuel : Nat} {a b : α} {s s' : σ} {stop : WalkEnd α σ ρ}
    (h : walk pass link fuel a s = some stop) (hstop : stop = .ran b s' ∨ stop = .cut b s') :
    b ∈ visited pass link fuel a s := by
  induction fuel generalizing a s with
  | zero => cases h
  | succ fuel ih =>
      rw [walk] at h
      rw [visited]
      cases hpass : pass a s with
      | done r =>
          simp only [hpass] at h
          rcases hstop with rfl | rfl <;> cases h
      | next t =>
          cases hlink : link a with
          | onward c =>
              simp only [hpass, hlink] at h ⊢
              exact List.mem_cons_of_mem a (ih h)
          | last =>
              simp only [hpass, hlink] at h
              rcases hstop with rfl | rfl <;> cases h
              exact List.mem_cons_self
          | broken =>
              simp only [hpass, hlink] at h
              rcases hstop with rfl | rfl <;> cases h
              exact List.mem_cons_self

/-- A walk that is over stays over with more passes. -/
theorem walk_mono {fuel more : Nat} {a : α} {s : σ} {stop : WalkEnd α σ ρ}
    (h : walk pass link fuel a s = some stop) (hle : fuel ≤ more) :
    walk pass link more a s = some stop := by
  induction fuel generalizing more a s with
  | zero => cases h
  | succ fuel ih =>
      obtain ⟨more, rfl⟩ := Nat.exists_eq_add_of_le' (Nat.le_trans (Nat.le_add_left 1 fuel) hle)
      rw [walk] at h ⊢
      cases hpass : pass a s with
      | done r => simpa only [hpass] using h
      | next t =>
          cases hlink : link a with
          | onward c =>
              simp only [hpass, hlink] at h ⊢
              exact ih h (by omega)
          | last => simpa only [hpass, hlink] using h
          | broken => simpa only [hpass, hlink] using h

/-- A walk ends in one way only. -/
theorem walk_unique {fuel fuel' : Nat} {a : α} {s : σ} {stop stop' : WalkEnd α σ ρ}
    (h : walk pass link fuel a s = some stop) (h' : walk pass link fuel' a s = some stop') :
    stop = stop' := by
  have hmax := walk_mono h (Nat.le_max_left fuel fuel')
  rw [walk_mono h' (Nat.le_max_right fuel fuel')] at hmax
  exact (Option.some.inj hmax).symm

end Link

end OsAgentLab
