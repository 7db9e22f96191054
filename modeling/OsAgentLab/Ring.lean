/-
Circular lists behind a `next` field: a trail is a list of places of which each
is the `next` of the one before, and a ring is a trail that ends where it starts.
-/
import Mathlib.Data.List.Basic
import Mathlib.Data.List.Nodup

namespace OsAgentLab

universe u

variable {α : Type u}

/-- From `a` on, every place of the list is the next one of its predecessor. -/
def Trail (next : α → α) : α → List α → Prop
  | _, [] => True
  | a, b :: rest => next a = b ∧ Trail next b rest

/-- The list is a ring through `a`: behind its last place comes `a` again. -/
def Ring (next : α → α) (a : α) (l : List α) : Prop := Trail next a (l ++ [a])

variable {next next' : α → α} {a b x : α} {l left right : List α}

theorem trail_append :
    Trail next a (left ++ right) ↔ Trail next a left ∧ Trail next (left.getLastD a) right := by
  induction left generalizing a with
  | nil => exact (and_iff_right trivial).symm
  | cons b rest ih =>
      change next a = b ∧ Trail next b (rest ++ right) ↔
        (next a = b ∧ Trail next b rest) ∧ Trail next ((b :: rest).getLastD a) right
      rw [ih, and_assoc, List.getLastD_cons]

/-- A trail depends on the `next` of all its places but the last. -/
theorem Trail.congr (h : Trail next a l) (heq : ∀ y ∈ (a :: l).dropLast, next' y = next y) :
    Trail next' a l := by
  induction l generalizing a with
  | nil => trivial
  | cons b rest ih =>
      have ha : next' a = next a := heq a (List.mem_cons_self)
      exact ⟨ha.trans h.1, ih h.2 fun y hy => heq y (List.mem_cons_of_mem a hy)⟩

/-- The same from another place with the same successor. -/
theorem Trail.from (h : Trail next a l) (hab : next' b = next a) (hne : l ≠ [])
    (heq : ∀ y ∈ l.dropLast, next' y = next y) : Trail next' b l := by
  cases l with
  | nil => exact absurd rfl hne
  | cons c rest => exact ⟨hab.trans h.1, h.2.congr heq⟩

theorem getLastD_mem (l : List α) (a : α) : l.getLastD a ∈ a :: l := by
  induction l generalizing a with
  | nil => exact List.mem_cons_self
  | cons b rest ih =>
      rw [List.getLastD_cons]
      exact List.mem_cons_of_mem a (ih b)

/-- The last place of a list without repetitions is not among the others. -/
theorem getLastD_not_mem_dropLast (h : (a :: l).Nodup) :
    l.getLastD a ∉ (a :: l).dropLast := by
  induction l generalizing a with
  | nil => exact List.not_mem_nil
  | cons b rest ih =>
      rw [List.getLastD_cons]
      intro hmem
      rcases List.mem_cons.mp hmem with heq | hmem
      · exact (List.nodup_cons.mp h).1 (heq ▸ getLastD_mem rest b)
      · exact ih (List.nodup_cons.mp h).2 hmem

/-- A ring may be read from any of its places. -/
theorem Ring.rotate (h : Ring next a l) (hl : a :: l = left ++ b :: right) :
    Trail next b (right ++ left ++ [b]) := by
  cases left with
  | nil =>
      obtain ⟨rfl, rfl⟩ := List.cons.inj hl
      rw [List.append_nil]
      exact h
  | cons c left =>
      obtain ⟨rfl, rest⟩ := List.cons.inj hl
      rw [List.append_eq] at rest
      rw [Ring, rest, show left ++ b :: right ++ [a] = (left ++ [b]) ++ (right ++ [a]) by simp,
        trail_append, List.getLastD_concat] at h
      rw [show right ++ a :: left ++ [b] = (right ++ [a]) ++ (left ++ [b]) by simp, trail_append,
        List.getLastD_concat]
      exact ⟨h.2, h.1⟩

/-- The place in front of `x` in a ring. -/
theorem Ring.next_pred (h : Ring next a (left ++ x :: right)) : next (left.getLastD a) = x := by
  rw [Ring, List.append_assoc, List.cons_append, trail_append] at h
  exact h.2.1

theorem Trail.next_eq (h : Trail next a l) (hl : a :: l = left ++ x :: b :: right) :
    next x = b := by
  induction left generalizing a l with
  | nil =>
      obtain ⟨rfl, rfl⟩ := List.cons.inj hl
      exact h.1
  | cons c left ih =>
      obtain ⟨rfl, rest⟩ := List.cons.inj hl
      cases l with
      | nil => cases left <;> cases rest
      | cons d l => exact ih h.2 rest

/-- The rest of a trail behind one of its places. -/
theorem Trail.suffix (h : Trail next a l) (hl : a :: l = left ++ x :: right) :
    Trail next x right ∧ right.getLastD x = l.getLastD a := by
  induction left generalizing a l with
  | nil =>
      obtain ⟨rfl, rfl⟩ := List.cons.inj hl
      exact ⟨h, rfl⟩
  | cons c left ih =>
      obtain ⟨rfl, rest⟩ := List.cons.inj hl
      cases l with
      | nil => cases left <;> cases rest
      | cons d l =>
          rw [List.getLastD_cons]
          exact ih h.2 rest

/-- In a ring without repetitions a place has one predecessor. -/
theorem Ring.pred_unique (h : Ring next a (left ++ x :: right))
    (hnodup : (a :: (left ++ x :: right)).Nodup) {y : α} (hy : y ∈ a :: (left ++ x :: right))
    (hnext : next y = x) : y = left.getLastD a := by
  obtain ⟨pre, post, hsplit⟩ := List.append_of_mem hy
  have hfull : a :: (left ++ x :: right ++ [a]) = pre ++ y :: (post ++ [a]) := by
    rw [← List.cons_append, hsplit, List.append_assoc, List.cons_append]
  cases post with
  | nil =>
      have ha : next y = a := Trail.next_eq h hfull
      rw [hnext] at ha
      exact absurd (ha ▸ List.mem_append_right left List.mem_cons_self) (List.nodup_cons.mp hnodup).1
  | cons b post =>
      have hb : next y = b := Trail.next_eq h hfull
      rw [hnext] at hb
      subst hb
      -- both splits are at the one occurrence of `x`
      have hsplit' : a :: left ++ x :: right = (pre ++ [y]) ++ x :: post := by
        rw [List.cons_append, hsplit, List.append_assoc]
        rfl
      rw [← List.cons_append] at hnodup
      have hapart := List.nodup_append.mp hnodup
      have hleft : x ∉ a :: left := fun hx => hapart.2.2 x hx x List.mem_cons_self rfl
      have hright : x ∉ right := (List.nodup_cons.mp hapart.2.1).1
      have hpre := ((List.append_cons_inj_of_notMem hleft hright).mp hsplit').1
      rw [← List.getLastD_cons (a := y), hpre, List.getLastD_concat]

end OsAgentLab
