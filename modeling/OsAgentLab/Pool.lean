/-
Fixed pools of objects with a `used` flag per slot, searched from the front:
the allocation scheme of the vnode, FAT32-node, ramfs-node and file tables.
-/
import Mathlib.Data.List.Basic
import Mathlib.Data.List.Range

namespace OsAgentLab

universe u

/-- A pool; only the slots below the size given to an operation exist. -/
structure Pool (α : Type u) where
  used : Nat → Bool
  slot : Nat → α

namespace Pool

variable {α : Type u}

/-- The first slot below `size` that is not in use. -/
def firstFree (size : Nat) (p : Pool α) : Option Nat :=
  (List.range size).find? fun i => !p.used i

/-- Put an object into a slot and mark the slot. -/
def take (p : Pool α) (i : Nat) (a : α) : Pool α where
  used j := if j = i then true else p.used j
  slot j := if j = i then a else p.slot j

def setSlot (p : Pool α) (i : Nat) (a : α) : Pool α where
  used := p.used
  slot j := if j = i then a else p.slot j

def release (p : Pool α) (i : Nat) : Pool α where
  used j := if j = i then false else p.used j
  slot := p.slot

/-- The number of slots below `size` that are not in use. -/
def room (size : Nat) (p : Pool α) : Nat :=
  ((List.range size).filter fun i => !p.used i).length

@[simp] theorem take_used (p : Pool α) (i j : Nat) (a : α) :
    (p.take i a).used j = if j = i then true else p.used j := rfl

@[simp] theorem take_slot (p : Pool α) (i j : Nat) (a : α) :
    (p.take i a).slot j = if j = i then a else p.slot j := rfl

@[simp] theorem setSlot_used (p : Pool α) (i : Nat) (a : α) :
    (p.setSlot i a).used = p.used := rfl

@[simp] theorem setSlot_slot (p : Pool α) (i j : Nat) (a : α) :
    (p.setSlot i a).slot j = if j = i then a else p.slot j := rfl

theorem firstFree_eq_some {size : Nat} {p : Pool α} {i : Nat}
    (h : p.firstFree size = some i) : i < size ∧ p.used i = false := by
  have hmem := List.mem_of_find?_eq_some h
  have hfree := List.find?_some h
  simp only [Bool.not_eq_eq_eq_not, Bool.not_true] at hfree
  exact ⟨List.mem_range.mp hmem, hfree⟩

theorem firstFree_eq_none {size : Nat} {p : Pool α} :
    p.firstFree size = none ↔ ∀ i, i < size → p.used i = true := by
  simp [firstFree, List.find?_eq_none, List.mem_range]

/-- An allocation succeeds exactly when there is room. -/
theorem firstFree_isSome_iff_room {size : Nat} {p : Pool α} :
    (∃ i, p.firstFree size = some i) ↔ 0 < p.room size := by
  rw [← Option.isSome_iff_exists, firstFree, List.find?_isSome, room, List.length_pos_iff]
  simp [List.filter_eq_nil_iff]

/-- Taking a free slot uses up exactly one unit of room. -/
theorem room_take {size : Nat} {p : Pool α} {i : Nat} (hi : i < size)
    (hfree : p.used i = false) (a : α) :
    (p.take i a).room size + 1 = p.room size := by
  have hsplit : List.range size = List.range i ++ i :: (List.range' (i + 1) (size - i - 1)) := by
    rw [List.range_eq_range', List.range_eq_range']
    rw [show size = i + (1 + (size - i - 1)) by omega]
    rw [← List.range'_append_1, ← List.range'_append_1]
    simp
  have hlow : ∀ j ∈ List.range i, (!(p.take i a).used j) = !p.used j := by
    intro j hj
    have : j ≠ i := Nat.ne_of_lt (List.mem_range.mp hj)
    simp [this]
  have hhigh : ∀ j ∈ List.range' (i + 1) (size - i - 1),
      (!(p.take i a).used j) = !p.used j := by
    intro j hj
    have : j ≠ i := by
      have := (List.mem_range'_1.mp hj).1
      omega
    simp [this]
  simp only [room, hsplit, List.filter_append, List.length_append, List.filter_cons]
  rw [List.filter_congr hlow, List.filter_congr hhigh]
  simp [hfree]
  omega

end Pool

end OsAgentLab
