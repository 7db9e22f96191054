/-
Arrays of bounded capacity: a write stores the part that fits, gaps are filled
with the default element, and a truncation cuts off or fills up.
-/
import Mathlib.Data.List.GetD

namespace OsAgentLab

universe u

variable {α : Type u} {cap : Nat}

/-- An array of at most `cap` elements. -/
@[ext] structure BoundedArray (α : Type u) (cap : Nat) where
  items : List α
  length_le : items.length ≤ cap

namespace BoundedArray

/-- The array of the first `n` values of `f`. -/
def build (n : Nat) (h : n ≤ cap) (f : Nat → α) : BoundedArray α cap where
  items := (List.range n).map f
  length_le := by simpa using h

@[simp] theorem build_length {n : Nat} {f : Nat → α} (h : n ≤ cap) :
    (build n h f).items.length = n := by
  simp [build]

variable [Inhabited α]

/-- The element at `i`, the default one behind the end. -/
def get (a : BoundedArray α cap) (i : Nat) : α := a.items.getD i default

/-- How many of `len` elements are stored from `offset` on. -/
def stored (cap offset len : Nat) : Nat := min len (cap - offset)

/-- Store the part of `data` that fits, from `offset` on. -/
def write (a : BoundedArray α cap) (offset : Nat) (data : List α) : BoundedArray α cap :=
  if h : offset < cap then
    build (max a.items.length (offset + stored cap offset data.length))
      (Nat.max_le.mpr ⟨a.length_le, by
        simp only [stored]
        omega⟩)
      fun i => if offset ≤ i ∧ i < offset + stored cap offset data.length
        then data.getD (i - offset) default else a.get i
  else a

/-- Set the number of elements, as far as the capacity allows. -/
def truncate (a : BoundedArray α cap) (n : Nat) : BoundedArray α cap :=
  build (min n cap) (Nat.min_le_right ..) a.get

/-- The elements from `offset` on, at most `len` of them. -/
def read (a : BoundedArray α cap) (offset len : Nat) : List α := (a.items.drop offset).take len

variable {a : BoundedArray α cap} {n offset len i : Nat} {f : Nat → α} {data : List α}

theorem build_get (h : n ≤ cap) : (build n h f).get i = if i < n then f i else default := by
  by_cases hi : i < n
  · simp [get, build, hi]
  · rw [if_neg hi]
    exact List.getD_eq_default _ _ (by simpa [build] using hi)

theorem get_of_length_le (h : a.items.length ≤ i) : a.get i = default :=
  List.getD_eq_default _ _ h

/-- What is read, element by element. -/
theorem read_eq (a : BoundedArray α cap) (offset len : Nat) :
    a.read offset len =
      (List.range (min (a.items.length - offset) len)).map fun i => a.get (offset + i) := by
  apply List.ext_getElem
  · simp [read]
    omega
  · intro i hi hi'
    have hlt : offset + i < a.items.length := by
      simp only [List.length_map, List.length_range] at hi'
      omega
    simp [read, get, hlt]

end BoundedArray

end OsAgentLab
