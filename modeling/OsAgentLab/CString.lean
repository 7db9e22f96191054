/-
Strings as C keeps them: characters up to a NUL, read one by one at an index.
-/
import Mathlib.Data.List.TakeWhile

namespace OsAgentLab

/-- `isspace`. -/
def isSpace (c : UInt8) : Bool :=
  c = 32 || c = 9 || c = 10 || c = 13 || c = 12 || c = 11

/-- A run ends at a character that fails its test. -/
theorem head_dropWhile {test : UInt8 → Bool} {text : List UInt8} :
    ∀ c ∈ (text.dropWhile test).head?, test c = false := by
  intro c hc
  have hhead := List.head?_dropWhile_not test text
  rw [Option.mem_def.1 hc] at hhead
  exact hhead

/-- The characters in front of the NUL. -/
structure CStr where
  chars : List UInt8
  noNul : (0 : UInt8) ∉ chars

namespace CStr

/-- The character at an index; behind the NUL there is nothing to read. -/
def read (s : CStr) (i : Nat) : Option UInt8 := (s.chars ++ [0])[i]?

/-- `rest` are the characters from the index `i` on. -/
def At (s : CStr) (i : Nat) (rest : List UInt8) : Prop :=
  ∃ front, s.chars = front ++ rest ∧ front.length = i

/-- `while (test(*p)) p++`, with at most `fuel` passes. -/
def skipWhile (s : CStr) (test : UInt8 → Bool) : Nat → Nat → Option Nat
  | 0, _ => none
  | fuel + 1, i => (s.read i).bind fun c => if test c then skipWhile s test fuel (i + 1) else some i

variable {s : CStr} {i : Nat} {c : UInt8} {rest front : List UInt8}

theorem at_start (s : CStr) : s.At 0 s.chars := ⟨[], rfl, rfl⟩

namespace At

theorem read_cons (h : s.At i (c :: rest)) : s.read i = some c := by
  obtain ⟨front, hchars, rfl⟩ := h
  rw [CStr.read, hchars, List.append_assoc, List.cons_append,
    List.getElem?_append_right (Nat.le_refl _), Nat.sub_self, List.getElem?_cons_zero]

theorem read_nil (h : s.At i []) : s.read i = some 0 := by
  obtain ⟨front, hchars, rfl⟩ := h
  rw [CStr.read, hchars, List.append_nil, List.getElem?_append_right (Nat.le_refl _),
    Nat.sub_self, List.getElem?_cons_zero]

theorem ne_nul (h : s.At i (c :: rest)) : c ≠ 0 := by
  obtain ⟨front, hchars, -⟩ := h
  rintro rfl
  apply s.noNul
  rw [hchars]
  exact List.mem_append_right front List.mem_cons_self

theorem next (h : s.At i (c :: rest)) : s.At (i + 1) rest := by
  obtain ⟨front, hchars, rfl⟩ := h
  refine ⟨front ++ [c], ?_, List.length_append⟩
  rw [hchars, List.append_assoc, List.singleton_append]

theorem drop (h : s.At i rest) : s.chars.drop i = rest := by
  obtain ⟨front, hchars, rfl⟩ := h
  rw [hchars, List.drop_left]

theorem length_le (h : s.At i rest) : rest.length ≤ s.chars.length := by
  obtain ⟨front, hchars, -⟩ := h
  rw [hchars, List.length_append]
  exact Nat.le_add_left _ _

/-- Some characters further on. -/
theorem append (h : s.At i (front ++ rest)) : s.At (i + front.length) rest := by
  induction front generalizing i with
  | nil => exact h
  | cons c front ih =>
      rw [List.length_cons, Nat.add_comm front.length, ← Nat.add_assoc]
      exact ih h.next

/-- The characters that pass the test are skipped; the NUL ends the run. -/
theorem skipWhile {test : UInt8 → Bool} (hnul : test 0 = false) (h : s.At i rest) :
    ∀ fuel, rest.length < fuel →
      s.skipWhile test fuel i = some (i + (rest.takeWhile test).length) ∧
        s.At (i + (rest.takeWhile test).length) (rest.dropWhile test) := by
  induction rest generalizing i with
  | nil =>
      rintro (_ | fuel) hfuel
      · contradiction
      · refine ⟨?_, h⟩
        rw [CStr.skipWhile, h.read_nil, Option.bind_some, if_neg (Bool.eq_false_iff.1 hnul)]
        rfl
  | cons c rest ih =>
      rintro (_ | fuel) hfuel
      · contradiction
      · rw [CStr.skipWhile, h.read_cons, Option.bind_some]
        by_cases hc : test c = true
        · rw [if_pos hc, List.takeWhile_cons_of_pos hc, List.dropWhile_cons_of_pos hc,
            List.length_cons, Nat.add_comm (List.length _), ← Nat.add_assoc]
          exact ih h.next fuel (Nat.lt_of_succ_lt_succ hfuel)
        · rw [if_neg hc, List.takeWhile_cons_of_neg hc, List.dropWhile_cons_of_neg hc]
          exact ⟨rfl, h⟩

end At

end CStr

end OsAgentLab
