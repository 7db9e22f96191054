/-
Arrays of a fixed size as C has them: an access delivers nothing when its index is not inside,
and a string is what stands in front of the first NUL.
-/
import Mathlib.Data.List.OfFn
import Mathlib.Data.List.TakeWhile
import Mathlib.Logic.Function.Basic

namespace OsAgentLab

universe u

/-- An array of `n` elements. -/
abbrev Buffer (α : Type u) (n : Nat) : Type u := Fin n → α

namespace Buffer

variable {α : Type u} {n m : Nat}

section Accesses

/-- `buf[i]`. -/
def get? (buf : Buffer α n) (i : Nat) : Option α :=
  if h : i < n then some (buf ⟨i, h⟩) else none

/-- `buf[i] = c`. -/
def set? (buf : Buffer α n) (i : Nat) (c : α) : Option (Buffer α n) :=
  if h : i < n then some (Function.update buf ⟨i, h⟩ c) else none

/-- `memset(buf, c, count)`. -/
def fill? (buf : Buffer α n) (c : α) (count : Nat) : Option (Buffer α n) :=
  if count ≤ n then some fun i => if i.val < count then c else buf i else none

/-- `memcpy(dst, src, count)`. -/
def copy? (dst : Buffer α n) (src : Buffer α m) (count : Nat) : Option (Buffer α n) :=
  if h : count ≤ n ∧ count ≤ m then
    some fun i => if hi : i.val < count then src ⟨i, Nat.lt_of_lt_of_le hi h.2⟩ else dst i
  else none

/-- The array of the first values of `f`. -/
def of (n : Nat) (f : Nat → α) : Buffer α n := fun i => f i

/-- The array starts with the elements of a list. -/
def StartsWith (buf : Buffer α n) (l : List α) : Prop :=
  ∀ i, i < l.length → buf.get? i = l[i]?

variable {buf : Buffer α n} {src : Buffer α m} {i : Nat} {c : α} {l : List α}

theorem get?_of_lt (h : i < n) : buf.get? i = some (buf ⟨i, h⟩) := dif_pos h

theorem get?_of_le (h : n ≤ i) : buf.get? i = none := dif_neg (Nat.not_lt.2 h)

theorem get?_of {f : Nat → α} (h : i < n) : (of n f).get? i = some (f i) := get?_of_lt h

theorem set?_of {f : Nat → α} (h : i < n) :
    (of n f).set? i c = some (of n fun k => if k = i then c else f k) := by
  rw [set?, dif_pos h]
  congr 1
  funext k
  by_cases hk : k.val = i
  · obtain rfl : k = ⟨i, h⟩ := Fin.ext hk
    rw [Function.update_self, of, if_pos rfl]
  · have hne : k ≠ ⟨i, h⟩ := fun heq => hk (congrArg Fin.val heq)
    rw [Function.update_of_ne hne, of, of, if_neg hk]

theorem fill?_all : buf.fill? c n = some (of n fun _ => c) := by
  rw [fill?, if_pos (Nat.le_refl n)]
  congr 1
  funext k
  rw [if_pos k.isLt, of]

theorem startsWith_nil (buf : Buffer α n) : buf.StartsWith [] :=
  fun _ h => absurd h (Nat.not_lt_zero _)

theorem StartsWith.left {l' : List α} (h : buf.StartsWith (l ++ l')) : buf.StartsWith l := by
  intro i hi
  rw [h i (by rw [List.length_append]; omega), List.getElem?_append_left hi]

/-- A store behind the list makes the list longer. -/
theorem StartsWith.set? (h : buf.StartsWith l) (hlen : l.length < n) (c : α) :
    ∃ buf', buf.set? l.length c = some buf' ∧ StartsWith buf' (l ++ [c]) := by
  refine ⟨_, dif_pos hlen, fun i hi => ?_⟩
  rw [List.length_append, List.length_singleton] at hi
  rw [get?_of_lt (show i < n by omega)]
  by_cases heq : i = l.length
  · subst heq
    rw [Function.update_self, List.getElem?_append_right (Nat.le_refl _), Nat.sub_self,
      List.getElem?_cons_zero]
  · have hlt : i < l.length := by omega
    have hne : (⟨i, by omega⟩ : Fin n) ≠ ⟨l.length, hlen⟩ := fun hfin =>
      heq (congrArg Fin.val hfin)
    rw [Function.update_of_ne hne, List.getElem?_append_left hlt, ← h i hlt,
      get?_of_lt (show i < n by omega)]

/-- A copy of the elements that the source starts with. -/
theorem StartsWith.copy? (h : src.StartsWith l) (hn : l.length ≤ n) (hm : l.length ≤ m)
    (dst : Buffer α n) :
    ∃ buf', dst.copy? src l.length = some buf' ∧ StartsWith buf' l := by
  refine ⟨_, dif_pos ⟨hn, hm⟩, fun i hi => ?_⟩
  rw [get?_of_lt (show i < n by omega), dif_pos hi, ← h i hi,
    get?_of_lt (Nat.lt_of_lt_of_le hi hm)]

end Accesses

section Strings

variable [Zero α]

/-- The first NUL stands at `k`. -/
def EndsAt (buf : Buffer α n) (k : Nat) : Prop :=
  buf.get? k = some 0 ∧ ∀ j, j < k → buf.get? j ≠ some 0

theorem EndsAt.lt {buf : Buffer α n} {k : Nat} (h : buf.EndsAt k) : k < n := by
  by_contra hge
  have hnone := h.1
  rw [get?_of_le (Nat.not_lt.1 hge)] at hnone
  cases hnone

variable [DecidableEq α]

/-- `strlen` from `i` on. -/
def strlenFrom (buf : Buffer α n) : Nat → Nat → Option Nat
  | 0, _ => none
  | fuel + 1, i => (buf.get? i).bind fun c =>
      if c = 0 then some i else strlenFrom buf fuel (i + 1)

/-- `strlen(buf)`; there is no NUL to find behind the array. -/
def strlen (buf : Buffer α n) : Option Nat := strlenFrom buf (n + 1) 0

/-- The characters in front of the first NUL. -/
def text (buf : Buffer α n) : List α := (List.ofFn buf).takeWhile (· ≠ 0)

variable {buf : Buffer α n} {l : List α} {k i fuel : Nat}

theorem EndsAt.strlenFrom (h : buf.EndsAt k) (hle : i ≤ k) (hfuel : k < i + fuel) :
    buf.strlenFrom fuel i = some k := by
  induction fuel generalizing i with
  | zero => omega
  | succ fuel ih =>
      have hi : i < n := Nat.lt_of_le_of_lt hle h.lt
      rw [Buffer.strlenFrom, get?_of_lt hi, Option.bind_some]
      by_cases heq : i = k
      · subst heq
        have hzero := h.1
        rw [get?_of_lt hi] at hzero
        rw [if_pos (Option.some.inj hzero)]
      · have hne := h.2 i (by omega)
        rw [get?_of_lt hi] at hne
        rw [if_neg fun hzero => hne (congrArg some hzero)]
        exact ih (by omega) (by omega)

theorem EndsAt.strlen (h : buf.EndsAt k) : buf.strlen = some k :=
  h.strlenFrom (Nat.zero_le k) (by have hlt := h.lt; omega)

/-- What stands in front of the first zero of a list with one behind it. -/
theorem takeWhile_zero (l : List α) :
    ∃ rest, l ++ [0] = l.takeWhile (· ≠ 0) ++ 0 :: rest := by
  induction l with
  | nil => exact ⟨[], rfl⟩
  | cons c l ih =>
      obtain ⟨rest, hrest⟩ := ih
      by_cases hc : c = 0
      · subst hc
        exact ⟨l ++ [0], by simp⟩
      · refine ⟨rest, ?_⟩
        rw [List.takeWhile_cons, if_pos (by simpa using hc), List.cons_append, List.cons_append,
          hrest]

/-- A list and a NUL behind it. -/
theorem StartsWith.endsAt (h : buf.StartsWith (l ++ [0])) :
    buf.EndsAt (l.takeWhile (· ≠ 0)).length ∧ buf.text = l.takeWhile (· ≠ 0) := by
  obtain ⟨rest, hrest⟩ := takeWhile_zero l
  have hne : ∀ c ∈ l.takeWhile (· ≠ 0), c ≠ 0 := by
    intro c hc
    simpa using List.mem_takeWhile_imp hc
  rw [hrest] at h
  generalize l.takeWhile (· ≠ 0) = t at h hne
  have hget : ∀ i, i ≤ t.length → buf.get? i = (t ++ 0 :: rest)[i]? := fun i hi =>
    h i (by rw [List.length_append, List.length_cons]; omega)
  have hzero : buf.get? t.length = some 0 := by
    rw [hget _ (Nat.le_refl _), List.getElem?_append_right (Nat.le_refl _), Nat.sub_self,
      List.getElem?_cons_zero]
  have hends : buf.EndsAt t.length := by
    refine ⟨hzero, fun j hj hj0 => ?_⟩
    rw [hget j hj.le, List.getElem?_append_left hj] at hj0
    exact hne 0 (List.mem_of_getElem? hj0) rfl
  refine ⟨hends, ?_⟩
  have hlt := hends.lt
  have hsplit : List.ofFn buf = t ++ 0 :: (List.ofFn buf).drop (t.length + 1) := by
    have hofFn : ∀ i, (List.ofFn buf)[i]? = buf.get? i := fun i => by
      rw [List.getElem?_ofFn, get?]
    refine List.ext_getElem? fun i => ?_
    rcases Nat.lt_trichotomy i t.length with hi | rfl | hi
    · rw [List.getElem?_append_left hi, hofFn, hget i hi.le, List.getElem?_append_left hi]
    · rw [hofFn, hzero, List.getElem?_append_right (Nat.le_refl _), Nat.sub_self,
        List.getElem?_cons_zero]
    · obtain ⟨d, rfl⟩ := Nat.exists_eq_add_of_lt hi
      rw [List.getElem?_append_right (by omega), show t.length + d + 1 - t.length = d + 1 by omega,
        List.getElem?_cons_succ, List.getElem?_drop]
      congr 1
      omega
  rw [text, hsplit, List.takeWhile_append_of_pos fun c hc => by simpa using hne c hc,
    List.takeWhile_cons, if_neg (by simp), List.append_nil]

end Strings

end Buffer

end OsAgentLab
