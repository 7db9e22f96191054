/-
Numerals in C strings: white space, a sign, a base prefix and digits, and what is to be
read of a text that starts with one.
-/
import Mathlib.Data.Nat.Digits.Defs
import OsAgentLab.CString

namespace OsAgentLab

namespace Numeral

/-- `'0'`, `'x'`, `'X'`, `'+'` and `'-'`. -/
def zero : UInt8 := 48
def lowerX : UInt8 := 120
def upperX : UInt8 := 88
def plus : UInt8 := 43
def minus : UInt8 := 45

/-- `digit_val`. -/
def digitVal (c : UInt8) : Int :=
  if 48 ≤ c ∧ c ≤ 57 then c.toNat - 48
  else if 97 ≤ c ∧ c ≤ 102 then c.toNat - 97 + 10
  else if 65 ≤ c ∧ c ≤ 70 then c.toNat - 65 + 10
  else -1

/-- A digit of the base. -/
def isDigit (base : Nat) (c : UInt8) : Bool := 0 ≤ digitVal c ∧ digitVal c < base

/-- The number that digits write. -/
def value (base : Nat) (digits : List UInt8) : Nat :=
  Nat.ofDigits base (digits.map fun c => (digitVal c).toNat).reverse

/-- A base prefix with its digits, and the number. -/
inductive Body (base : Nat) : List UInt8 → Nat → Prop
  | plain {digits : List UInt8} (hbase : base ≠ 0) (hdigits : ∀ c ∈ digits, isDigit base c = true)
      (hsome : digits ≠ []) : Body base digits (value base digits)
  | hex {x : UInt8} {digits : List UInt8} (hbase : base = 0 ∨ base = 16)
      (hx : x = lowerX ∨ x = upperX) (hdigits : ∀ c ∈ digits, isDigit 16 c = true)
      (hsome : digits ≠ []) : Body base (zero :: x :: digits) (value 16 digits)
  | octal {digits : List UInt8} (hbase : base = 0) (hdigits : ∀ c ∈ digits, isDigit 8 c = true) :
      Body base (zero :: digits) (value 8 digits)
  | decimal {digits : List UInt8} (hbase : base = 0) (hdigits : ∀ c ∈ digits, isDigit 10 c = true)
      (hsome : digits ≠ []) (hzero : digits.head? ≠ some zero) :
      Body base digits (value 10 digits)

/-- An optional sign, as a factor. -/
inductive Sign : List UInt8 → Int → Prop
  | none : Sign [] 1
  | plus : Sign [plus] 1
  | minus : Sign [minus] (-1)

/-- White space, an optional sign and a number. -/
inductive Form (base : Nat) : List UInt8 → Int → Prop
  | mk {blanks sign body : List UInt8} {u : Int} {v : Nat} (hblanks : ∀ c ∈ blanks, isSpace c = true)
      (hsign : Sign sign u) (hbody : Body base body v) : Form base (blanks ++ sign ++ body) (u * v)

/-- The longest numeral at the start of a text. -/
structure Longest (base : Nat) (text consumed : List UInt8) (v : Int) : Prop where
  starts : consumed <+: text
  form : Form base consumed v
  longest : ∀ other w, other <+: text → Form base other w → other.length ≤ consumed.length

/-- The text starts with no numeral. -/
def Absent (base : Nat) (text : List UInt8) : Prop :=
  ∀ consumed v, consumed <+: text → ¬Form base consumed v

/-- The end pointer and the result that a conversion owes: behind the longest numeral and
its value within the limits, or the start and zero. -/
def Converts (limit : Int → Int) (base : Nat) (text : List UInt8) (stop : Nat) (result : Int) : Prop :=
  (∃ consumed v, Longest base text consumed v ∧ stop = consumed.length ∧ result = limit v) ∨
    Absent base text ∧ stop = 0 ∧ result = 0

section Splitting

variable {test : UInt8 → Bool} {a b s t : List UInt8}

/-- The run in front of the first character that fails the test. -/
theorem run_unique (ha : ∀ c ∈ a, test c = true) (hb : ∀ c ∈ b, test c = true)
    (hs : ∀ c ∈ s.head?, test c = false) (ht : ∀ c ∈ t.head?, test c = false)
    (heq : a ++ s = b ++ t) : a = b ∧ s = t := by
  induction a generalizing b with
  | nil =>
      cases b with
      | nil => exact ⟨rfl, heq⟩
      | cons c b =>
          have hfalse : test c = false := hs c (by rw [List.nil_append] at heq; rw [heq]; rfl)
          rw [hb c List.mem_cons_self] at hfalse
          contradiction
  | cons c a ih =>
      cases b with
      | nil =>
          have hfalse : test c = false := ht c (by rw [List.nil_append] at heq; rw [← heq]; rfl)
          rw [ha c List.mem_cons_self] at hfalse
          contradiction
      | cons d b =>
          obtain ⟨rfl, htail⟩ := List.cons.inj heq
          obtain ⟨rfl, hrest⟩ := ih (fun c hc => ha c (List.mem_cons_of_mem _ hc))
            (fun c hc => hb c (List.mem_cons_of_mem _ hc)) htail
          exact ⟨rfl, hrest⟩

/-- A start whose characters pass the test is within the run. -/
theorem length_le_takeWhile (ha : ∀ c ∈ a, test c = true) (hstarts : a <+: s) :
    a.length ≤ (s.takeWhile test).length := by
  obtain ⟨t, rfl⟩ := hstarts
  rw [List.takeWhile_append_of_pos ha, List.length_append]
  exact Nat.le_add_right _ _

end Splitting

section Reading

variable {base : Nat} {text consumed blanks sign rest body digits : List UInt8} {u v w : Int} {n : Nat}

theorem isDigit_le {c : UInt8} {small large : Nat} (hle : small ≤ large)
    (h : isDigit small c = true) : isDigit large c = true := by
  rw [isDigit, decide_eq_true_iff] at h ⊢
  exact ⟨h.1, by omega⟩

/-- Digits are neither white space nor signs. -/
theorem isDigit_not_mark {c : UInt8} (h : isDigit 16 c = true) :
    isSpace c = false ∧ c ≠ plus ∧ c ≠ minus := by
  refine ⟨?_, ?_, ?_⟩
  · by_contra hspace
    rw [Bool.not_eq_false] at hspace
    simp only [isSpace, Bool.or_eq_true, decide_eq_true_eq] at hspace
    rcases hspace with ((((rfl | rfl) | rfl) | rfl) | rfl) | rfl <;> revert h <;> decide
  · rintro rfl
    revert h
    decide
  · rintro rfl
    revert h
    decide

/-- The first character of a number is a digit. -/
theorem Body.head (hbase : base ≤ 16) (h : Body base body n) :
    ∃ c tail, body = c :: tail ∧ isDigit 16 c = true := by
  have hfirst : ∀ {small digits}, small ≤ 16 → (∀ c ∈ digits, isDigit small c = true) →
      digits ≠ [] → ∃ c tail, digits = c :: tail ∧ isDigit 16 c = true := by
    intro small digits hsmall hdigits hsome
    obtain ⟨c, tail, rfl⟩ := List.exists_cons_of_ne_nil hsome
    exact ⟨c, tail, rfl, isDigit_le hsmall (hdigits c List.mem_cons_self)⟩
  cases h with
  | plain _ hdigits hsome => exact hfirst hbase hdigits hsome
  | hex => exact ⟨zero, _, rfl, by decide⟩
  | octal => exact ⟨zero, _, rfl, by decide⟩
  | decimal _ hdigits hsome => exact hfirst (by decide) hdigits hsome

/-- White space and a sign in front of the rest of a text. -/
structure Split (text blanks sign rest : List UInt8) (u : Int) : Prop where
  eq : text = blanks ++ sign ++ rest
  isBlank : ∀ c ∈ blanks, isSpace c = true
  isSign : Sign sign u
  stops : sign = [] → ∀ c ∈ rest.head?, isSpace c = false ∧ c ≠ plus ∧ c ≠ minus

/-- What stands behind the white space is none. -/
theorem sign_not_space (h : Sign sign u)
    (hrest : sign = [] → ∀ c ∈ rest.head?, isSpace c = false) :
    ∀ c ∈ (sign ++ rest).head?, isSpace c = false := by
  cases h with
  | none => exact hrest rfl
  | plus => intro c hc; cases hc; decide
  | minus => intro c hc; cases hc; decide

/-- The sign in front of a digit is the sign of the text. -/
theorem sign_unique {sign' : List UInt8} {u' : Int} {c : UInt8} (h : Sign sign u) (h' : Sign sign' u')
    (hc : c ≠ plus ∧ c ≠ minus)
    (hstops : sign' = [] → ∀ c ∈ rest.head?, c ≠ plus ∧ c ≠ minus)
    (heq : sign ++ c :: text = sign' ++ rest) : sign = sign' ∧ u = u' ∧ c :: text = rest := by
  cases h with
  | none =>
      cases h' with
      | none => exact ⟨rfl, rfl, heq⟩
      | plus => exact absurd (List.cons.inj heq).1 hc.1
      | minus => exact absurd (List.cons.inj heq).1 hc.2
  | plus =>
      cases h' with
      | none => exact absurd rfl (hstops rfl plus (by rw [List.nil_append] at heq; rw [← heq]; rfl)).1
      | plus => exact ⟨rfl, rfl, (List.cons.inj heq).2⟩
      | minus => exact absurd (List.cons.inj heq).1 (by decide)
  | minus =>
      cases h' with
      | none => exact absurd rfl (hstops rfl minus (by rw [List.nil_append] at heq; rw [← heq]; rfl)).2
      | plus => exact absurd (List.cons.inj heq).1 (by decide)
      | minus => exact ⟨rfl, rfl, (List.cons.inj heq).2⟩

/-- Every numeral at the start of the text has the white space and the sign of the text. -/
theorem Split.form (hsplit : Split text blanks sign rest u) (hbase : base ≤ 16)
    (hstarts : consumed <+: text) (hform : Form base consumed v) :
    ∃ body n, consumed = blanks ++ sign ++ body ∧ body <+: rest ∧ Body base body n ∧ v = u * n := by
  obtain ⟨tail, htail⟩ := hstarts
  cases hform with
  | @mk blanks' sign' body u' n hblanks hsign hbody =>
      obtain ⟨c, digits, rfl, hc⟩ := hbody.head hbase
      obtain ⟨hspace, hmark⟩ := isDigit_not_mark hc
      rw [hsplit.eq, List.append_assoc, List.append_assoc, List.append_assoc] at htail
      obtain ⟨rfl, hrest⟩ := run_unique hblanks hsplit.isBlank
        (sign_not_space hsign fun _ d hd => by cases hd; exact hspace)
        (sign_not_space hsplit.isSign fun hnil d hd => (hsplit.stops hnil d hd).1) htail
      obtain ⟨rfl, rfl, rfl⟩ := sign_unique hsign hsplit.isSign hmark
        (fun hnil d hd => (hsplit.stops hnil d hd).2) hrest
      exact ⟨c :: digits, n, rfl, List.prefix_append _ tail, hbody, rfl⟩

/-- The longest number at the start of a text. -/
structure LongestBody (base : Nat) (rest body : List UInt8) (n : Nat) : Prop where
  starts : body <+: rest
  form : Body base body n
  longest : ∀ other m, other <+: rest → Body base other m → other.length ≤ body.length

theorem LongestBody.longest_form (h : LongestBody base rest body n)
    (hsplit : Split text blanks sign rest u) (hbase : base ≤ 16) :
    Longest base text (blanks ++ sign ++ body) (u * n) := by
  refine ⟨?_, ⟨hsplit.isBlank, hsplit.isSign, h.form⟩, ?_⟩
  · rw [hsplit.eq]
    exact (List.prefix_append_right_inj _).2 h.starts
  · intro other w hother hform
    obtain ⟨body', m, rfl, hstarts, hbody, -⟩ := hsplit.form hbase hother hform
    have hle := h.longest body' m hstarts hbody
    simp only [List.length_append]
    omega

/-- How a number starts: the base it is written in, the base prefix and what follows it. -/
inductive Prefixed (base : Nat) : List UInt8 → Nat → List UInt8 → List UInt8 → Prop
  | hex {x : UInt8} {tail : List UInt8} (hbase : base = 0 ∨ base = 16)
      (hx : x = lowerX ∨ x = upperX) : Prefixed base (zero :: x :: tail) 16 [zero, x] tail
  | octal {tail : List UInt8} (hbase : base = 0)
      (hx : ∀ x ∈ tail.head?, ¬(x = lowerX ∨ x = upperX)) : Prefixed base (zero :: tail) 8 [zero] tail
  | decimal {tail : List UInt8} (hbase : base = 0) (hzero : tail.head? ≠ some zero) :
      Prefixed base tail 10 [] tail
  | plain {tail : List UInt8} (hbase : base ≠ 0)
      (hx : base = 16 → ∀ x t, tail = zero :: x :: t → ¬(x = lowerX ∨ x = upperX)) :
      Prefixed base tail base [] tail

/-- The digits at the start of a text. -/
def leading (radix : Nat) (tail : List UInt8) : List UInt8 := tail.takeWhile (isDigit radix)

theorem leading_digits {radix : Nat} {tail : List UInt8} :
    ∀ c ∈ leading radix tail, isDigit radix c = true :=
  fun _ hc => List.mem_takeWhile_imp hc

theorem leading_starts {radix : Nat} {tail : List UInt8} : leading radix tail <+: tail :=
  List.takeWhile_prefix _

/-- `x` is no digit. -/
theorem isDigit_x {x : UInt8} {radix : Nat} (hradix : radix ≤ 16) (hx : x = lowerX ∨ x = upperX) :
    isDigit radix x = false := by
  rw [← Bool.not_eq_true]
  intro hdigit
  have hsixteen := isDigit_le hradix hdigit
  rcases hx with rfl | rfl <;> revert hsixteen <;> decide

theorem head_of_start {c d : UInt8} {ds tail : List UInt8} (h : c :: ds <+: d :: tail) :
    c = d ∧ ds <+: tail :=
  List.cons_prefix_cons.1 h

/-- A number behind `0x`: the lone zero, or the prefix with its digits. -/
theorem Body.length_hex {x : UInt8} {tail : List UInt8} (hbase : base ≤ 16)
    (hx : x = lowerX ∨ x = upperX) (h : Body base body n) (hstarts : body <+: zero :: x :: tail) :
    body.length ≤ 1 ∨ leading 16 tail ≠ [] ∧ body.length ≤ 2 + (leading 16 tail).length := by
  cases h with
  | plain _ hdigits _ =>
      left
      have hle := length_le_takeWhile hdigits hstarts
      by_cases hzero : isDigit base zero = true
      · rw [List.takeWhile_cons_of_pos hzero,
          List.takeWhile_cons_of_neg (Bool.eq_false_iff.1 (isDigit_x hbase hx))] at hle
        exact hle
      · rw [List.takeWhile_cons_of_neg hzero] at hle
        exact Nat.le_succ_of_le hle
  | hex _ _ hdigits hsome =>
      right
      obtain ⟨-, htail⟩ := head_of_start hstarts
      obtain ⟨-, htail⟩ := head_of_start htail
      have hle := length_le_takeWhile hdigits htail
      have hpos := List.length_pos_iff.2 hsome
      rw [leading, List.length_cons, List.length_cons]
      exact ⟨List.length_pos_iff.1 (by omega), by omega⟩
  | octal _ hdigits =>
      left
      have hle := length_le_takeWhile hdigits (head_of_start hstarts).2
      rw [List.takeWhile_cons_of_neg (Bool.eq_false_iff.1 (isDigit_x (by decide) hx))] at hle
      exact Nat.succ_le_succ hle
  | decimal _ _ hsome hzero =>
      obtain ⟨c, digits, rfl⟩ := List.exists_cons_of_ne_nil hsome
      rw [(head_of_start hstarts).1] at hzero
      exact absurd rfl hzero

/-- Without `0x`, a number is the prefix with the digits behind it. -/
theorem Body.length_other {radix : Nat} {pfx tail : List UInt8} (hpfx : pfx.length ≤ 1)
    (hprefixed : Prefixed base rest radix pfx tail) (h : Body base body n) (hstarts : body <+: rest) :
    body.length ≤ pfx.length + (leading radix tail).length := by
  cases hprefixed with
  | hex => exact absurd hpfx (Nat.not_succ_le_self 1)
  | octal hbase hx =>
      cases h with
      | plain hplain => exact absurd hbase hplain
      | hex _ hx' _ _ =>
          obtain ⟨t, ht⟩ := (head_of_start hstarts).2
          exact absurd hx' (hx _ (by rw [← ht]; rfl))
      | octal _ hdigits =>
          have hle := length_le_takeWhile hdigits (head_of_start hstarts).2
          rw [leading, List.length_cons, List.length_singleton]
          omega
      | decimal _ _ hsome hzero =>
          obtain ⟨c, digits, rfl⟩ := List.exists_cons_of_ne_nil hsome
          rw [(head_of_start hstarts).1] at hzero
          exact absurd rfl hzero
  | decimal hbase hzero =>
      cases h with
      | plain hplain => exact absurd hbase hplain
      | hex =>
          obtain ⟨t, ht⟩ := hstarts
          exact absurd (by rw [← ht]; rfl) hzero
      | octal =>
          obtain ⟨t, ht⟩ := hstarts
          exact absurd (by rw [← ht]; rfl) hzero
      | decimal _ hdigits =>
          exact (length_le_takeWhile hdigits hstarts).trans (Nat.le_add_left _ _)
  | plain hbase hx =>
      cases h with
      | plain _ hdigits =>
          exact (length_le_takeWhile hdigits hstarts).trans (Nat.le_add_left _ _)
      | hex hbase' hx' =>
          obtain ⟨t, ht⟩ := hstarts
          exact absurd hx' (hx (hbase'.resolve_left hbase) _ _ ht.symm)
      | octal hbase' => exact absurd hbase' hbase
      | decimal hbase' => exact absurd hbase' hbase

/-- A number that starts the rest: the prefix and the digits behind it. -/
theorem Prefixed.longest {radix : Nat} {pfx tail : List UInt8}
    (h : Prefixed base rest radix pfx tail) (hbase : base ≤ 16)
    (hsome : leading radix tail ≠ [] ∨ pfx.length = 1) :
    LongestBody base rest (pfx ++ leading radix tail) (value radix (leading radix tail)) := by
  have hlength : ∀ other m, other <+: rest → Body base other m →
      other.length ≤ (pfx ++ leading radix tail).length := by
    intro other m hother hbody
    rw [List.length_append]
    cases h with
    | hex _ hx =>
        have hdigits := hsome.resolve_right (Nat.succ_succ_ne_one 0)
        have hpos := List.length_pos_iff.2 hdigits
        rw [List.length_cons, List.length_singleton]
        rcases hbody.length_hex hbase hx hother with hone | ⟨-, hle⟩
        · omega
        · omega
    | octal hbase' hx => exact hbody.length_other (Nat.le_refl 1) (.octal hbase' hx) hother
    | decimal hbase' hzero => exact hbody.length_other (Nat.zero_le 1) (.decimal hbase' hzero) hother
    | plain hbase' hx => exact hbody.length_other (Nat.zero_le 1) (.plain hbase' hx) hother
  cases h with
  | hex hbase' hx =>
      refine ⟨?_, .hex hbase' hx leading_digits ?_, hlength⟩
      · exact (List.prefix_append_right_inj _).2 leading_starts
      · exact hsome.resolve_right (Nat.succ_succ_ne_one 0)
  | octal hbase' hx =>
      exact ⟨(List.prefix_append_right_inj _).2 leading_starts, .octal hbase' leading_digits, hlength⟩
  | decimal hbase' hzero =>
      refine ⟨leading_starts, .decimal hbase' leading_digits (hsome.resolve_right (by decide)) ?_,
        hlength⟩
      intro hhead
      apply hzero
      obtain ⟨t, ht⟩ := @leading_starts 10 rest
      rw [← ht, List.head?_append]
      rw [List.nil_append] at hhead
      rw [hhead, Option.some_or]
  | plain hbase' hx =>
      exact ⟨leading_starts, .plain hbase' leading_digits (hsome.resolve_right (by decide)), hlength⟩

/-- Behind a bare `0x` the number is the zero. -/
theorem Prefixed.bare {radix : Nat} {pfx tail : List UInt8}
    (h : Prefixed base rest radix pfx tail) (hbase : base ≤ 16) (hpfx : pfx.length = 2)
    (hnone : leading radix tail = []) : LongestBody base rest [zero] 0 := by
  cases h with
  | hex hbase' hx =>
      have hform : Body base [zero] 0 := by
        rcases hbase' with rfl | rfl
        · exact .octal rfl (List.forall_mem_nil _)
        · exact .plain (by decide) (List.forall_mem_singleton.2 (by decide)) (by decide)
      refine ⟨⟨_, rfl⟩, hform, fun other m hother hbody => ?_⟩
      rcases hbody.length_hex hbase hx hother with hone | ⟨hsome, -⟩
      · exact hone
      · exact absurd hnone hsome
  | octal => exact absurd hpfx (by decide)
  | decimal => exact absurd hpfx (by decide)
  | plain => exact absurd hpfx (by decide)

/-- Without a prefix and without a digit there is no number. -/
theorem Prefixed.none {radix : Nat} {pfx tail : List UInt8}
    (h : Prefixed base rest radix pfx tail) (hbase : base ≤ 16) (hpfx : pfx = [])
    (hnone : leading radix tail = []) (hstarts : body <+: rest) : ¬Body base body n := by
  intro hbody
  obtain ⟨c, t, rfl, -⟩ := hbody.head hbase
  have hle := hbody.length_other (by rw [hpfx]; exact Nat.zero_le 1) h hstarts
  rw [hpfx, hnone] at hle
  contradiction

/-- A number has one value. -/
theorem Body.unique {m : Nat} (hbase : base ≤ 16) (h : Body base body n) (h' : Body base body m) :
    n = m := by
  have hx_digit : ∀ {x : UInt8} {radix : Nat} {ds : List UInt8}, radix ≤ 16 →
      x = lowerX ∨ x = upperX → ¬∀ c ∈ x :: ds, isDigit radix c = true := by
    intro x radix ds hradix hx hall
    have hdigit := hall x List.mem_cons_self
    rw [isDigit_x hradix hx] at hdigit
    contradiction
  cases h with
  | plain hplain hdigits =>
      cases h' with
      | plain => rfl
      | hex _ hx =>
          exact absurd (fun c hc => hdigits c (List.mem_cons_of_mem _ hc)) (hx_digit hbase hx)
      | octal hzero => exact absurd hzero hplain
      | decimal hzero => exact absurd hzero hplain
  | hex _ hx =>
      cases h' with
      | plain _ hdigits =>
          exact absurd (fun c hc => hdigits c (List.mem_cons_of_mem _ hc)) (hx_digit hbase hx)
      | hex => rfl
      | octal _ hdigits => exact absurd hdigits (hx_digit (by decide) hx)
      | decimal _ _ _ hhead => exact absurd rfl hhead
  | octal hzero hdigits =>
      cases h' with
      | plain hplain => exact absurd hzero hplain
      | hex _ hx => exact absurd hdigits (hx_digit (by decide) hx)
      | octal => rfl
      | decimal _ _ _ hhead => exact absurd rfl hhead
  | decimal hzero _ _ hhead =>
      cases h' with
      | plain hplain => exact absurd hzero hplain
      | hex => exact absurd rfl hhead
      | octal => exact absurd rfl hhead
      | decimal => rfl

theorem Longest.unique {consumed' : List UInt8} (hsplit : Split text blanks sign rest u)
    (hbase : base ≤ 16) (h : Longest base text consumed v) (h' : Longest base text consumed' w) :
    consumed = consumed' ∧ v = w := by
  have hlength : consumed.length = consumed'.length :=
    Nat.le_antisymm (h'.longest _ _ h.starts h.form) (h.longest _ _ h'.starts h'.form)
  obtain ⟨body, n, rfl, -, hbody, rfl⟩ := hsplit.form hbase h.starts h.form
  obtain ⟨body', m, rfl, -, hbody', rfl⟩ := hsplit.form hbase h'.starts h'.form
  have heq := (List.prefix_of_prefix_length_le h.starts h'.starts hlength.le).eq_of_length hlength
  obtain rfl := List.append_cancel_left heq
  exact ⟨rfl, by rw [hbody.unique hbase hbody']⟩

theorem Longest.converts_iff {limit : Int → Int} {stop : Nat} {result : Int}
    (hsplit : Split text blanks sign rest u) (hbase : base ≤ 16) (h : Longest base text consumed v) :
    Converts limit base text stop result ↔ stop = consumed.length ∧ result = limit v := by
  constructor
  · rintro (⟨consumed', w, h', hstop, hresult⟩ | ⟨habsent, -⟩)
    · obtain ⟨rfl, rfl⟩ := h.unique hsplit hbase h'
      exact ⟨hstop, hresult⟩
    · exact absurd h.form (habsent _ _ h.starts)
  · rintro ⟨hstop, hresult⟩
    exact Or.inl ⟨consumed, v, h, hstop, hresult⟩

theorem Absent.converts_iff {limit : Int → Int} {stop : Nat} {result : Int}
    (h : Absent base text) : Converts limit base text stop result ↔ stop = 0 ∧ result = 0 := by
  constructor
  · rintro (⟨consumed, v, h', -⟩ | ⟨-, hstop⟩)
    · exact absurd h'.form (h _ _ h'.starts)
    · exact hstop
  · exact fun hstop => Or.inr ⟨h, hstop⟩

end Reading

section Text

/-- The sign that a text starts with. -/
def signOf : List UInt8 → List UInt8
  | [] => []
  | c :: _ => if c = minus ∨ c = plus then [c] else []

/-- The text behind its white space, and behind its sign. -/
def behindBlanks (text : List UInt8) : List UInt8 := text.dropWhile isSpace
def behindSign (text : List UInt8) : List UInt8 :=
  (behindBlanks text).drop (signOf (behindBlanks text)).length

/-- `0x` with no digit behind it, where the base lets it be a prefix. -/
def BareHex (base : Nat) (text : List UInt8) : Prop :=
  (base = 0 ∨ base = 16) ∧ ∃ x tail, behindSign text = zero :: x :: tail ∧
    (x = lowerX ∨ x = upperX) ∧ leading 16 tail = []

variable {base radix : Nat} {text rest pfx tail : List UInt8} {u : Int}

/-- The factor of a text's sign. -/
def signum (sign : List UInt8) : Int := if sign = [minus] then -1 else 1

theorem signOf_cases (text : List UInt8) :
    ∃ rest, text = signOf text ++ rest ∧ Sign (signOf text) (signum (signOf text)) ∧
      (signOf text = [] → ∀ c ∈ rest.head?, c ≠ plus ∧ c ≠ minus) := by
  cases text with
  | nil => exact ⟨[], rfl, .none, fun _ c hc => by contradiction⟩
  | cons c text =>
      rw [signOf]
      by_cases hminus : c = minus
      · rw [hminus, if_pos (Or.inl rfl)]
        exact ⟨text, rfl, .minus, fun hnil => by contradiction⟩
      · by_cases hplus : c = plus
        · rw [hplus, if_pos (Or.inr rfl)]
          exact ⟨text, rfl, .plus, fun hnil => by contradiction⟩
        · rw [if_neg (not_or.2 ⟨hminus, hplus⟩)]
          refine ⟨c :: text, rfl, .none, fun _ d hd => ?_⟩
          cases hd
          exact ⟨hplus, hminus⟩

theorem split_text (text : List UInt8) :
    Split text (text.takeWhile isSpace) (signOf (behindBlanks text)) (behindSign text)
      (signum (signOf (behindBlanks text))) := by
  obtain ⟨rest, heq, hsign, hstops⟩ := signOf_cases (behindBlanks text)
  have hrest : behindSign text = rest := (congrArg (List.drop _) heq).trans List.drop_left
  have hspace : signOf (behindBlanks text) = [] → ∀ c ∈ rest.head?, isSpace c = false := by
    intro hnil c hc
    rw [hnil, List.nil_append] at heq
    rw [← heq] at hc
    exact head_dropWhile c hc
  refine ⟨?_, fun c hc => List.mem_takeWhile_imp hc, hsign, fun hnil c hc => ?_⟩
  · rw [hrest, List.append_assoc, ← heq]
    exact List.takeWhile_append_dropWhile.symm
  · rw [hrest] at hc
    exact ⟨hspace hnil c hc, hstops hnil c hc⟩

theorem Prefixed.of_hex {x : UInt8} {t : List UInt8} (hbase : base = 0 ∨ base = 16)
    (hx : x = lowerX ∨ x = upperX) (h : Prefixed base (zero :: x :: t) radix pfx tail) :
    radix = 16 ∧ pfx = [zero, x] ∧ tail = t := by
  cases h with
  | hex => exact ⟨rfl, rfl, rfl⟩
  | octal _ hother => exact absurd hx (hother x rfl)
  | decimal _ hhead => exact absurd rfl hhead
  | plain hzero hother => exact absurd hx (hother (hbase.resolve_left hzero) x t rfl)

/-- A prefix with its digits is the longest numeral, a bare `0x` leaves a shorter one, and
without a prefix and a digit there is none. -/
theorem scan_cases {blanks sign : List UInt8} (hbase : base ≤ 16)
    (hsplit : Split text blanks sign (behindSign text) u)
    (h : Prefixed base (behindSign text) radix pfx tail) :
    (Longest base text (blanks ++ sign ++ (pfx ++ leading radix tail))
        (u * value radix (leading radix tail)) ∧ ¬BareHex base text) ∨
      (BareHex base text ∧ pfx.length = 2 ∧ Longest base text (blanks ++ sign ++ [zero]) (u * 0)) ∨
      (Absent base text ∧ leading radix tail = [] ∧ pfx = []) := by
  by_cases hsome : leading radix tail ≠ [] ∨ pfx.length = 1
  · left
    refine ⟨(h.longest hbase hsome).longest_form hsplit hbase, ?_⟩
    rintro ⟨hbase', x, t, hrest, hx, hnone⟩
    rw [hrest] at h
    obtain ⟨rfl, rfl, rfl⟩ := h.of_hex hbase' hx
    exact hsome.elim (fun hdigits => hdigits hnone) (Nat.succ_succ_ne_one 0)
  · right
    obtain ⟨hnone, hpfx⟩ := not_or.1 hsome
    rw [not_not] at hnone
    have habsent : pfx = [] → Absent base text := by
      intro hnil consumed v hstarts hform
      obtain ⟨body, n, -, hbody, hn, -⟩ := hsplit.form hbase hstarts hform
      exact h.none hbase hnil hnone hbody hn
    generalize hrest : behindSign text = rest at h hsplit
    cases h with
    | @hex x tail hbase' hx =>
        have hbare := (Prefixed.hex hbase' hx).bare hbase rfl hnone
        exact Or.inl ⟨⟨hbase', x, tail, hrest, hx, hnone⟩, rfl, hbare.longest_form hsplit hbase⟩
    | octal => exact absurd rfl hpfx
    | decimal => exact Or.inr ⟨habsent rfl, hnone, rfl⟩
    | plain => exact Or.inr ⟨habsent rfl, hnone, rfl⟩

end Text

end Numeral

end OsAgentLab
