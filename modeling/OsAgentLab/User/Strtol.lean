/-
`strtol` and `strtoul`, and the texts on which they convert as they should.
-/
import Mathlib.Data.BitVec
import Mathlib.Tactic.Ring
import OsAgentLab.User.Numeral

namespace OsAgentLab

namespace Numeral

section Code

variable (s : CStr)

/-- `p[0] == '0' && (p[1] == 'x' || p[1] == 'X')`. -/
def hexPrefix (p : Nat) : Option Bool :=
  (s.read p).bind fun c =>
    if c = zero then (s.read (p + 1)).map fun x => x = lowerX ∨ x = upperX else some false

/-- The base and the place of the first digit. -/
def basePrefix (base p : Nat) : Option (Nat × Nat) :=
  (hexPrefix s p).bind fun hex =>
    (s.read p).map fun c =>
      if (base = 0 ∨ base = 16) ∧ hex then (16, p + 2)
      else if base = 0 ∧ c = zero then (8, p + 1)
      else if base = 0 then (10, p)
      else (base, p)

/-- `while ((d = digit_val(*p)) >= 0 && d < base) val = val * base + d`. -/
def digitLoop (base : Nat) : Nat → Nat → BitVec 64 → Option (Nat × BitVec 64)
  | 0, _, _ => none
  | fuel + 1, p, val =>
      (s.read p).bind fun c =>
        if 0 ≤ digitVal c ∧ digitVal c < base then
          digitLoop base fuel (p + 1) (val * BitVec.ofNat 64 base + BitVec.ofInt 64 (digitVal c))
        else some (p, val)

/-- `strtol`: the place that `*end` is set to and the result; a `long` wraps. -/
def strtol (fuel base : Nat) : Option (Nat × Int) :=
  (s.skipWhile isSpace fuel 0).bind fun p =>
    (s.read p).bind fun c =>
      let neg : Bool := c = minus
      (basePrefix s base (if c = minus ∨ c = plus then p + 1 else p)).bind fun (base, p) =>
        (digitLoop s base fuel p 0).map fun (p, val) => (p, (if neg then -val else val).toInt)

/-- `strtoul`. -/
def strtoul (fuel base : Nat) : Option (Nat × Int) :=
  (s.skipWhile isSpace fuel 0).bind fun p =>
    (s.read p).bind fun c =>
      (basePrefix s base (if c = plus then p + 1 else p)).bind fun (base, p) =>
        (digitLoop s base fuel p 0).map fun (p, val) => (p, val.toNat)

end Code

section Loops

variable {s : CStr} {p base : Nat} {rest tail : List UInt8}

theorem basePrefix_spec (h : s.At p rest) :
    ∃ radix pfx tail, basePrefix s base p = some (radix, p + pfx.length) ∧
      Prefixed base rest radix pfx tail ∧ s.At (p + pfx.length) tail := by
  rw [basePrefix, hexPrefix]
  cases rest with
  | nil =>
      rw [h.read_nil, Option.bind_some, if_neg (by decide), Option.bind_some, Option.map_some,
        if_neg (fun hand => Bool.false_ne_true hand.2), if_neg (fun hand => absurd hand.2 (by decide))]
      by_cases hbase : base = 0
      · rw [if_pos hbase]
        exact ⟨10, [], [], rfl, .decimal hbase (by decide), h⟩
      · rw [if_neg hbase]
        exact ⟨base, [], [], rfl, .plain hbase (fun _ _ _ hnil => by contradiction), h⟩
  | cons c t =>
      rw [h.read_cons, Option.bind_some]
      by_cases hc : c = zero
      · rw [if_pos hc]
        subst hc
        have hread : ∃ x, s.read (p + 1) = some x ∧
            ((x = lowerX ∨ x = upperX) → t.head? = some x) ∧ ∀ y ∈ t.head?, y = x := by
          cases t with
          | nil => exact ⟨0, h.next.read_nil, by decide, fun y hy => by contradiction⟩
          | cons x t => exact ⟨x, h.next.read_cons, fun _ => rfl, fun y hy => (Option.some.inj hy).symm⟩
        obtain ⟨x, hread, hhead, honly⟩ := hread
        rw [hread, Option.map_some, Option.bind_some, Option.map_some]
        by_cases hhex : (base = 0 ∨ base = 16) ∧ (x = lowerX ∨ x = upperX)
        · rw [if_pos ⟨hhex.1, decide_eq_true hhex.2⟩]
          obtain ⟨t, rfl⟩ : ∃ u, t = x :: u := by
            have hsome := hhead hhex.2
            cases t with
            | nil => contradiction
            | cons y t => exact ⟨t, by rw [Option.some.inj hsome]⟩
          exact ⟨16, [zero, x], t, rfl, .hex hhex.1 hhex.2, h.next.next⟩
        · rw [if_neg (fun hand => hhex ⟨hand.1, of_decide_eq_true hand.2⟩)]
          by_cases hbase : base = 0
          · rw [if_pos ⟨hbase, rfl⟩]
            refine ⟨8, [zero], t, rfl, .octal hbase fun y hy hx => ?_, h.next⟩
            rw [honly y hy] at hx
            exact hhex ⟨Or.inl hbase, hx⟩
          · rw [if_neg (fun hand => hbase hand.1), if_neg hbase]
            refine ⟨base, [], zero :: t, rfl, .plain hbase fun hbase' y u heq hx => ?_, h⟩
            have hy : y = x := honly y (by rw [(List.cons.inj heq).2]; rfl)
            rw [hy] at hx
            exact hhex ⟨Or.inr hbase', hx⟩
      · rw [if_neg hc, Option.bind_some, Option.map_some,
          if_neg (fun hand => Bool.false_ne_true hand.2), if_neg (fun hand => hc hand.2)]
        by_cases hbase : base = 0
        · rw [if_pos hbase]
          refine ⟨10, [], c :: t, rfl, .decimal hbase fun hhead => ?_, h⟩
          exact hc (Option.some.inj hhead)
        · rw [if_neg hbase]
          refine ⟨base, [], c :: t, rfl, .plain hbase fun _ y u heq => ?_, h⟩
          exact absurd (List.cons.inj heq).1 hc

theorem value_cons (base : Nat) (c : UInt8) (digits : List UInt8) :
    value base (c :: digits) =
      (digitVal c).toNat * base ^ digits.length + value base digits := by
  rw [value, List.map_cons, Nat.ofDigits_reverse_cons, List.length_map, Nat.add_comm, Nat.mul_comm]
  rfl

theorem value_nil (base : Nat) : value base [] = 0 := rfl

/-- One more digit in front of those that follow. -/
theorem digit_step {c : UInt8} {digits : List UInt8} (val : BitVec 64) (hc : 0 ≤ digitVal c) :
    (val * BitVec.ofNat 64 base + BitVec.ofInt 64 (digitVal c)) *
          BitVec.ofNat 64 (base ^ digits.length) + BitVec.ofNat 64 (value base digits) =
      val * BitVec.ofNat 64 (base ^ (digits.length + 1)) +
        BitVec.ofNat 64 (value base (c :: digits)) := by
  have hdigit : BitVec.ofInt 64 (digitVal c) = BitVec.ofNat 64 (digitVal c).toNat := by
    rw [← BitVec.ofInt_natCast, Int.toNat_of_nonneg hc]
  rw [hdigit, value_cons, Nat.pow_succ, BitVec.ofNat_add, BitVec.ofNat_mul, BitVec.ofNat_mul]
  ring

theorem no_digits (base : Nat) (val : BitVec 64) :
    val * BitVec.ofNat 64 (base ^ 0) + BitVec.ofNat 64 (value base []) = val := by
  change val * 1 + 0 = val
  rw [mul_one, add_zero]

theorem digitLoop_spec (h : s.At p tail) (val : BitVec 64) :
    ∀ fuel, tail.length < fuel →
      digitLoop s base fuel p val = some (p + (leading base tail).length,
        val * BitVec.ofNat 64 (base ^ (leading base tail).length) +
          BitVec.ofNat 64 (value base (leading base tail))) := by
  induction tail generalizing p val with
  | nil =>
      rintro (_ | fuel) hfuel
      · contradiction
      · rw [digitLoop, h.read_nil, Option.bind_some, if_neg (fun hand => absurd hand.1 (by decide))]
        exact congrArg (fun v => some (p, v)) (no_digits base val).symm
  | cons c tail ih =>
      rintro (_ | fuel) hfuel
      · contradiction
      · rw [digitLoop, h.read_cons, Option.bind_some]
        by_cases hdigit : isDigit base c = true
        · have hvalue := of_decide_eq_true hdigit
          rw [if_pos hvalue, ih h.next _ fuel (Nat.lt_of_succ_lt_succ hfuel), leading,
            leading, List.takeWhile_cons_of_pos hdigit, List.length_cons, digit_step val hvalue.1,
            Nat.add_assoc, Nat.add_comm 1]
        · rw [if_neg (fun hand => hdigit (decide_eq_true hand)), leading,
            List.takeWhile_cons_of_neg hdigit]
          exact congrArg (fun v => some (p, v)) (no_digits base val).symm

/-- The digits that are read from the start. -/
theorem digitLoop_zero {radix fuel : Nat} (h : s.At p tail) (hfuel : tail.length < fuel) :
    digitLoop s radix fuel p 0 = some (p + (leading radix tail).length,
      BitVec.ofNat 64 (value radix (leading radix tail))) := by
  have hloop := @digitLoop_spec _ _ radix _ h 0 fuel hfuel
  rw [zero_mul, zero_add] at hloop
  exact hloop

theorem behindBlanks_at (s : CStr) {fuel : Nat} (hfuel : s.chars.length < fuel) :
    s.skipWhile isSpace fuel 0 = some (s.chars.takeWhile isSpace).length ∧
      s.At (s.chars.takeWhile isSpace).length (behindBlanks s.chars) := by
  have hskip := s.at_start.skipWhile (by decide : isSpace 0 = false) fuel hfuel
  rw [Nat.zero_add] at hskip
  exact hskip

/-- The sign is one character that is skipped, or none. -/
theorem sign_step {i : Nat} {text : List UInt8} (h : s.At i text) :
    ∃ c, s.read i = some c ∧ (c = minus ↔ signOf text = [minus]) ∧
      (if c = minus ∨ c = plus then i + 1 else i) = i + (signOf text).length ∧
      s.At (i + (signOf text).length) (text.drop (signOf text).length) := by
  cases text with
  | nil => exact ⟨0, h.read_nil, by decide, if_neg (by decide), h⟩
  | cons c text =>
      refine ⟨c, h.read_cons, ?_⟩
      rw [signOf]
      by_cases hsign : c = minus ∨ c = plus
      · rw [if_pos hsign, if_pos hsign]
        exact ⟨⟨fun hc => by rw [hc], fun heq => (List.cons.inj heq).1⟩, rfl, h.next⟩
      · rw [if_neg hsign, if_neg hsign]
        exact ⟨⟨fun hc => absurd (Or.inl hc) hsign, fun heq => by contradiction⟩, rfl, h⟩

/-- The accumulated value with its sign. -/
theorem signed_val {sign : List UInt8} {c : UInt8} (hminus : c = minus ↔ sign = [minus]) (n : Nat) :
    (if decide (c = minus) = true then -BitVec.ofNat 64 n else BitVec.ofNat 64 n) =
      BitVec.ofInt 64 (signum sign * n) := by
  rw [signum]
  by_cases hc : c = minus
  · rw [if_pos (decide_eq_true hc), if_pos (hminus.1 hc), neg_one_mul, BitVec.ofInt_neg,
      BitVec.ofInt_natCast]
  · rw [if_neg (fun h => hc (of_decide_eq_true h)), if_neg (fun h => hc (hminus.2 h)), one_mul,
      BitVec.ofInt_natCast]

/-- `strtol` reads the prefix and the digits behind white space and sign. -/
theorem strtol_eq (s : CStr) (base : Nat) :
    ∃ radix pfx tail, Prefixed base (behindSign s.chars) radix pfx tail ∧
      ∀ fuel, s.chars.length < fuel →
        strtol s fuel base = some
          ((s.chars.takeWhile isSpace).length + (signOf (behindBlanks s.chars)).length +
            pfx.length + (leading radix tail).length,
          (BitVec.ofInt 64 (signum (signOf (behindBlanks s.chars)) *
            value radix (leading radix tail))).toInt) := by
  obtain ⟨-, hblanks⟩ := behindBlanks_at s (Nat.lt_succ_self _)
  obtain ⟨c, hread, hminus, hskip, hsign⟩ := sign_step hblanks
  obtain ⟨radix, pfx, tail, hprefix, hprefixed, htail⟩ := @basePrefix_spec _ _ base _ hsign
  refine ⟨radix, pfx, tail, hprefixed, fun fuel hfuel => ?_⟩
  rw [strtol, (behindBlanks_at s hfuel).1, Option.bind_some, hread, Option.bind_some, hskip,
    hprefix, Option.bind_some]
  dsimp only
  rw [digitLoop_zero htail (htail.length_le.trans_lt hfuel), Option.map_some, signed_val hminus]

/-- `strtoul` does so on a text without a minus. -/
theorem strtoul_eq (s : CStr) (base : Nat) (hplus : signOf (behindBlanks s.chars) ≠ [minus]) :
    ∃ radix pfx tail, Prefixed base (behindSign s.chars) radix pfx tail ∧
      ∀ fuel, s.chars.length < fuel →
        strtoul s fuel base = some
          ((s.chars.takeWhile isSpace).length + (signOf (behindBlanks s.chars)).length +
            pfx.length + (leading radix tail).length,
          ((BitVec.ofNat 64 (value radix (leading radix tail))).toNat : Int)) := by
  obtain ⟨-, hblanks⟩ := behindBlanks_at s (Nat.lt_succ_self _)
  obtain ⟨c, hread, hminus, hskip, hsign⟩ := sign_step hblanks
  obtain ⟨radix, pfx, tail, hprefix, hprefixed, htail⟩ := @basePrefix_spec _ _ base _ hsign
  have hc : ¬c = minus := fun h => hplus (hminus.1 h)
  simp only [hc, false_or] at hskip
  refine ⟨radix, pfx, tail, hprefixed, fun fuel hfuel => ?_⟩
  rw [strtoul, (behindBlanks_at s hfuel).1, Option.bind_some, hread, Option.bind_some, hskip,
    hprefix, Option.bind_some]
  dsimp only
  rw [digitLoop_zero htail (htail.length_le.trans_lt hfuel), Option.map_some]

/-- At a minus there is neither a prefix nor a digit. -/
theorem prefixed_minus {radix : Nat} {pfx tail t : List UInt8} (hbase : base ≤ 16)
    (h : Prefixed base (minus :: t) radix pfx tail) : pfx = [] ∧ leading radix tail = [] := by
  have hnone : ∀ {radix}, radix ≤ 16 → leading radix (minus :: t) = [] := by
    intro radix hradix
    have hdigit : ¬isDigit radix minus = true := fun hdigit =>
      absurd (isDigit_le hradix hdigit) (by decide)
    exact List.takeWhile_cons_of_neg hdigit
  generalize htext : minus :: t = text at h hnone
  cases h with
  | hex => exact absurd (List.cons.inj htext).1 (by decide)
  | octal => exact absurd (List.cons.inj htext).1 (by decide)
  | decimal => exact ⟨rfl, hnone (by decide)⟩
  | plain => exact ⟨rfl, hnone hbase⟩

theorem signOf_minus {text : List UInt8} (h : signOf text = [minus]) : ∃ t, text = minus :: t := by
  obtain ⟨t, heq, -⟩ := signOf_cases text
  rw [h] at heq
  exact ⟨t, heq⟩

/-- At a minus `strtoul` stops without a digit. -/
theorem strtoul_minus (s : CStr) {base : Nat} (hbase : base ≤ 16)
    (hminus : signOf (behindBlanks s.chars) = [minus]) {fuel : Nat} (hfuel : s.chars.length < fuel) :
    strtoul s fuel base = some ((s.chars.takeWhile isSpace).length, 0) := by
  obtain ⟨-, hblanks⟩ := behindBlanks_at s (Nat.lt_succ_self _)
  obtain ⟨c, hread, hc, -⟩ := sign_step hblanks
  obtain ⟨radix, pfx, tail, hprefix, hprefixed, htail⟩ := @basePrefix_spec _ _ base _ hblanks
  obtain ⟨t, ht⟩ := signOf_minus hminus
  rw [ht] at hprefixed
  obtain ⟨rfl, hnone⟩ := prefixed_minus hbase hprefixed
  have hplus : ¬c = plus := by rw [hc.2 hminus]; decide
  rw [strtoul, (behindBlanks_at s hfuel).1, Option.bind_some, hread, Option.bind_some,
    if_neg hplus, hprefix, Option.bind_some]
  dsimp only
  rw [digitLoop_zero htail (htail.length_le.trans_lt hfuel), Option.map_some, hnone]
  rfl

end Loops

section Limits

/-- `LONG_MIN`, `LONG_MAX` and `ULONG_MAX`. -/
def longMin : Int := -(2 ^ 63)
def longMax : Int := 2 ^ 63 - 1
def ulongMax : Int := 2 ^ 64 - 1

/-- The nearest value of a `long`, and of an `unsigned long` for a number above it. -/
def longLimit (v : Int) : Int := max longMin (min v longMax)
def ulongLimit (v : Int) : Int := if 0 ≤ v ∧ v ≤ ulongMax then v else ulongMax

/-- The number fits, or wraps to its limit. -/
def KeepsLong (v : Int) : Prop :=
  longMin ≤ v ∧ v ≤ longMax ∨ longMax < v ∧ v % 2 ^ 64 = 2 ^ 63 - 1 ∨ v < longMin ∧ v % 2 ^ 64 = 2 ^ 63
def KeepsUlong (v : Int) : Prop := v ≤ ulongMax ∨ v % 2 ^ 64 = 2 ^ 64 - 1

theorem long_iff (v : Int) : (BitVec.ofInt 64 v).toInt = longLimit v ↔ KeepsLong v := by
  rw [BitVec.toInt_ofInt, Int.bmod_def, longLimit, KeepsLong, longMin, longMax]
  norm_num
  omega

theorem ulong_iff (n : Nat) : ((BitVec.ofNat 64 n).toNat : Int) = ulongLimit n ↔ KeepsUlong n := by
  rw [BitVec.toNat_ofNat, ulongLimit, KeepsUlong, ulongMax]
  norm_num
  split
  · omega
  · omega

end Limits

section Conversion

variable (base : Nat) (text : List UInt8)

/-- The texts that `strtol` converts: a numeral that is not the zero of a bare `0x` and keeps
within a `long`, or none and nothing to skip. -/
def StrtolConverts : Prop :=
  (∃ consumed v, Longest base text consumed v ∧ ¬BareHex base text ∧ KeepsLong v) ∨
    Absent base text ∧ ∀ c ∈ text.head?, ¬(isSpace c = true ∨ c = plus ∨ c = minus)

/-- The texts that `strtoul` converts: it reads no minus. -/
def StrtoulConverts : Prop :=
  (∃ consumed v, Longest base text consumed v ∧ ¬BareHex base text ∧
      (behindBlanks text).head? ≠ some minus ∧ KeepsUlong v) ∨
    Absent base text ∧ ∀ c ∈ text.head?, ¬(isSpace c = true ∨ c = plus)

end Conversion

section Main

variable {base : Nat} {text : List UInt8} {limit : Int → Int} {stop : Nat} {result : Int}

theorem takeWhile_nil_iff : text.takeWhile isSpace = [] ↔ ∀ c ∈ text.head?, ¬isSpace c = true := by
  cases text with
  | nil => exact ⟨fun _ c hc => by contradiction, fun _ => rfl⟩
  | cons c text =>
      constructor
      · intro hnil d hd hspace
        cases hd
        rw [List.takeWhile_cons_of_pos hspace] at hnil
        contradiction
      · intro hspace
        exact List.takeWhile_cons_of_neg (hspace c rfl)

theorem signOf_nil_iff : signOf text = [] ↔ ∀ c ∈ text.head?, ¬(c = plus ∨ c = minus) := by
  cases text with
  | nil => exact ⟨fun _ c hc => by contradiction, fun _ => rfl⟩
  | cons c text =>
      rw [signOf]
      constructor
      · intro hnil d hd hsign
        cases hd
        rw [if_pos hsign.symm] at hnil
        contradiction
      · intro hsign
        exact if_neg fun h => hsign c rfl h.symm

theorem behindBlanks_eq (h : text.takeWhile isSpace = []) : behindBlanks text = text := by
  have happend := List.takeWhile_append_dropWhile (p := isSpace) (l := text)
  rw [h] at happend
  exact happend

/-- Nothing is skipped in front of a text that starts with neither white space nor a sign. -/
theorem nothing_skipped :
    (text.takeWhile isSpace).length + (signOf (behindBlanks text)).length = 0 ↔
      ∀ c ∈ text.head?, ¬(isSpace c = true ∨ c = plus ∨ c = minus) := by
  rw [Nat.add_eq_zero_iff, List.length_eq_zero_iff, List.length_eq_zero_iff]
  constructor
  · rintro ⟨hblanks, hsign⟩ c hc (hspace | hmark)
    · exact takeWhile_nil_iff.1 hblanks c hc hspace
    · rw [behindBlanks_eq hblanks] at hsign
      exact signOf_nil_iff.1 hsign c hc hmark
  · intro hnone
    have hblanks : text.takeWhile isSpace = [] :=
      takeWhile_nil_iff.2 fun c hc hspace => hnone c hc (Or.inl hspace)
    refine ⟨hblanks, ?_⟩
    rw [behindBlanks_eq hblanks]
    exact signOf_nil_iff.2 fun c hc hmark => hnone c hc (Or.inr hmark)

/-- When a scan of the prefix and the digits, whose result is the limited value exactly where
`fits` holds, is a conversion. -/
theorem scan_converts {radix : Nat} {pfx tail : List UInt8} {fits : Int → Prop} (hbase : base ≤ 16)
    (h : Prefixed base (behindSign text) radix pfx tail)
    (hfits : result = limit (signum (signOf (behindBlanks text)) * value radix (leading radix tail)) ↔
      fits (signum (signOf (behindBlanks text)) * value radix (leading radix tail)))
    (hzero : leading radix tail = [] → result = 0) :
    Converts limit base text
        ((text.takeWhile isSpace).length + (signOf (behindBlanks text)).length + pfx.length +
          (leading radix tail).length) result ↔
      (∃ consumed v, Longest base text consumed v ∧ ¬BareHex base text ∧ fits v) ∨
        Absent base text ∧
          (text.takeWhile isSpace).length + (signOf (behindBlanks text)).length = 0 := by
  have hsplit := split_text text
  rcases scan_cases hbase hsplit h with ⟨hlongest, hbare⟩ | ⟨hbare, hpfx, hlongest⟩ |
    ⟨habsent, hnone, hpfx⟩
  · rw [hlongest.converts_iff hsplit hbase, hfits]
    constructor
    · rintro ⟨-, hv⟩
      exact Or.inl ⟨_, _, hlongest, hbare, hv⟩
    · rintro (⟨consumed, v, hlongest', -, hv⟩ | ⟨habsent, -⟩)
      · obtain ⟨-, rfl⟩ := hlongest.unique hsplit hbase hlongest'
        refine ⟨?_, hv⟩
        simp only [List.length_append]
        omega
      · exact absurd hlongest.form (habsent _ _ hlongest.starts)
  · rw [hlongest.converts_iff hsplit hbase]
    constructor
    · rintro ⟨hstop, -⟩
      simp only [List.length_append, List.length_singleton] at hstop
      omega
    · rintro (⟨_, _, -, hbare', -⟩ | ⟨habsent, -⟩)
      · exact absurd hbare hbare'
      · exact absurd hlongest.form (habsent _ _ hlongest.starts)
  · rw [habsent.converts_iff, hnone, hpfx]
    constructor
    · rintro ⟨hstop, -⟩
      exact Or.inr ⟨habsent, hstop⟩
    · rintro (⟨consumed, v, hlongest, -⟩ | ⟨-, hstop⟩)
      · exact absurd hlongest.form (habsent _ _ hlongest.starts)
      · exact ⟨hstop, hzero hnone⟩

theorem strtol_converts (s : CStr) (hbase : base ≤ 16) {fuel : Nat} (hfuel : s.chars.length < fuel) :
    ∃ stop result, strtol s fuel base = some (stop, result) ∧
      (Converts longLimit base s.chars stop result ↔ StrtolConverts base s.chars) := by
  obtain ⟨radix, pfx, tail, hprefixed, heq⟩ := strtol_eq s base
  refine ⟨_, _, heq fuel hfuel, ?_⟩
  rw [StrtolConverts, ← nothing_skipped]
  apply scan_converts hbase hprefixed (long_iff _)
  intro hnone
  rw [hnone, value_nil, Nat.cast_zero, mul_zero]
  rfl

theorem head_minus_iff :
    (behindBlanks text).head? = some minus ↔ signOf (behindBlanks text) = [minus] := by
  cases behindBlanks text with
  | nil => exact ⟨fun h => by contradiction, fun h => by contradiction⟩
  | cons c rest =>
      rw [List.head?_cons, Option.some_inj]
      constructor
      · rintro rfl
        rfl
      · intro hsign
        obtain ⟨t, heq⟩ := signOf_minus hsign
        exact (List.cons.inj heq).1

/-- At a minus the text is converted only if there is nothing to read. -/
theorem minus_converts (hbase : base ≤ 16) (hminus : signOf (behindBlanks text) = [minus]) :
    Converts limit base text (text.takeWhile isSpace).length 0 ↔
      Absent base text ∧ ∀ c ∈ text.head?, ¬(isSpace c = true ∨ c = plus) := by
  constructor
  · rintro (⟨consumed, v, hlongest, hstop, -⟩ | ⟨habsent, hstop, -⟩)
    · obtain ⟨body, n, rfl, -⟩ := (split_text text).form hbase hlongest.starts hlongest.form
      rw [hminus, List.length_append, List.length_append, List.length_singleton] at hstop
      omega
    · have hblanks := List.length_eq_zero_iff.1 hstop
      refine ⟨habsent, fun c hc hskip => ?_⟩
      rcases hskip with hspace | rfl
      · exact takeWhile_nil_iff.1 hblanks c hc hspace
      · have hhead := head_minus_iff.2 hminus
        rw [behindBlanks_eq hblanks, Option.mem_def.1 hc] at hhead
        contradiction
  · rintro ⟨habsent, hnone⟩
    have hblanks : text.takeWhile isSpace = [] :=
      takeWhile_nil_iff.2 fun c hc hspace => hnone c hc (Or.inl hspace)
    exact Or.inr ⟨habsent, List.length_eq_zero_iff.2 hblanks, rfl⟩

theorem plus_skipped (hminus : (behindBlanks text).head? ≠ some minus) :
    (∀ c ∈ text.head?, ¬(isSpace c = true ∨ c = plus ∨ c = minus)) ↔
      ∀ c ∈ text.head?, ¬(isSpace c = true ∨ c = plus) := by
  constructor
  · rintro h c hc (hspace | hplus)
    · exact h c hc (Or.inl hspace)
    · exact h c hc (Or.inr (Or.inl hplus))
  · rintro h c hc (hspace | hplus | rfl)
    · exact h c hc (Or.inl hspace)
    · exact h c hc (Or.inr hplus)
    · have hblanks : text.takeWhile isSpace = [] :=
        takeWhile_nil_iff.2 fun d hd hspace => h d hd (Or.inl hspace)
      rw [behindBlanks_eq hblanks] at hminus
      exact hminus hc

theorem strtoul_converts (s : CStr) (hbase : base ≤ 16) {fuel : Nat} (hfuel : s.chars.length < fuel) :
    ∃ stop result, strtoul s fuel base = some (stop, result) ∧
      (Converts ulongLimit base s.chars stop result ↔ StrtoulConverts base s.chars) := by
  by_cases hminus : signOf (behindBlanks s.chars) = [minus]
  · refine ⟨_, _, strtoul_minus s hbase hminus hfuel, ?_⟩
    rw [StrtoulConverts, minus_converts hbase hminus]
    constructor
    · exact Or.inr
    · rintro (⟨_, _, -, -, hhead, -⟩ | h)
      · exact absurd (head_minus_iff.2 hminus) hhead
      · exact h
  · obtain ⟨radix, pfx, tail, hprefixed, heq⟩ := strtoul_eq s base hminus
    have hhead : (behindBlanks s.chars).head? ≠ some minus := fun h => hminus (head_minus_iff.1 h)
    refine ⟨_, _, heq fuel hfuel, ?_⟩
    rw [StrtoulConverts, ← plus_skipped hhead, ← nothing_skipped]
    have hone : signum (signOf (behindBlanks s.chars)) = 1 := if_neg hminus
    have hfits : ((BitVec.ofNat 64 (value radix (leading radix tail))).toNat : Int) =
        ulongLimit (signum (signOf (behindBlanks s.chars)) * value radix (leading radix tail)) ↔
        KeepsUlong (signum (signOf (behindBlanks s.chars)) * value radix (leading radix tail)) := by
      rw [hone, one_mul]
      exact ulong_iff _
    refine (scan_converts hbase hprefixed hfits ?_).trans ?_
    · intro hnone
      rw [hnone]
      rfl
    · constructor
      · rintro (⟨consumed, v, hlongest, hbare, hv⟩ | h)
        · exact Or.inl ⟨consumed, v, hlongest, hbare, hhead, hv⟩
        · exact Or.inr h
      · rintro (⟨consumed, v, hlongest, hbare, -, hv⟩ | h)
        · exact Or.inl ⟨consumed, v, hlongest, hbare, hv⟩
        · exact Or.inr h

/-- `strtol` and `strtoul` convert exactly the texts whose longest numeral is no bare `0x`,
keeps within the type and, for `strtoul`, has no minus, and the texts without a numeral from
which they skip nothing. -/
theorem strtol_strtoul_converts (s : CStr) (base : Nat)
    (hbase : base = 0 ∨ 2 ≤ base ∧ base ≤ 16) :
    ∃ passes, ∀ fuel, passes ≤ fuel →
      (∃ stop result, strtol s fuel base = some (stop, result) ∧
        (Converts longLimit base s.chars stop result ↔ StrtolConverts base s.chars)) ∧
      ∃ stop result, strtoul s fuel base = some (stop, result) ∧
        (Converts ulongLimit base s.chars stop result ↔ StrtoulConverts base s.chars) := by
  have hle : base ≤ 16 := by omega
  exact ⟨s.chars.length + 1, fun fuel hfuel => ⟨strtol_converts s hle hfuel, strtoul_converts s hle hfuel⟩⟩

/-- The text `42` in base 10. -/
theorem strtol_strtoul_converts_number :
    ∃ passes, ∀ fuel, passes ≤ fuel →
      (∃ stop result, strtol ⟨[52, 50], by decide⟩ fuel 10 = some (stop, result) ∧
        (Converts longLimit 10 [52, 50] stop result ↔ StrtolConverts 10 [52, 50])) ∧
      ∃ stop result, strtoul ⟨[52, 50], by decide⟩ fuel 10 = some (stop, result) ∧
        (Converts ulongLimit 10 [52, 50] stop result ↔ StrtoulConverts 10 [52, 50]) :=
  strtol_strtoul_converts ⟨[52, 50], by decide⟩ 10 (Or.inr ⟨by decide, by decide⟩)

/-- The text `0x` in base 16: the end pointer is set behind the `x`. -/
theorem strtol_bare_hex :
    ¬∀ (s : CStr) (base fuel stop : Nat) (result : Int), base = 0 ∨ 2 ≤ base ∧ base ≤ 16 →
      strtol s fuel base = some (stop, result) → Converts longLimit base s.chars stop result := by
  intro hall
  have hrun : strtol ⟨[zero, lowerX], by decide⟩ 3 16 = some (2, 0) := by decide
  have hconverts := hall _ 16 3 2 0 (Or.inr ⟨by decide, by decide⟩) hrun
  have hsplit : Split [zero, lowerX] [] [] [zero, lowerX] 1 :=
    ⟨rfl, List.forall_mem_nil _, .none, fun _ c hc => by cases hc; decide⟩
  have hprefixed : Prefixed 16 [zero, lowerX] 16 [zero, lowerX] [] := .hex (Or.inr rfl) (Or.inl rfl)
  have hlongest := (hprefixed.bare (by decide) rfl rfl).longest_form hsplit (by decide)
  have hstop := ((hlongest.converts_iff hsplit (by decide)).1 hconverts).1
  contradiction

end Main

end Numeral

end OsAgentLab
