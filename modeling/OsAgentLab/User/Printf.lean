/-
Formatted output of the C library, `printf.c`: the scanner, the numerals, and
output into a buffer.
-/
import Mathlib.Data.Nat.Digits.Defs
import OsAgentLab.Program
import OsAgentLab.Blk

namespace OsAgentLab

/-- An argument in a `va_list`; it is read with the type that it has. -/
inductive VaArg where
  | int (v : BitVec 32)
  | long (v : BitVec 64)
  | pointer (v : BitVec 64)
  | string (s : Option (List UInt8))
deriving DecidableEq, Repr

/-- Programs over the context of the output function and the `va_list`. -/
abbrev FmtProg (σ α : Type) : Type := Prog (σ × List VaArg) Unit α

/-- `struct buf_ctx`; `buf` are the bytes behind its pointer. -/
structure BufCtx where
  buf : Nat → UInt8
  size : Nat
  pos : Nat

/-- `avail` of `out_buf`. -/
def BufCtx.avail (b : BufCtx) : Nat :=
  if 0 < b.size ∧ b.pos < b.size then b.size - b.pos - 1 else 0

/-- `out_buf`. -/
def outBuf (s : List UInt8) (b : BufCtx) : Int × BufCtx :=
  let copy := if s.length < b.avail then s.length else b.avail
  (cInt s.length, { b with
    buf := overlay b.buf b.pos copy fun i => s.getD i 0
    pos := u64 (b.pos + s.length) })

section Scanner

variable {σ : Type} (out : List UInt8 → σ → Int × σ)

/-- `out(ctx, s, len)`. -/
def emit (s : List UInt8) : FmtProg σ Int := fun st => (.ok (out s st.1).1, ((out s st.1).2, st.2))

/-- `va_arg(ap, T)` for a type whose values `read` finds; another argument, or none, is
undefined. -/
def vaArg {α : Type} (read : VaArg → Option α) : FmtProg σ α := fun st =>
  match st.2 with
  | [] => (.fault, st)
  | arg :: rest =>
      match read arg with
      | none => (.fault, st)
      | some a => (.ok a, (st.1, rest))

/-- The digit of `"0123456789abcdef"`. -/
def digitChar (d : Nat) : UInt8 := if d < 10 then UInt8.ofNat (48 + d) else UInt8.ofNat (87 + d)

/-- The digits of `val` in `buf`, the lowest first; `buf` holds 32 of them. -/
def printDigits (base : Nat) : Nat → Nat → List UInt8
  | 0, _ => []
  | room + 1, val =>
      if val = 0 then [] else digitChar (val % base) :: printDigits base room (val / base)

/-- `print_num`. -/
def printNum (val base : Nat) (neg : Bool) : FmtProg σ Int :=
  let buf := if val = 0 then [48] else printDigits base 32 val
  emit out ((if neg then [45] else []) ++ buf.reverse)

/-- `va_arg(ap, int)`. -/
def VaArg.asInt : VaArg → Option (BitVec 32)
  | .int v => some v
  | _ => none

/-- `long_flag ? va_arg(ap, long) : va_arg(ap, int)`. -/
def VaArg.asSigned (long : Bool) : VaArg → Option Int
  | .int v => if long then none else some v.toInt
  | .long v => if long then some v.toInt else none
  | _ => none

/-- `long_flag ? va_arg(ap, unsigned long) : va_arg(ap, unsigned int)`. -/
def VaArg.asUnsigned (long : Bool) : VaArg → Option Nat
  | .int v => if long then none else some v.toNat
  | .long v => if long then some v.toNat else none
  | _ => none

/-- `va_arg(ap, void *)`. -/
def VaArg.asPointer : VaArg → Option Nat
  | .pointer v => some v.toNat
  | _ => none

/-- `va_arg(ap, const char *)`. -/
def VaArg.asString : VaArg → Option (Option (List UInt8))
  | .string s => some s
  | _ => none

/-- `"(null)"`. -/
def nullText : List UInt8 := [40, 110, 117, 108, 108, 41]

/-- The `switch` on the conversion character; the result is what is added to `total`.
The negation of the most negative `long long` wraps round to itself. -/
def vformatConv (long : Bool) (conv : UInt8) : FmtProg σ Int :=
  if conv = 115 then do
    let s ← vaArg VaArg.asString
    let s := s.getD nullText
    let _ ← emit out s
    pure (cInt s.length)
  else if conv = 99 then do
    let v ← vaArg VaArg.asInt
    let _ ← emit out [UInt8.ofNat v.toNat]
    pure 1
  else if conv = 100 ∨ conv = 105 then do
    let v ← vaArg (VaArg.asSigned long)
    let uv := if v < 0 then ((-v) % 18446744073709551616).toNat else v.toNat
    printNum out uv 10 (v < 0)
  else if conv = 117 then do
    let v ← vaArg (VaArg.asUnsigned long)
    printNum out v 10 false
  else if conv = 120 then do
    let v ← vaArg (VaArg.asUnsigned long)
    printNum out v 16 false
  else if conv = 112 then do
    let v ← vaArg VaArg.asPointer
    let _ ← emit out [48, 120]
    let n ← printNum out v 16 false
    pure (2 + n)
  else if conv = 37 then do
    let _ ← emit out [37]
    pure 1
  else do
    let _ ← emit out [37]
    let _ ← emit out [conv]
    pure 2

/-- `vformat` from `p` on, where `total` has been written.  The list ends where the format
has its terminating NUL.  A conversion whose character is that NUL goes to the `default`
branch, and the next `p++` leaves the format. -/
def vformat (total : Int) : List UInt8 → FmtProg σ Int
  | [] => pure total
  | c :: p =>
      if c ≠ 37 then do
        let _ ← emit out [c]
        vformat (total + 1) p
      else
        match p with
        | [] => do
            let _ ← vformatConv out false 0
            Prog.crash
        | conv :: p =>
            if conv ≠ 108 then do
              let n ← vformatConv out false conv
              vformat (total + n) p
            else
              match p with
              | [] => do
                  let _ ← vformatConv out true 0
                  Prog.crash
              | conv :: p => do
                  let n ← vformatConv out true conv
                  vformat (total + n) p

variable {out : List UInt8 → σ → Int × σ} {total : Int} {c conv : UInt8} {p : List UInt8}

theorem vformat_literal (h : c ≠ 37) : vformat out total (c :: p) = (do
    let _ ← emit out [c]
    vformat out (total + 1) p) := by
  rw [vformat.eq_def]
  exact if_pos h

theorem vformat_plain (h : conv ≠ 108) : vformat out total (37 :: conv :: p) = (do
    let n ← vformatConv out false conv
    vformat out (total + n) p) := by
  rw [vformat.eq_def]
  exact if_pos h

theorem vformat_long : vformat out total (37 :: 108 :: conv :: p) = (do
    let n ← vformatConv out true conv
    vformat out (total + n) p) := by
  rw [vformat.eq_def]
  rfl

end Scanner

/-- `if (size > 0) { ctx.buf[term] = '\0'; }` at the end of `vsnprintf`. -/
def BufCtx.terminate (b : BufCtx) : Nat → UInt8 :=
  if 0 < b.size then overlay b.buf (if b.pos < b.size then b.pos else b.size - 1) 1 fun _ => 0
  else b.buf

/-- `vsnprintf(buf, size, fmt, ap)`: the return value, and what is behind `buf` then. -/
def vsnprintf (buf : Nat → UInt8) (size : Nat) (fmt : List UInt8) (ap : List VaArg) :
    Outcome Unit Int × (Nat → UInt8) :=
  match vformat outBuf 0 fmt (⟨buf, size, 0⟩, ap) with
  | (.ok n, (ctx, _)) => (.ok n, ctx.terminate)
  | (r, (ctx, _)) => (r, ctx.buf)

section Contract

/-- The conversions. -/
inductive Conversion where
  | s
  | c
  | d
  | i
  | u
  | x
  | p
deriving DecidableEq, Repr

/-- The conversion character. -/
def Conversion.char : Conversion → UInt8
  | .s => 115
  | .c => 99
  | .d => 100
  | .i => 105
  | .u => 117
  | .x => 120
  | .p => 112

/-- A piece of a format: a literal character, `%%`, or a conversion with or without `l`. -/
inductive FmtItem where
  | lit (c : UInt8) (nul : c ≠ 0) (percent : c ≠ 37)
  | percent
  | conv (long : Bool) (k : Conversion)

/-- What a piece looks like in the format. -/
def FmtItem.text : FmtItem → List UInt8
  | .lit c _ _ => [c]
  | .percent => [37, 37]
  | .conv long k => 37 :: ((if long then [108] else []) ++ [k.char])

/-- How a format ends: after a piece, or in the middle of a conversion. -/
inductive FmtTail where
  | complete
  | percent
  | long
deriving DecidableEq, Repr

/-- The end of the format. -/
def FmtTail.text : FmtTail → List UInt8
  | .complete => []
  | .percent => [37]
  | .long => [37, 108]

/-- The format with the given pieces and end. -/
def fmtText (items : List FmtItem) (tail : FmtTail) : List UInt8 :=
  items.flatMap FmtItem.text ++ tail.text

/-- The numeral of `n`. -/
def numeral (base n : Nat) : List UInt8 :=
  if n = 0 then [digitChar 0] else ((Nat.digits base n).map digitChar).reverse

/-- The decimal numeral of an integer. -/
def signedNumeral (v : Int) : List UInt8 := (if v < 0 then [45] else []) ++ numeral 10 v.natAbs

/-- What a conversion makes of its argument, if it has the right type. -/
def Conversion.output (long : Bool) : Conversion → VaArg → Option (List UInt8)
  | .s, arg => arg.asString.map fun s => s.getD nullText
  | .c, arg => arg.asInt.map fun v => [UInt8.ofNat v.toNat]
  | .d, arg => (arg.asSigned long).map signedNumeral
  | .i, arg => (arg.asSigned long).map signedNumeral
  | .u, arg => (arg.asUnsigned long).map (numeral 10)
  | .x, arg => (arg.asUnsigned long).map (numeral 16)
  | .p, arg => arg.asPointer.map fun v => [48, 120] ++ numeral 16 v

/-- The output of a format for arguments that match it. -/
def fmtOutput : List FmtItem → List VaArg → Option (List UInt8)
  | [], _ => some []
  | .lit c _ _ :: items, ap => (fmtOutput items ap).map ([c] ++ ·)
  | .percent :: items, ap => (fmtOutput items ap).map ([37] ++ ·)
  | .conv _ _ :: _, [] => none
  | .conv long k :: items, arg :: ap =>
      (k.output long arg).bind fun t => (fmtOutput items ap).map (t ++ ·)

/-- The call returned the length of `text`, having read the format no further than its NUL,
and stored what fits of it with a terminating NUL, and nothing else. -/
def Snprintf (buf : Nat → UInt8) (size : Nat) (fmt : List UInt8) (ap : List VaArg)
    (text : List UInt8) : Prop :=
  vsnprintf buf size fmt ap = (.ok (text.length : Int), fun i =>
    if i < min text.length (size - 1) then text.getD i 0
    else if 0 < size ∧ i = min text.length (size - 1) then 0 else buf i)

end Contract

variable {buf : Nat → UInt8} {size base room val : Nat} {text s t : List UInt8} {ap : List VaArg}
  {items : List FmtItem} {long : Bool} {k : Conversion} {arg : VaArg}

section Output

/-- The buffer after the output of `text`. -/
def bufAfter (buf : Nat → UInt8) (size : Nat) (text : List UInt8) : BufCtx :=
  ⟨overlay buf 0 (min text.length (size - 1)) fun i => text.getD i 0, size, text.length⟩

theorem bufAfter_nil : bufAfter buf size [] = ⟨buf, size, 0⟩ := by
  have hnone : overlay buf 0 0 (fun i => [].getD i 0) = buf :=
    funext fun i => overlay_of_not_mem (by omega)
  rw [bufAfter, List.length_nil, Nat.zero_min, hnone]

/-- `out_buf` appends to the output. -/
theorem outBuf_after (h : (text ++ s).length < 2147483648) :
    outBuf s (bufAfter buf size text) = ((s.length : Int), bufAfter buf size (text ++ s)) := by
  rw [List.length_append] at h
  have hcopy : (if s.length < (bufAfter buf size text).avail then s.length
      else (bufAfter buf size text).avail) = min s.length (size - 1 - text.length) := by
    have havail : (bufAfter buf size text).avail = size - 1 - text.length := by
      rw [show (bufAfter buf size text).avail =
        if 0 < size ∧ text.length < size then size - text.length - 1 else 0 from rfl]
      by_cases hroom : 0 < size ∧ text.length < size
      · rw [if_pos hroom]
        omega
      · rw [if_neg hroom]
        omega
    rw [havail]
    by_cases hfits : s.length < size - 1 - text.length
    · rw [if_pos hfits]
      omega
    · rw [if_neg hfits]
      omega
  rw [outBuf, cInt_of_lt (by omega), hcopy]
  simp only [bufAfter, u64_of_lt (show text.length + s.length < 18446744073709551616 by omega),
    List.length_append]
  congr 2
  funext i
  by_cases hlow : i < min text.length (size - 1)
  · rw [overlay_of_not_mem (by omega), overlay_of_mem (by omega), overlay_of_mem (by omega)]
    exact (List.getD_append _ _ _ _ (by omega)).symm
  by_cases hhigh : i < min (text.length + s.length) (size - 1)
  · rw [overlay_of_mem (by omega), overlay_of_mem (by omega), Nat.sub_zero]
    exact (List.getD_append_right _ _ _ _ (by omega)).symm
  · rw [overlay_of_not_mem (by omega), overlay_of_not_mem (by omega),
      overlay_of_not_mem (by omega)]

theorem emit_run (h : (text ++ s).length < 2147483648) :
    emit outBuf s (bufAfter buf size text, ap) =
      (.ok (s.length : Int), (bufAfter buf size (text ++ s), ap)) := by
  rw [emit, outBuf_after h]

end Output

section Numerals

/-- The digits are complete when there is room for them. -/
theorem printDigits_eq (hbase : 1 < base) (h : val < base ^ room) :
    printDigits base room val = (Nat.digits base val).map digitChar := by
  induction room generalizing val with
  | zero =>
      obtain rfl : val = 0 := by
        rw [Nat.pow_zero] at h
        omega
      rw [printDigits, Nat.digits_zero, List.map_nil]
  | succ room ih =>
      by_cases hzero : val = 0
      · rw [printDigits, if_pos hzero, hzero, Nat.digits_zero, List.map_nil]
      · have hdiv : val / base < base ^ room := by
          rw [Nat.pow_succ, Nat.mul_comm] at h
          exact Nat.div_lt_of_lt_mul h
        rw [printDigits, if_neg hzero, ih hdiv,
          Nat.digits_def' hbase (Nat.pos_of_ne_zero hzero), List.map_cons]

/-- `print_num` writes a numeral. -/
theorem printNum_run (hbase : base = 10 ∨ base = 16) (hval : val < 18446744073709551616)
    (neg : Bool) (h : (text ++ ((if neg then [45] else []) ++ numeral base val)).length
      < 2147483648) :
    printNum outBuf val base neg (bufAfter buf size text, ap) =
      (.ok (((if neg then [45] else []) ++ numeral base val).length : Int),
        (bufAfter buf size (text ++ ((if neg then [45] else []) ++ numeral base val)), ap)) := by
  have hdigits : (if val = 0 then [48] else printDigits base 32 val).reverse =
      numeral base val := by
    by_cases hzero : val = 0
    · rw [if_pos hzero, numeral, if_pos hzero]
      rfl
    · have hroom : val < base ^ 32 := by
        rcases hbase with rfl | rfl
        · omega
        · omega
      rw [if_neg hzero, numeral, if_neg hzero,
        printDigits_eq (by rcases hbase with rfl | rfl <;> decide) hroom]
  rw [printNum]
  simp only [hdigits]
  exact emit_run h

end Numerals

section Conversions

theorem vaArg_run {σ α : Type} {read : VaArg → Option α} {a : α} {ctx : σ}
    (h : read arg = some a) : vaArg read (ctx, arg :: ap) = (.ok a, (ctx, ap)) := by
  simp only [vaArg, h]

/-- Arguments have 64 bits at most. -/
theorem VaArg.asUnsigned_lt {v : Nat} (h : arg.asUnsigned long = some v) :
    v < 18446744073709551616 := by
  cases arg with
  | int w =>
      cases long with
      | true => cases h
      | false =>
          obtain rfl := Option.some.inj h
          have := w.isLt
          omega
  | long w =>
      cases long with
      | true =>
          obtain rfl := Option.some.inj h
          exact w.isLt
      | false => cases h
  | pointer _ => cases h
  | string _ => cases h

theorem VaArg.asPointer_lt {v : Nat} (h : arg.asPointer = some v) :
    v < 18446744073709551616 := by
  cases arg with
  | pointer w =>
      obtain rfl := Option.some.inj h
      exact w.isLt
  | int _ => cases h
  | long _ => cases h
  | string _ => cases h

theorem VaArg.asSigned_bounds {v : Int} (h : arg.asSigned long = some v) :
    -9223372036854775808 ≤ v ∧ v < 9223372036854775808 := by
  cases arg with
  | int w =>
      cases long with
      | true => cases h
      | false =>
          obtain rfl := Option.some.inj h
          have hlow := @BitVec.le_toInt 32 w
          have hhigh := @BitVec.toInt_lt 32 w
          omega
  | long w =>
      cases long with
      | true =>
          obtain rfl := Option.some.inj h
          have hlow := @BitVec.le_toInt 64 w
          have hhigh := @BitVec.toInt_lt 64 w
          omega
      | false => cases h
  | pointer _ => cases h
  | string _ => cases h

/-- `%d` and `%i`, also for the most negative value. -/
theorem printSigned_run {v : Int} (hv : -9223372036854775808 ≤ v ∧ v < 9223372036854775808)
    (h : (text ++ signedNumeral v).length < 2147483648) :
    printNum outBuf (if v < 0 then ((-v) % 18446744073709551616).toNat else v.toNat) 10 (v < 0)
        (bufAfter buf size text, ap) =
      (.ok ((signedNumeral v).length : Int), (bufAfter buf size (text ++ signedNumeral v), ap)) := by
  have habs : (if v < 0 then ((-v) % 18446744073709551616).toNat else v.toNat) = v.natAbs := by
    split <;> omega
  have hnumeral : signedNumeral v = (if decide (v < 0) = true then [45] else []) ++
      numeral 10 v.natAbs := by
    rw [signedNumeral]
    simp only [decide_eq_true_eq]
  rw [habs, hnumeral]
  rw [hnumeral] at h
  exact printNum_run (Or.inl rfl) (by omega) _ h

/-- One conversion with a matching argument. -/
theorem vformatConv_run (h : k.output long arg = some t) (hlen : (text ++ t).length < 2147483648) :
    vformatConv outBuf long k.char (bufAfter buf size text, arg :: ap) =
      (.ok (t.length : Int), (bufAfter buf size (text ++ t), ap)) := by
  have hshort : t.length < 2147483648 := by
    rw [List.length_append] at hlen
    omega
  cases k with
  | s =>
      obtain ⟨s, hs, rfl⟩ := Option.map_eq_some_iff.mp h
      rw [vformatConv, if_pos (by rfl), Prog.bind_ok (vaArg_run hs), Prog.bind_ok (emit_run hlen),
        cInt_of_lt hshort]
      rfl
  | c =>
      obtain ⟨v, hv, rfl⟩ := Option.map_eq_some_iff.mp h
      rw [vformatConv, if_neg (by decide), if_pos (by rfl), Prog.bind_ok (vaArg_run hv),
        Prog.bind_ok (emit_run hlen)]
      rfl
  | d =>
      obtain ⟨v, hv, rfl⟩ := Option.map_eq_some_iff.mp h
      rw [vformatConv, if_neg (by decide), if_neg (by decide), if_pos (by decide),
        Prog.bind_ok (vaArg_run hv)]
      exact printSigned_run (VaArg.asSigned_bounds hv) hlen
  | i =>
      obtain ⟨v, hv, rfl⟩ := Option.map_eq_some_iff.mp h
      rw [vformatConv, if_neg (by decide), if_neg (by decide), if_pos (by decide),
        Prog.bind_ok (vaArg_run hv)]
      exact printSigned_run (VaArg.asSigned_bounds hv) hlen
  | u =>
      obtain ⟨v, hv, rfl⟩ := Option.map_eq_some_iff.mp h
      rw [vformatConv, if_neg (by decide), if_neg (by decide), if_neg (by decide),
        if_pos (by rfl), Prog.bind_ok (vaArg_run hv)]
      exact printNum_run (Or.inl rfl) (VaArg.asUnsigned_lt hv) false hlen
  | x =>
      obtain ⟨v, hv, rfl⟩ := Option.map_eq_some_iff.mp h
      rw [vformatConv, if_neg (by decide), if_neg (by decide), if_neg (by decide),
        if_neg (by decide), if_pos (by rfl), Prog.bind_ok (vaArg_run hv)]
      exact printNum_run (Or.inr rfl) (VaArg.asUnsigned_lt hv) false hlen
  | p =>
      obtain ⟨v, hv, rfl⟩ := Option.map_eq_some_iff.mp h
      have hprefix : (text ++ [48, 120]).length < 2147483648 := by
        simp only [List.length_append] at hlen ⊢
        omega
      have hnum : printNum outBuf v 16 false (bufAfter buf size (text ++ [48, 120]), ap) =
          (.ok ((numeral 16 v).length : Int),
            (bufAfter buf size (text ++ [48, 120] ++ numeral 16 v), ap)) :=
        printNum_run (Or.inr rfl) (VaArg.asPointer_lt hv) false (by
          rw [List.append_assoc]
          exact hlen)
      rw [vformatConv, if_neg (by decide), if_neg (by decide), if_neg (by decide),
        if_neg (by decide), if_neg (by decide), if_pos (by rfl), Prog.bind_ok (vaArg_run hv),
        Prog.bind_ok (emit_run hprefix), Prog.bind_ok hnum, Prog.pure_apply, List.append_assoc]
      simp only [List.length_append, Nat.cast_add]
      rfl

/-- A conversion in the format. -/
theorem vformat_conv (total : Int) (p : List UInt8) (h : k.output long arg = some t)
    (hlen : (text ++ t).length < 2147483648) :
    vformat outBuf total (FmtItem.text (.conv long k) ++ p) (bufAfter buf size text, arg :: ap) =
      vformat outBuf (total + t.length) p (bufAfter buf size (text ++ t), ap) := by
  have hchar : k.char ≠ 108 := by cases k <;> decide
  have hrun := @vformatConv_run buf size text t ap long k arg h hlen
  cases long with
  | false =>
      rw [show FmtItem.text (.conv false k) ++ p = 37 :: k.char :: p from rfl,
        vformat_plain hchar]
      exact Prog.bind_ok hrun _
  | true =>
      rw [show FmtItem.text (.conv true k) ++ p = 37 :: 108 :: k.char :: p from rfl,
        vformat_long]
      exact Prog.bind_ok hrun _

/-- `%%` in the format. -/
theorem vformat_percent (total : Int) (p : List UInt8) (hlen : (text ++ [37]).length < 2147483648) :
    vformat outBuf total (FmtItem.text .percent ++ p) (bufAfter buf size text, ap) =
      vformat outBuf (total + 1) p (bufAfter buf size (text ++ [37]), ap) := by
  have hrun : vformatConv outBuf false 37 (bufAfter buf size text, ap) =
      (.ok 1, (bufAfter buf size (text ++ [37]), ap)) := by
    rw [vformatConv, if_neg (by decide), if_neg (by decide), if_neg (by decide),
      if_neg (by decide), if_neg (by decide), if_neg (by decide), if_pos (by rfl),
      Prog.bind_ok (emit_run hlen)]
    rfl
  rw [show FmtItem.text .percent ++ p = 37 :: 37 :: p from rfl, vformat_plain (by decide)]
  exact Prog.bind_ok hrun _

/-- The pieces of a format, one after the other. -/
theorem vformat_items {ap : List VaArg} (h : fmtOutput items ap = some t) (rest : List UInt8)
    (hlen : (text ++ t).length < 2147483648) :
    ∃ ap', ∀ total, vformat outBuf total (items.flatMap FmtItem.text ++ rest)
        (bufAfter buf size text, ap) =
      vformat outBuf (total + t.length) rest (bufAfter buf size (text ++ t), ap') := by
  induction items generalizing text t ap with
  | nil =>
      obtain rfl := Option.some.inj h
      refine ⟨ap, fun total => ?_⟩
      rw [List.append_nil, List.length_nil, Nat.cast_zero, Int.add_zero]
      rfl
  | cons item items ih =>
      have hcons : (item :: items).flatMap FmtItem.text ++ rest =
          item.text ++ (items.flatMap FmtItem.text ++ rest) := by
        rw [List.flatMap_cons, List.append_assoc]
      rw [hcons]
      generalize hp : items.flatMap FmtItem.text ++ rest = p at ih
      -- what a piece has written is a part of the output
      have hpart : ∀ {s t' : List UInt8}, s ++ t' = t → (text ++ s).length < 2147483648 := by
        rintro s t' rfl
        simp only [List.length_append] at hlen ⊢
        omega
      have hnext : ∀ {s t' : List UInt8} {ap : List VaArg}, s ++ t' = t →
          fmtOutput items ap = some t' →
          ∃ ap', ∀ total : Int, vformat outBuf (total + s.length) p (bufAfter buf size (text ++ s), ap) =
            vformat outBuf (total + t.length) rest (bufAfter buf size (text ++ t), ap') := by
        rintro s t' ap rfl ht'
        obtain ⟨ap', hap'⟩ := ih ht' (by rwa [List.append_assoc])
        refine ⟨ap', fun total => ?_⟩
        rw [hap', List.append_assoc, List.length_append, Nat.cast_add, Int.add_assoc]
      cases item with
      | lit c nul percent =>
          obtain ⟨t', ht', hsum⟩ := Option.map_eq_some_iff.mp h
          obtain ⟨ap', hap'⟩ := hnext hsum ht'
          refine ⟨ap', fun total => ?_⟩
          rw [← hap']
          rw [show FmtItem.text (.lit c nul percent) ++ p = c :: p from rfl,
            vformat_literal percent, Prog.bind_ok (emit_run (hpart hsum))]
          rfl
      | percent =>
          obtain ⟨t', ht', hsum⟩ := Option.map_eq_some_iff.mp h
          obtain ⟨ap', hap'⟩ := hnext hsum ht'
          refine ⟨ap', fun total => ?_⟩
          rw [← hap', vformat_percent total p (hpart hsum)]
          rfl
      | conv long k =>
          cases ap with
          | nil => cases h
          | cons arg ap =>
              obtain ⟨s, hs, hrest⟩ := Option.bind_eq_some_iff.mp h
              obtain ⟨t', ht', hsum⟩ := Option.map_eq_some_iff.mp hrest
              obtain ⟨ap', hap'⟩ := hnext hsum ht'
              refine ⟨ap', fun total => ?_⟩
              rw [← hap', vformat_conv total p hs (hpart hsum)]

end Conversions

section Claim

/-- A format that ends in the middle of a conversion is read behind its NUL. -/
theorem vformat_tail (tail : FmtTail) (htail : tail ≠ .complete) (total : Int)
    (st : BufCtx × List VaArg) : (vformat outBuf total tail.text st).1 = .fault := by
  have hdefault : ∀ long, ∃ st', vformatConv outBuf long 0 st = (.ok 2, st') := by
    intro long
    rw [vformatConv, if_neg (by decide), if_neg (by decide), if_neg (by decide),
      if_neg (by decide), if_neg (by decide), if_neg (by decide), if_neg (by decide)]
    exact ⟨_, rfl⟩
  cases tail with
  | complete => exact absurd rfl htail
  | percent =>
      obtain ⟨st', hst'⟩ := hdefault false
      rw [FmtTail.text, vformat.eq_def]
      exact congrArg Prod.fst (Prog.bind_ok hst' _)
  | long =>
      obtain ⟨st', hst'⟩ := hdefault true
      rw [FmtTail.text, vformat.eq_def]
      exact congrArg Prod.fst (Prog.bind_ok hst' _)

/-- The NUL behind what fits of the output. -/
theorem bufAfter_terminate : (bufAfter buf size text).terminate = fun i =>
    if i < min text.length (size - 1) then text.getD i 0
    else if 0 < size ∧ i = min text.length (size - 1) then 0 else buf i := by
  have hdef : (bufAfter buf size text).terminate =
      if 0 < size then overlay (bufAfter buf size text).buf
        (if text.length < size then text.length else size - 1) 1 fun _ => 0
      else (bufAfter buf size text).buf := rfl
  have hbuf : (bufAfter buf size text).buf =
      overlay buf 0 (min text.length (size - 1)) fun i => text.getD i 0 := rfl
  funext i
  rw [hdef, hbuf]
  by_cases hsize : 0 < size
  · have hterm : (if text.length < size then text.length else size - 1) =
        min text.length (size - 1) := by
      by_cases hlt : text.length < size
      · rw [if_pos hlt]
        omega
      · rw [if_neg hlt]
        omega
    rw [if_pos hsize, hterm]
    by_cases hlow : i < min text.length (size - 1)
    · rw [if_pos hlow, overlay_of_not_mem (by omega), overlay_of_mem (by omega), Nat.sub_zero]
    rw [if_neg hlow]
    by_cases hend : i = min text.length (size - 1)
    · rw [if_pos ⟨hsize, hend⟩, overlay_of_mem (by omega)]
    · rw [if_neg fun h => hend h.2, overlay_of_not_mem (by omega), overlay_of_not_mem (by omega)]
  · rw [if_neg hsize, if_neg (by omega), if_neg fun h => hsize h.1,
      overlay_of_not_mem (by omega)]

/-- `vsnprintf` honours its contract exactly for the formats that do not end in the
middle of a conversion. -/
theorem vsnprintf_honours_iff (buf : Nat → UInt8) (size : Nat) (items : List FmtItem)
    (tail : FmtTail) (ap : List VaArg) (text : List UInt8) (h : fmtOutput items ap = some text)
    (hlen : text.length < 2147483648) :
    Snprintf buf size (fmtText items tail) ap text ↔ tail = .complete := by
  obtain ⟨ap', hap'⟩ := @vformat_items buf size [] text items ap h tail.text hlen
  have hrun : vformat outBuf 0 (fmtText items tail) (⟨buf, size, 0⟩, ap) =
      vformat outBuf text.length tail.text (bufAfter buf size text, ap') := by
    rw [← bufAfter_nil, fmtText, hap', Int.zero_add]
    rfl
  constructor
  · intro hhonours
    by_contra htail
    have hfault := vformat_tail tail htail text.length (bufAfter buf size text, ap')
    rw [Snprintf, vsnprintf, hrun] at hhonours
    generalize vformat outBuf text.length tail.text (bufAfter buf size text, ap') = ended
      at hfault hhonours
    obtain ⟨r, ctx, rest⟩ := ended
    obtain rfl : r = .fault := hfault
    cases congrArg Prod.fst hhonours
  · rintro rfl
    rw [Snprintf, ← bufAfter_terminate, vsnprintf, hrun]
    rfl

/-- The most negative `long` into a buffer of four bytes. -/
theorem vsnprintf_honours_min :
    Snprintf (fun _ => 1) 4 [60, 37, 108, 100] [.long (BitVec.ofNat 64 9223372036854775808)]
      [60, 45, 57, 50, 50, 51, 51, 55, 50, 48, 51, 54, 56, 53, 52, 55, 55, 53, 56, 48, 56] :=
  (vsnprintf_honours_iff (fun _ => 1) 4 [.lit 60 (by decide) (by decide), .conv true .d] .complete
    [.long (BitVec.ofNat 64 9223372036854775808)] _ (by decide +kernel) (by decide)).mpr rfl

/-- The format `%` is read behind its NUL. -/
theorem vsnprintf_reads_on :
    (vsnprintf (fun _ => 1) 16 (fmtText [] .percent) []).1 = .fault ∧
      fmtOutput [] [] = some [] ∧ ¬ Snprintf (fun _ => 1) 16 (fmtText [] .percent) [] [] := by
  have hfault : (vsnprintf (fun _ => 1) 16 (fmtText [] .percent) []).1 = .fault := by decide
  refine ⟨hfault, rfl, fun h => ?_⟩
  rw [h] at hfault
  cases hfault

end Claim

end OsAgentLab
