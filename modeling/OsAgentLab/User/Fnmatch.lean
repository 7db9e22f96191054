/-
`fnmatch`: the matcher with its backtracking, and the language that a pattern stands for.
-/
import Mathlib.Computability.Language
import OsAgentLab.CString

namespace OsAgentLab

namespace Fnmatch

/-- `'*'` and `'?'`. -/
def star : UInt8 := 42
def query : UInt8 := 63

section Code

variable (pattern string : CStr)

/-- `while (*pattern == '*') pattern++`. -/
def skipStars : Nat → Nat → Option Nat := pattern.skipWhile fun c => c = star

/-- `for (; *str; str++) if (match_here(pattern, str)) return 1; return 0`. -/
def tryAll (matchRest : Nat → Option Bool) : Nat → Nat → Option Bool
  | 0, _ => none
  | fuel + 1, s =>
      (string.read s).bind fun d =>
        if d = 0 then some false
        else (matchRest s).bind fun found => if found then some true else tryAll matchRest fuel (s + 1)

/-- `match_here`, with at most `fuel` passes of each loop; a read behind the NUL has no
result. -/
def matchHere : Nat → Nat → Nat → Option Bool
  | 0, _, _ => none
  | fuel + 1, p, s =>
      (pattern.read p).bind fun c =>
        if c = 0 then (string.read s).map fun d => d = 0
        else if c = star then
          (skipStars pattern fuel p).bind fun p =>
            (pattern.read p).bind fun c =>
              if c = 0 then some true else tryAll string (matchHere fuel p) fuel s
        else if c = query then
          (string.read s).bind fun d => if d = 0 then some false else matchHere fuel (p + 1) (s + 1)
        else
          (string.read s).bind fun d => if c ≠ d then some false else matchHere fuel (p + 1) (s + 1)

end Code

/-- `FNM_NOMATCH`. -/
def noMatch : Nat := 1

/-- `fnmatch`; `none` is a null pointer. -/
def fnmatch (fuel : Nat) : Option CStr → Option CStr → Option Nat
  | some pattern, some string =>
      (matchHere pattern string fuel 0 0).map fun found => if found then 0 else noMatch
  | _, _ => some noMatch

section Meaning

/-- The texts of one character. -/
def anyChar : Language UInt8 := { text | ∃ d, text = [d] }

/-- The texts that one character of a pattern stands for. -/
def charLanguage (c : UInt8) : Language UInt8 :=
  if c = star then ⊤ else if c = query then anyChar else {[c]}

/-- The language of a pattern. -/
def patternLanguage (pattern : List UInt8) : Language UInt8 := (pattern.map charLanguage).prod

variable {c : UInt8} {pattern text : List UInt8}

theorem mem_nil : text ∈ patternLanguage [] ↔ text = [] := by
  rw [patternLanguage, List.map_nil, List.prod_nil, Language.mem_one]

theorem mem_cons : text ∈ patternLanguage (c :: pattern) ↔
    ∃ a, a ∈ charLanguage c ∧ ∃ b, b ∈ patternLanguage pattern ∧ a ++ b = text := by
  rw [patternLanguage, List.map_cons, List.prod_cons, Language.mem_mul]
  rfl

theorem mem_star : text ∈ patternLanguage (star :: pattern) ↔
    ∃ rest, rest <:+ text ∧ rest ∈ patternLanguage pattern := by
  rw [mem_cons, charLanguage, if_pos rfl]
  constructor
  · rintro ⟨a, -, b, hb, rfl⟩
    exact ⟨b, List.suffix_append a b, hb⟩
  · rintro ⟨rest, ⟨a, rfl⟩, hrest⟩
    exact ⟨a, trivial, rest, hrest, rfl⟩

/-- A character that is no star stands for one character. -/
def Accepts (c d : UInt8) : Prop := c = query ∨ c = d

theorem mem_one (hc : c ≠ star) : text ∈ patternLanguage (c :: pattern) ↔
    ∃ d rest, text = d :: rest ∧ Accepts c d ∧ rest ∈ patternLanguage pattern := by
  rw [mem_cons, charLanguage, if_neg hc]
  by_cases hquery : c = query
  · rw [if_pos hquery]
    constructor
    · rintro ⟨a, ⟨d, rfl⟩, b, hb, rfl⟩
      exact ⟨d, b, rfl, Or.inl hquery, hb⟩
    · rintro ⟨d, rest, rfl, -, hrest⟩
      exact ⟨[d], ⟨d, rfl⟩, rest, hrest, rfl⟩
  · rw [if_neg hquery]
    constructor
    · rintro ⟨a, rfl, b, hb, rfl⟩
      exact ⟨c, b, rfl, Or.inr rfl, hb⟩
    · rintro ⟨d, rest, rfl, haccepts, hrest⟩
      obtain rfl := haccepts.resolve_left hquery
      exact ⟨[c], rfl, rest, hrest, rfl⟩

/-- A run of stars says no more than one. -/
theorem mem_stars : text ∈ patternLanguage (star :: star :: pattern) ↔
    text ∈ patternLanguage (star :: pattern) := by
  rw [mem_star]
  constructor
  · rintro ⟨rest, hsuffix, hrest⟩
    obtain ⟨tail, htail, hmem⟩ := mem_star.1 hrest
    exact mem_star.2 ⟨tail, htail.trans hsuffix, hmem⟩
  · intro htext
    exact ⟨text, List.suffix_refl text, htext⟩

/-- The pattern behind its leading stars. -/
def dropStars (pattern : List UInt8) : List UInt8 := pattern.dropWhile fun c => c = star

theorem dropStars_star : dropStars (star :: pattern) = dropStars pattern :=
  List.dropWhile_cons_of_pos (decide_eq_true rfl)

theorem dropStars_other (hc : c ≠ star) : dropStars (c :: pattern) = c :: pattern :=
  List.dropWhile_cons_of_neg (by simpa using hc)

theorem dropStars_length : (dropStars pattern).length ≤ pattern.length :=
  (List.dropWhile_suffix _).length_le

theorem mem_dropStars : text ∈ patternLanguage (star :: pattern) ↔
    ∃ rest, rest <:+ text ∧ rest ∈ patternLanguage (dropStars pattern) := by
  induction pattern with
  | nil => exact mem_star
  | cons c pattern ih =>
      by_cases hc : c = star
      · rw [hc, mem_stars, dropStars_star]
        exact ih
      · rw [dropStars_other hc]
        exact mem_star

theorem dropStars_head {rest : List UInt8} (h : dropStars pattern = c :: rest) : c ≠ star := by
  induction pattern with
  | nil => contradiction
  | cons d pattern ih =>
      by_cases hd : d = star
      · rw [hd, dropStars_star] at h
        exact ih h
      · rw [dropStars_other hd] at h
        exact (List.cons.inj h).1 ▸ hd

/-- A pattern that starts with no star has no match in the empty text. -/
theorem not_mem_nil (hc : c ≠ star) : [] ∉ patternLanguage (c :: pattern) := by
  rw [mem_one hc]
  rintro ⟨d, rest, hnil, -⟩
  contradiction

end Meaning

section Loops

variable {pattern string : CStr}

theorem skipStars_spec {P : List UInt8} {p : Nat} (h : pattern.At p P) (fuel : Nat)
    (hfuel : P.length < fuel) :
    ∃ p', skipStars pattern fuel p = some p' ∧ pattern.At p' (dropStars P) :=
  ⟨_, h.skipWhile (decide_eq_false (by decide)) fuel hfuel⟩

/-- The loop finds the first suffix on which the rest of the pattern matches. -/
theorem tryAll_spec {matchRest : Nat → Option Bool} {good : List UInt8 → Prop}
    {S : List UInt8} {s : Nat} (h : string.At s S)
    (hrest : ∀ i rest, rest <:+ S → string.At i rest →
      ∃ found, matchRest i = some found ∧ (found = true ↔ good rest))
    (hnil : ¬good []) :
    ∀ fuel, S.length < fuel →
      ∃ found, tryAll string matchRest fuel s = some found ∧
        (found = true ↔ ∃ rest, rest <:+ S ∧ good rest) := by
  induction S generalizing s with
  | nil =>
      rintro (_ | fuel) hfuel
      · contradiction
      · refine ⟨false, ?_, ?_⟩
        · rw [tryAll, h.read_nil, Option.bind_some, if_pos rfl]
        · constructor
          · intro htrue
            contradiction
          · rintro ⟨rest, hsuffix, hgood⟩
            rw [List.suffix_nil.1 hsuffix] at hgood
            contradiction
  | cons d S ih =>
      rintro (_ | fuel) hfuel
      · contradiction
      · obtain ⟨found, hfound, hiff⟩ := hrest s (d :: S) (List.suffix_refl _) h
        rw [tryAll, h.read_cons, Option.bind_some, if_neg h.ne_nul, hfound, Option.bind_some]
        cases found with
        | true => exact ⟨true, rfl, fun _ => ⟨_, List.suffix_refl _, hiff.1 rfl⟩, fun _ => rfl⟩
        | false =>
            have htail : ∀ i rest, rest <:+ S → string.At i rest →
                ∃ found, matchRest i = some found ∧ (found = true ↔ good rest) :=
              fun i rest hsuffix => hrest i rest (hsuffix.trans (List.suffix_cons d S))
            obtain ⟨later, hlater, hlaterIff⟩ :=
              ih h.next htail fuel (Nat.lt_of_succ_lt_succ hfuel)
            refine ⟨later, hlater, hlaterIff.trans ?_⟩
            constructor
            · rintro ⟨rest, hsuffix, hgood⟩
              exact ⟨rest, hsuffix.trans (List.suffix_cons d S), hgood⟩
            · rintro ⟨rest, hsuffix, hgood⟩
              rcases List.suffix_cons_iff.1 hsuffix with rfl | hsuffix
              · exact absurd (hiff.2 hgood) Bool.false_ne_true
              · exact ⟨rest, hsuffix, hgood⟩

/-- One character of the pattern against one of the text. -/
theorem matchHere_one {fuel p s : Nat} {c : UInt8} {P S : List UInt8} (hp : pattern.At p (c :: P))
    (hs : string.At s S) (hstar : c ≠ star) :
    matchHere pattern string (fuel + 1) p s = some false ∧ (∀ d rest, S = d :: rest → ¬Accepts c d) ∨
      ∃ d rest, S = d :: rest ∧ Accepts c d ∧
        matchHere pattern string (fuel + 1) p s = matchHere pattern string fuel (p + 1) (s + 1) := by
  rw [matchHere, hp.read_cons, Option.bind_some, if_neg hp.ne_nul, if_neg hstar]
  cases S with
  | nil =>
      left
      refine ⟨?_, fun d rest hnil => by contradiction⟩
      rw [hs.read_nil, Option.bind_some, Option.bind_some, if_pos rfl, if_pos hp.ne_nul, ite_self]
  | cons d S =>
      rw [hs.read_cons, Option.bind_some, Option.bind_some, if_neg hs.ne_nul]
      by_cases hquery : c = query
      · exact Or.inr ⟨d, S, rfl, Or.inl hquery, if_pos hquery⟩
      · rw [if_neg hquery]
        by_cases hd : c = d
        · exact Or.inr ⟨d, S, rfl, Or.inr hd, if_neg (not_not_intro hd)⟩
        · left
          refine ⟨if_pos hd, ?_⟩
          rintro _ _ hcons (haccepts | rfl)
          · exact hquery haccepts
          · exact hd (List.cons.inj hcons).1.symm

/-- `match_here` decides whether the rest of the text is in the language of the rest of the
pattern. -/
theorem matchHere_spec : ∀ (fuel p s : Nat) (P S : List UInt8), pattern.At p P → string.At s S →
    P.length + S.length + 1 < fuel →
    ∃ found, matchHere pattern string fuel p s = some found ∧
      (found = true ↔ S ∈ patternLanguage P) := by
  intro fuel
  induction fuel with
  | zero => intro p s P S _ _ hfuel; contradiction
  | succ fuel ih =>
      intro p s P S hp hs hfuel
      cases P with
      | nil =>
          rw [matchHere, hp.read_nil, Option.bind_some, if_pos rfl]
          cases S with
          | nil =>
              rw [hs.read_nil]
              exact ⟨true, rfl, fun _ => mem_nil.2 rfl, fun _ => rfl⟩
          | cons d S =>
              rw [hs.read_cons]
              refine ⟨decide (d = 0), rfl, ?_⟩
              rw [mem_nil, decide_eq_true_iff]
              exact ⟨fun hd => absurd hd hs.ne_nul, fun hnil => by contradiction⟩
      | cons c P =>
          rw [List.length_cons] at hfuel
          by_cases hstar : c = star
          · subst hstar
            have hstars : (star :: P).length < fuel := by rw [List.length_cons]; omega
            obtain ⟨p', hskip, hp'⟩ := skipStars_spec hp fuel hstars
            rw [dropStars_star] at hp'
            rw [matchHere, hp.read_cons, Option.bind_some, if_neg hp.ne_nul, if_pos rfl, hskip,
              Option.bind_some, mem_dropStars]
            have hdrop : (dropStars P).length ≤ P.length := dropStars_length
            generalize hrest : dropStars P = rest at hp' hdrop
            cases rest with
            | nil =>
                rw [hp'.read_nil, Option.bind_some, if_pos rfl]
                exact ⟨true, rfl, fun _ => ⟨[], List.nil_suffix, mem_nil.2 rfl⟩, fun _ => rfl⟩
            | cons c' P' =>
                rw [hp'.read_cons, Option.bind_some, if_neg hp'.ne_nul]
                -- what is left of the pattern starts with no star, so that the empty text,
                -- which the loop does not try, is no match
                have hc' : c' ≠ star := dropStars_head hrest
                have hmatch : ∀ i text, text <:+ S → string.At i text →
                    ∃ found, matchHere pattern string fuel p' i = some found ∧
                      (found = true ↔ text ∈ patternLanguage (c' :: P')) := by
                  intro i text hsuffix hi
                  have hlength : text.length ≤ S.length := hsuffix.length_le
                  exact ih p' i (c' :: P') text hp' hi (by omega)
                exact tryAll_spec hs hmatch (not_mem_nil hc') fuel (by omega)
          · rw [mem_one hstar]
            rcases matchHere_one hp hs hstar with ⟨hfalse, hnone⟩ | ⟨d, rest, rfl, haccepts, hnext⟩
            · refine ⟨false, hfalse, fun htrue => by contradiction, ?_⟩
              rintro ⟨d, rest, hS, haccepts, -⟩
              exact absurd haccepts (hnone d rest hS)
            · rw [List.length_cons] at hfuel
              obtain ⟨found, hfound, hiff⟩ := ih (p + 1) (s + 1) P rest hp.next hs.next (by omega)
              refine ⟨found, hnext.trans hfound, hiff.trans ?_⟩
              constructor
              · intro hmem
                exact ⟨d, rest, rfl, haccepts, hmem⟩
              · rintro ⟨d', rest', hcons, -, hmem⟩
                rw [(List.cons.inj hcons).2]
                exact hmem

end Loops

/-- `fnmatch` returns 0 exactly on the texts of the pattern's language; it terminates and
reads neither string behind its NUL. -/
theorem fnmatch_language (pattern string : CStr) :
    ∃ passes, ∀ fuel, passes ≤ fuel →
      ∃ result, fnmatch fuel (some pattern) (some string) = some result ∧
        (result = 0 ↔ string.chars ∈ patternLanguage pattern.chars) := by
  refine ⟨pattern.chars.length + string.chars.length + 2, fun fuel hfuel => ?_⟩
  obtain ⟨found, hfound, hiff⟩ :=
    matchHere_spec fuel 0 0 _ _ pattern.at_start string.at_start (by omega)
  rw [fnmatch, hfound, Option.map_some, ← hiff]
  cases found with
  | true => exact ⟨0, rfl, fun _ => rfl, fun _ => rfl⟩
  | false =>
      refine ⟨noMatch, rfl, fun hzero => ?_, fun htrue => by contradiction⟩
      exact absurd hzero (by decide)

end Fnmatch

end OsAgentLab
