/-
Short names: what `fat32_make_short_name` chooses, what it reads from the
directory for that, and which names come back from the 8.3 field alone.
-/
import OsAgentLab.Fat32.LongName
import OsAgentLab.Fat32.DirSpec
import Mathlib.Data.List.TakeDrop

namespace OsAgentLab

section Characters

theorem shortChar_range {ch : UInt8} (h : fat32IsShortChar ch = true) :
    ch ≠ 0 ∧ ch ≠ 32 ∧ ch ≠ 46 ∧ ch ≠ 0xE5 := by
  revert h
  exact forall_byte (p := fun ch => fat32IsShortChar ch = true →
    ch ≠ 0 ∧ ch ≠ 32 ∧ ch ≠ 46 ∧ ch ≠ 0xE5) (by decide +kernel) ch

theorem tailDigits_short : ∀ n, n < 100 → ∀ ch ∈ tailDigits n, fat32IsShortChar ch = true := by
  decide +kernel

theorem tailDigits_length_le : ∀ n, n < 100 → (tailDigits n).length ≤ 2 := by
  decide +kernel

/-- The names that `fat32_validate_name` accepts. -/
def NameOk (name : CName) : Prop := fat32ValidateName name = .ok ()

instance (name : CName) : Decidable (NameOk name) :=
  inferInstanceAs (Decidable (fat32ValidateName name = .ok ()))

theorem fat32ValidateLoop_ok {len : Nat} {name : CName}
    (h : fat32ValidateLoop len name = .ok ()) :
    (name ≠ [] → len + name.length ≤ 255) ∧ ∀ ch ∈ name, fat32IsInvalidChar ch = false := by
  induction name generalizing len with
  | nil => exact ⟨fun h => absurd rfl h, by simp⟩
  | cons ch rest ih =>
      rw [fat32ValidateLoop] at h
      by_cases hlen : 255 ≤ len
      · rw [if_pos hlen] at h
        cases h
      by_cases hch : fat32IsInvalidChar ch = true
      · rw [if_neg hlen, if_pos hch] at h
        cases h
      rw [if_neg hlen, if_neg hch] at h
      obtain ⟨hle, hall⟩ := ih h
      constructor
      · intro _
        by_cases hrest : rest = []
        · subst hrest
          simp only [List.length_singleton]
          omega
        · have := hle hrest
          simp only [List.length_cons]
          omega
      · intro c hc
        rcases List.mem_cons.mp hc with rfl | hc
        · simpa using hch
        · exact hall c hc

theorem invalidChar_zero : fat32IsInvalidChar 0 = true := by decide

theorem NameOk.unfold {name : CName} (h : NameOk name) :
    name ≠ [] ∧ isDotName name = false ∧ name.length ≤ 255 ∧
      ∀ ch ∈ name, fat32IsInvalidChar ch = false := by
  rw [NameOk, fat32ValidateName] at h
  by_cases hnil : name = []
  · rw [if_pos hnil] at h
    cases h
  by_cases hdot : isDotName name = true
  · rw [if_neg hnil, if_pos hdot] at h
    cases h
  rw [if_neg hnil, if_neg hdot] at h
  obtain ⟨hle, hall⟩ := fat32ValidateLoop_ok h
  refine ⟨hnil, by simpa using hdot, ?_, hall⟩
  have := hle hnil
  omega

theorem NameOk.longName {name : CName} (h : NameOk name) : LongNameOk name := by
  obtain ⟨hnil, _, hlen, hall⟩ := h.unfold
  refine ⟨hnil, hlen, fun ch hch hz => ?_⟩
  have := hall ch hch
  rw [hz, invalidChar_zero] at this
  cases this

end Characters

section Parts

/-- One pass of a copying loop in three outcomes. -/
theorem shortPartStep_cases (limit : Nat) (part : ShortPart) (ch : UInt8) :
    (limit ≤ part.out.length ∧ (shortPartStep limit part ch).out = part.out ∧
        (shortPartStep limit part ch).needsLfn = true) ∨
      ∃ kept, part.out.length < limit ∧ fat32IsShortChar kept = true ∧
        (shortPartStep limit part ch).out = part.out ++ [kept] ∧
        ((shortPartStep limit part ch).needsLfn = false →
          part.needsLfn = false ∧ kept = ch) := by
  simp only [shortPartStep]
  by_cases hlen : part.out.length < limit
  · right
    rw [if_pos hlen]
    by_cases hlower : (97 ≤ ch && ch ≤ 122) = true
    · by_cases hbad : fat32IsShortChar (ch - 97 + 65) = true
      · exact ⟨ch - 97 + 65, hlen, hbad, by simp [hlower, hbad], by simp [hlower]⟩
      · exact ⟨95, hlen, by decide, by simp [hlower, hbad], by simp [hlower]⟩
    · by_cases hbad : fat32IsShortChar ch = true
      · refine ⟨ch, hlen, hbad, by simp [hlower, hbad], ?_⟩
        intro h
        simpa [hlower, hbad] using h
      · exact ⟨95, hlen, by decide, by simp [hlower, hbad], by simp [hlower, hbad]⟩
  · left
    rw [if_neg hlen]
    exact ⟨Nat.le_of_not_lt hlen, rfl, rfl⟩

/-- A copying loop adds short-name characters up to its limit; if it does not
ask for a long name, it has copied its source as it is. -/
theorem shortPart_foldl (limit : Nat) (src : List UInt8) (part : ShortPart) :
    let done := src.foldl (shortPartStep limit) part
    (∃ more, done.out = part.out ++ more ∧ (∀ ch ∈ more, fat32IsShortChar ch = true) ∧
        (part.out.length ≤ limit → done.out.length ≤ limit) ∧
        (src ≠ [] → part.out.length < limit → more ≠ [])) ∧
      (done.needsLfn = false → part.needsLfn = false ∧ done.out = part.out ++ src ∧
        ∀ ch ∈ src, fat32IsShortChar ch = true) := by
  induction src generalizing part with
  | nil =>
      exact ⟨⟨[], by simp, by simp, fun h => h, fun h => absurd rfl h⟩, fun h => ⟨h, by simp, by simp⟩⟩
  | cons ch rest ih =>
      simp only [List.foldl_cons]
      obtain ⟨⟨more, hout, hshort, hle, _⟩, hplain⟩ := ih (shortPartStep limit part ch)
      rcases shortPartStep_cases limit part ch with ⟨hfull, hsame, hlong⟩ |
        ⟨kept, hlen, hkept, hadd, hcopy⟩
      · refine ⟨⟨more, by rw [hout, hsame], hshort, ?_, ?_⟩, ?_⟩
        · intro h
          exact hle (by rw [hsame]; exact h)
        · intro _ h
          omega
        · intro h
          have := (hplain h).1
          rw [hlong] at this
          cases this
      · refine ⟨⟨kept :: more, by rw [hout, hadd]; simp, ?_, ?_, by simp⟩, ?_⟩
        · intro c hc
          rcases List.mem_cons.mp hc with rfl | hc
          · exact hkept
          · exact hshort c hc
        · intro _
          apply hle
          rw [hadd, List.length_append, List.length_singleton]
          omega
        · intro h
          obtain ⟨hmid, hdone, hrest⟩ := hplain h
          obtain ⟨hneeds, heq⟩ := hcopy hmid
          subst heq
          refine ⟨hneeds, by rw [hdone, hadd]; simp, ?_⟩
          intro c hc
          rcases List.mem_cons.mp hc with rfl | hc
          · exact hkept
          · exact hrest c hc

/-- The base and the extension that `fat32_make_short_name` starts from. -/
theorem fat32ShortParts_spec (name : CName) :
    let parts := fat32ShortParts name
    parts.base ≠ [] ∧ parts.base.length ≤ 8 ∧ parts.ext.length ≤ 3 ∧
      (∀ ch ∈ parts.base, fat32IsShortChar ch = true) ∧
      (∀ ch ∈ parts.ext, fat32IsShortChar ch = true) ∧
      (parts.needsLfn = false →
        parts.base = ((fat32LastDot name).getD (name, [])).1 ∧
        parts.ext = ((fat32LastDot name).getD (name, [])).2) := by
  simp only [fat32ShortParts]
  generalize (fat32LastDot name).getD (name, []) = src
  obtain ⟨baseSrc, extSrc⟩ := src
  simp only
  generalize hstart : (if baseSrc = [] then ⟨[95], true, true⟩ else ⟨[], false, true⟩ :
    ShortPart) = start
  have hout : start.out.length ≤ 8 ∧ (∀ ch ∈ start.out, fat32IsShortChar ch = true) ∧
      (baseSrc = [] → start.out ≠ [] ∧ start.needsLfn = true) ∧
      (baseSrc ≠ [] → start.out = []) := by
    rw [← hstart]
    split
    · rename_i h
      exact ⟨by simp, by simp; decide, fun _ => ⟨by simp, rfl⟩, fun hne => absurd h hne⟩
    · rename_i h
      exact ⟨by simp, by simp, fun heq => absurd heq h, fun _ => rfl⟩
  obtain ⟨hlen0, hshort0, hnil0, hcons0⟩ := hout
  obtain ⟨⟨more, hbase, hmore, hle, hne⟩, hplain⟩ := shortPart_foldl 8 baseSrc start
  generalize baseSrc.foldl (shortPartStep 8) start = base at hbase hle hplain
  obtain ⟨⟨more', hext, hmore', hle', _⟩, hplain'⟩ :=
    shortPart_foldl 3 extSrc ⟨[], base.needsLfn, base.simple⟩
  generalize extSrc.foldl (shortPartStep 3) ⟨[], base.needsLfn, base.simple⟩ = ext
    at hext hle' hplain'
  refine ⟨?_, hle hlen0, hle' (by simp), ?_, ?_, ?_⟩
  · rw [hbase]
    by_cases hsrc : baseSrc = []
    · simp [(hnil0 hsrc).1]
    · have := hcons0 hsrc
      simp [hne hsrc (by rw [this]; decide)]
  · intro ch hch
    rw [hbase] at hch
    rcases List.mem_append.mp hch with hch | hch
    · exact hshort0 ch hch
    · exact hmore ch hch
  · intro ch hch
    rw [hext] at hch
    exact hmore' ch (by simpa using hch)
  · intro h
    simp only [Bool.or_eq_false_iff] at h
    obtain ⟨hbaseFlag, hextOut, _⟩ := hplain' h.1
    obtain ⟨hstartFlag, hbaseOut, _⟩ := hplain hbaseFlag
    have hsrc : baseSrc ≠ [] := by
      intro hsrc
      have := (hnil0 hsrc).2
      rw [hstartFlag] at this
      cases this
    refine ⟨?_, by simpa using hextOut⟩
    rw [hbaseOut, hcons0 hsrc, List.nil_append]

theorem fat32LastDot_none {name : CName} (h : fat32LastDot name = none) : 46 ∉ name := by
  rw [fat32LastDot, List.span_eq_takeWhile_dropWhile] at h
  split at h
  · rename_i heq
    have hdrop := (Prod.mk.inj heq).2
    intro hmem
    have := List.dropWhile_eq_nil_iff.mp hdrop 46 (List.mem_reverse.mpr hmem)
    simp at this
  · cases h

theorem fat32LastDot_some {name base ext : CName} (h : fat32LastDot name = some (base, ext)) :
    name = base ++ 46 :: ext ∧ 46 ∉ ext := by
  rw [fat32LastDot, List.span_eq_takeWhile_dropWhile] at h
  split at h
  · cases h
  · rename_i rext dot rbase heq
    obtain ⟨htake, hdrop⟩ := Prod.mk.inj heq
    obtain ⟨rfl, rfl⟩ := Prod.mk.inj (Option.some.inj h)
    have hdot : dot = 46 := by
      have hne : name.reverse.dropWhile (· ≠ 46) ≠ [] := by
        rw [hdrop]
        exact List.cons_ne_nil _ _
      have hhead := List.head_dropWhile_not (fun ch : UInt8 => decide (ch ≠ 46)) hne
      simp only [hdrop, List.head_cons] at hhead
      simpa using hhead
    subst hdot
    have hall : ∀ ch ∈ rext, ch ≠ 46 := by
      intro ch hch
      rw [← htake] at hch
      simpa using List.mem_takeWhile_imp hch
    constructor
    · have hrev := List.takeWhile_append_dropWhile (p := (· ≠ 46)) (l := name.reverse)
      rw [htake, hdrop] at hrev
      have := congrArg List.reverse hrev
      simpa using this.symm
    · intro hmem
      exact hall 46 (by simpa using hmem) rfl

end Parts

section Fields

/-- The shape of the short names that the code writes. -/
structure ShortFieldOk (field : List UInt8) : Prop where
  length : field.length = 11
  head : ∃ ch rest, field = ch :: rest ∧ fat32IsShortChar ch = true

theorem padTo_length {n : Nat} {s : List UInt8} (h : s.length ≤ n) : (padTo n s).length = n := by
  simp [padTo]
  omega

theorem shortField_ok {base ext : List UInt8} (hbase : base ≠ []) (hlen : base.length ≤ 8)
    (hext : ext.length ≤ 3) (hshort : ∀ ch ∈ base, fat32IsShortChar ch = true) :
    ShortFieldOk (shortField base ext) := by
  constructor
  · rw [shortField, List.length_append, padTo_length hlen, padTo_length hext]
  · obtain ⟨ch, rest, rfl⟩ := List.exists_cons_of_ne_nil hbase
    exact ⟨ch, _, rfl, hshort ch List.mem_cons_self⟩

theorem tailShort_ok {parts : ShortName} (hbase : parts.base ≠ [])
    (hext : parts.ext.length ≤ 3)
    (hshort : ∀ ch ∈ parts.base, fat32IsShortChar ch = true) {n : Nat} (hn : n < 100) :
    ShortFieldOk (tailShort parts n) := by
  have hlen := tailDigits_length_le n hn
  obtain ⟨ch, rest, hcons⟩ := List.exists_cons_of_ne_nil hbase
  have hkeep : 8 - (1 + (tailDigits n).length) = 8 - (1 + (tailDigits n).length) - 1 + 1 := by
    omega
  refine shortField_ok ?_ ?_ hext ?_
  · simp
  · simp only [List.length_append, List.length_take, List.length_cons]
    omega
  · intro c hc
    rcases List.mem_append.mp hc with hc | hc
    · exact hshort c (List.mem_of_mem_take hc)
    · rcases List.mem_cons.mp hc with rfl | hc
      · decide
      · exact tailDigits_short n hn c hc

theorem takeWhile_padTo {n : Nat} {s : List UInt8} (h : ∀ ch ∈ s, ch ≠ 32) :
    (padTo n s).takeWhile (· ≠ 32) = s := by
  rw [padTo]
  generalize n - s.length = k
  induction s with
  | nil => cases k <;> simp [List.replicate_succ]
  | cons ch rest ih =>
      have hch : ch ≠ 32 := h ch List.mem_cons_self
      rw [List.cons_append, List.takeWhile_cons, if_pos (by simpa using hch),
        ih fun c hc => h c (List.mem_cons_of_mem ch hc)]

theorem takeWhile_no_zero {s : List UInt8} (h : ∀ ch ∈ s, ch ≠ 0) :
    s.takeWhile (· ≠ 0) = s := by
  have := takeWhile_ne_zero_append h 0
  simpa using this

/-- The name rebuilt from an 8.3 field. -/
theorem shortToName_field {base ext : List UInt8} (hlen : base.length ≤ 8)
    (hbase : ∀ ch ∈ base, fat32IsShortChar ch = true)
    (hext : ∀ ch ∈ ext, fat32IsShortChar ch = true) :
    shortToName (shortField base ext) = if ext = [] then base else base ++ 46 :: ext := by
  have hpad : (padTo 8 base).length = 8 := padTo_length hlen
  have hne : ∀ {s : List UInt8}, (∀ ch ∈ s, fat32IsShortChar ch = true) →
      ∀ ch ∈ s, ch ≠ 32 := fun h ch hch => (shortChar_range (h ch hch)).2.1
  have htake : (shortField base ext).take 8 = padTo 8 base := by
    rw [shortField, List.take_left' hpad]
  have hdrop : (shortField base ext).drop 8 = padTo 3 ext := by
    rw [shortField, List.drop_left' hpad]
  rw [shortToName, htake, hdrop, takeWhile_padTo (hne hbase), takeWhile_padTo (hne hext)]
  refine takeWhile_no_zero fun ch hch => ?_
  have hzero : ∀ {s : List UInt8}, (∀ ch ∈ s, fat32IsShortChar ch = true) →
      ch ∈ s → ch ≠ 0 := fun h hch => (shortChar_range (h ch hch)).1
  split at hch
  · exact hzero hbase hch
  · rcases List.mem_append.mp hch with hch | hch
    · exact hzero hbase hch
    · rcases List.mem_cons.mp hch with rfl | hch
      · decide
      · exact hzero hext hch

end Fields

section MakeShortName

variable {v : Vol} {c : Nat} {l : List Nat}

/-- The short name is not used by an entry of the directory. -/
def ShortFree (v : Vol) (l : List Nat) (short : List UInt8) : Prop :=
  ∀ hit ∈ v.listing l, hit.raw.name ≠ short

instance (v : Vol) (l : List Nat) (short : List UInt8) : Decidable (ShortFree v l short) :=
  inferInstanceAs (Decidable (∀ hit ∈ v.listing l, hit.raw.name ≠ short))

theorem fat32ShortExists_iff (g : Geometry v) (h : v.Chain c l) (short : List UInt8) :
    fat32ShortExists c short v = (.ok (!decide (ShortFree v l short)), v) := by
  rw [fat32ShortExists_eq g h]
  by_cases hfree : ShortFree v l short
  · have hany : ((v.listing l).any fun hit => hit.raw.name = short) = false := by
      rw [List.any_eq_false]
      intro hit hhit
      simpa using hfree hit hhit
    simp [hfree, hany]
  · have hany : ((v.listing l).any fun hit => hit.raw.name = short) = true := by
      rw [List.any_eq_true]
      by_contra hnone
      exact hfree fun hit hhit heq => hnone ⟨hit, hhit, by simpa using heq⟩
    simp [hfree, hany]

theorem fat32ShortTails_spec (g : Geometry v) (h : v.Chain c l) (parts : ShortName)
    (tails : List Nat) :
    (fat32ShortTails c parts tails v = (.err .nospc, v) ∧
        ∀ n ∈ tails, ¬ ShortFree v l (tailShort parts n)) ∨
      ∃ n ∈ tails, ShortFree v l (tailShort parts n) ∧
        fat32ShortTails c parts tails v = (.ok (tailShort parts n, true), v) := by
  induction tails with
  | nil => exact Or.inl ⟨rfl, by simp⟩
  | cons n rest ih =>
      rw [fat32ShortTails, Prog.bind_ok (fat32ShortExists_iff g h _)]
      by_cases hfree : ShortFree v l (tailShort parts n)
      · refine Or.inr ⟨n, List.mem_cons_self, hfree, ?_⟩
        simp [hfree, Prog.pure_apply]
      · simp only [hfree, decide_false, Bool.not_false, ↓reduceIte]
        rcases ih with ⟨hrun, hall⟩ | ⟨m, hm, hmfree, hrun⟩
        · refine Or.inl ⟨hrun, fun m hm => ?_⟩
          rcases List.mem_cons.mp hm with rfl | hm
          · exact hfree
          · exact hall m hm
        · exact Or.inr ⟨m, List.mem_cons_of_mem n hm, hmfree, hrun⟩

/-- The 8.3 name without numeric tail. -/
def plainShort (name : CName) : List UInt8 :=
  shortField (fat32ShortParts name).base (fat32ShortParts name).ext

/-- The name is stored under its plain 8.3 name alone. -/
def StoredShort (v : Vol) (l : List Nat) (name : CName) : Prop :=
  (fat32ShortParts name).simple = true ∧ (fat32ShortParts name).needsLfn = false ∧
    ShortFree v l (plainShort name)

instance (v : Vol) (l : List Nat) (name : CName) : Decidable (StoredShort v l name) :=
  inferInstanceAs (Decidable (_ ∧ _ ∧ _))

/-- What `fat32_make_short_name` delivers: a short name that no entry has, and
whether long-name slots are needed. -/
structure ShortChoice (v : Vol) (l : List Nat) (name : CName) (short : List UInt8)
    (needsLfn : Bool) : Prop where
  ok : ShortFieldOk short
  free : ShortFree v l short
  plain : needsLfn = false → StoredShort v l name ∧ short = plainShort name
  stored : StoredShort v l name → needsLfn = false

theorem fat32MakeShortName_spec (g : Geometry v) (h : v.Chain c l) (name : CName) :
    (fat32MakeShortName c name v = (.err .nospc, v) ∧ ¬ StoredShort v l name) ∨
      ∃ short needsLfn, fat32MakeShortName c name v = (.ok (short, needsLfn), v) ∧
        ShortChoice v l name short needsLfn := by
  obtain ⟨hbase, hlen, hext, hshort, _, _⟩ := fat32ShortParts_spec name
  -- the numeric tails, tried when the plain name does not do
  have htails : ¬ StoredShort v l name →
      ((fat32ShortTails c (fat32ShortParts name) (List.range' 1 99) v = (.err .nospc, v) ∧
          ¬ StoredShort v l name) ∨
        ∃ short needsLfn,
          fat32ShortTails c (fat32ShortParts name) (List.range' 1 99) v =
            (.ok (short, needsLfn), v) ∧ ShortChoice v l name short needsLfn) := by
    intro hnot
    rcases fat32ShortTails_spec g h (fat32ShortParts name) (List.range' 1 99) with
      ⟨hrun, _⟩ | ⟨n, hn, hfree, hrun⟩
    · exact Or.inl ⟨hrun, hnot⟩
    · have hlt : n < 100 := by
        have := (List.mem_range'_1.mp hn).2
        omega
      exact Or.inr ⟨_, true, hrun, tailShort_ok hbase hext hshort hlt, hfree,
        fun h => absurd h (by decide), fun h => absurd h hnot⟩
  have hplain : ShortFieldOk (plainShort name) := shortField_ok hbase hlen hext hshort
  rw [fat32MakeShortName]
  by_cases hsimple : (fat32ShortParts name).simple = true
  · simp only [hsimple, ↓reduceIte]
    rw [Prog.bind_ok (fat32ShortExists_iff g h _)]
    by_cases hfree : ShortFree v l (plainShort name)
    · have hfree' := hfree
      rw [plainShort] at hfree'
      simp only [hfree', decide_true, Bool.not_true, Bool.false_eq_true, ↓reduceIte]
      refine Or.inr ⟨_, _, Prog.pure_apply _ _, hplain, hfree, ?_, fun h => h.2.1⟩
      exact fun hneeds => ⟨⟨hsimple, hneeds, hfree⟩, rfl⟩
    · have hfree' := hfree
      rw [plainShort] at hfree'
      simp only [hfree', decide_false, Bool.not_false, ↓reduceIte]
      exact htails fun hstored => hfree hstored.2.2
  · simp only [hsimple, Bool.false_eq_true, ↓reduceIte, Prog.pure_bind_apply]
    exact htails fun hstored => hsimple hstored.1

/-- The names that are written without long-name slots and come back without
their last character: at most eight short-name characters and a dot. -/
def TrailingDot (name : CName) : Prop := name.getLast? = some 46

instance (name : CName) : Decidable (TrailingDot name) :=
  inferInstanceAs (Decidable (name.getLast? = some 46))

/-- A name stored under its plain 8.3 name comes back unless it ends in a dot. -/
theorem shortToName_plain {name : CName} (h : (fat32ShortParts name).needsLfn = false) :
    shortToName (plainShort name) = if TrailingDot name then name.dropLast else name := by
  obtain ⟨hbase, hlen, _, hshort, hshort', hsrc⟩ := fat32ShortParts_spec name
  obtain ⟨hb, he⟩ := hsrc h
  rw [plainShort, shortToName_field hlen hshort hshort']
  generalize (fat32ShortParts name).base = base at *
  generalize (fat32ShortParts name).ext = ext at *
  cases hdot : fat32LastDot name with
  | none =>
      rw [hdot] at hb he
      simp only [Option.getD_none] at hb he
      subst hb he
      have hno := fat32LastDot_none hdot
      have hlast : ¬ TrailingDot base := fun hl => hno (List.mem_of_mem_getLast? hl)
      rw [if_neg hlast, if_pos rfl]
  | some src =>
      obtain ⟨b, e⟩ := src
      rw [hdot] at hb he
      simp only [Option.getD_some] at hb he
      subst hb he
      obtain ⟨rfl, hno⟩ := fat32LastDot_some hdot
      by_cases hnil : ext = []
      · subst hnil
        have hlast : TrailingDot (base ++ [46]) := by
          rw [TrailingDot, List.getLast?_concat]
        rw [if_pos hlast, if_pos rfl, List.dropLast_concat]
      · have hlast : ¬ TrailingDot (base ++ 46 :: ext) := by
          rw [TrailingDot, List.getLast?_append_of_ne_nil _ (List.cons_ne_nil 46 ext),
            List.getLast?_cons_of_ne_nil hnil]
          exact fun hl => hno (List.mem_of_mem_getLast? hl)
        rw [if_neg hnil, if_neg hlast]

end MakeShortName

end OsAgentLab
