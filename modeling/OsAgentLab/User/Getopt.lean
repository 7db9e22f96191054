/-
`getopt`, called until it returns -1, against the option sequence that POSIX describes.
-/
import Mathlib.Data.List.Forall2
import OsAgentLab.CString

namespace OsAgentLab

namespace Getopt

/-- `'-'`, `':'` and `'?'`. -/
def dash : UInt8 := 45
def colon : UInt8 := 58
def query : UInt8 := 63

section Code

/-- The globals and the static `optpos`; `optarg` is the text that it points at. -/
structure State where
  optind : Nat
  optpos : Nat
  optopt : UInt8
  optarg : Option (List UInt8)

/-- `strchr`. -/
def strchr (s : CStr) (c : UInt8) : Option Nat := (s.chars ++ [0]).findIdx? fun d => d = c

variable (argv : List CStr) (optstring : CStr)

/-- `if (arg[++optpos] == '\0') { optind++; optpos = 0; }`. -/
def advance (arg : CStr) (g : State) : Option State :=
  (arg.read (g.optpos + 1)).map fun next =>
    if next = 0 then { g with optind := g.optind + 1, optpos := 0 }
    else { g with optpos := g.optpos + 1 }

/-- The option character at `optpos`. -/
def parseOption (arg : CStr) (g : State) : Option (Int × State) :=
  (arg.read g.optpos).bind fun c =>
    match strchr optstring c with
    | none => (advance arg { g with optopt := c }).map fun g => (query.toNat, g)
    | some opt =>
        (optstring.read (opt + 1)).bind fun kind =>
          if kind = colon then
            (arg.read (g.optpos + 1)).bind fun next =>
              if next ≠ 0 then
                some (c.toNat,
                  { g with
                    optarg := some (arg.chars.drop (g.optpos + 1))
                    optind := g.optind + 1
                    optpos := 0 })
              else if g.optind + 1 < argv.length then
                (argv[g.optind + 1]?).map fun element =>
                  (c.toNat,
                    { g with optarg := some element.chars, optind := g.optind + 2, optpos := 0 })
              else
                some (query.toNat, { g with optopt := c, optind := g.optind + 1, optpos := 0 })
          else
            (advance arg { g with optarg := none }).map fun g => (c.toNat, g)

/-- `getopt`, with -1 for the end; a read outside a string or of an element at or beyond
`argc` has no result. -/
def getopt (g : State) : Option (Int × State) :=
  let g := if g.optind = 0 then { g with optind := 1, optpos := 0 } else g
  if argv.length ≤ g.optind then some (-1, g)
  else
    (argv[g.optind]?).bind fun arg =>
      (arg.read 0).bind fun first =>
        if first ≠ dash then some (-1, g)
        else
          (arg.read 1).bind fun second =>
            if second = 0 then some (-1, g)
            else if arg.chars = [dash, dash] then some (-1, { g with optind := g.optind + 1 })
            else parseOption argv optstring arg (if g.optpos = 0 then { g with optpos := 1 } else g)

/-- The calls up to the one that returns -1, each with the globals behind it. -/
def getoptAll : Nat → State → Option (List (Int × State) × State)
  | 0, _ => none
  | fuel + 1, g =>
      (getopt argv optstring g).bind fun (r, g') =>
        if r = -1 then some ([], g')
        else (getoptAll fuel g').map fun (calls, last) => ((r, g') :: calls, last)

end Code

section Meaning

/-- A letter or a digit. -/
def Alnum (c : UInt8) : Prop := 48 ≤ c ∧ c ≤ 57 ∨ 65 ≤ c ∧ c ≤ 90 ∨ 97 ≤ c ∧ c ≤ 122

/-- Distinct letters and digits, each with whether it takes an argument. -/
structure Decls where
  list : List (UInt8 × Bool)
  alnum : ∀ d ∈ list, Alnum d.1
  distinct : (list.map Prod.fst).Nodup

/-- A declaration as it is written. -/
def written : UInt8 × Bool → List UInt8
  | (c, true) => [c, colon]
  | (c, false) => [c]

/-- What a call reports. -/
inductive Event
  | option (c : UInt8) (argument : Option (List UInt8))
  | unknown (c : UInt8)
  | missing (c : UInt8)

variable (decls : Decls)

/-- The options grouped in one element, in front of the elements `rest`, and how many of
these it takes for an argument. -/
inductive Group : List UInt8 → List (List UInt8) → List Event → Nat → Prop
  | nil {rest : List (List UInt8)} : Group [] rest [] 0
  | flag {c : UInt8} {cs : List UInt8} {rest : List (List UInt8)} {events : List Event} {used : Nat}
      (hc : (c, false) ∈ decls.list) (hgroup : Group cs rest events used) :
      Group (c :: cs) rest (.option c none :: events) used
  | unknown {c : UInt8} {cs : List UInt8} {rest : List (List UInt8)} {events : List Event} {used : Nat}
      (hc : ∀ takes, (c, takes) ∉ decls.list) (hgroup : Group cs rest events used) :
      Group (c :: cs) rest (.unknown c :: events) used
  | attached {c : UInt8} {cs : List UInt8} {rest : List (List UInt8)}
      (hc : (c, true) ∈ decls.list) (hcs : cs ≠ []) :
      Group (c :: cs) rest [.option c (some cs)] 0
  | next {c : UInt8} {element : List UInt8} {rest : List (List UInt8)} (hc : (c, true) ∈ decls.list) :
      Group [c] (element :: rest) [.option c (some element)] 1
  | missing {c : UInt8} (hc : (c, true) ∈ decls.list) : Group [c] [] [.missing c] 0

/-- The option sequence of the elements and the number of them in front of the operands. -/
inductive Options : List (List UInt8) → List Event → Nat → Prop
  | done : Options [] [] 0
  | operand {element : List UInt8} {rest : List (List UInt8)}
      (hoperand : element.head? ≠ some dash ∨ element = [dash]) : Options (element :: rest) [] 0
  | stop {rest : List (List UInt8)} : Options ([dash, dash] :: rest) [] 1
  | group {cs : List UInt8} {rest : List (List UInt8)} {events later : List Event} {used count : Nat}
      (hcs : cs ≠ []) (hstop : cs ≠ [dash]) (hgroup : Group decls cs rest events used)
      (hrest : Options (rest.drop used) later count) :
      Options ((dash :: cs) :: rest) (events ++ later) (1 + used + count)

/-- The call that reports an event. -/
def Reports : Event → Int × State → Prop
  | .option c argument, (r, g) => r = c.toNat ∧ g.optarg = argument
  | .unknown c, (r, g) => r = query.toNat ∧ g.optopt = c
  | .missing c, (r, g) => r = query.toNat ∧ g.optopt = c

end Meaning

section Text

theorem Alnum.ne_nul {c : UInt8} (h : Alnum c) : c ≠ 0 := by
  rintro rfl
  rw [Alnum] at h
  revert h
  decide

theorem Alnum.ne_colon {c : UInt8} (h : Alnum c) : c ≠ colon := by
  rintro rfl
  rw [Alnum] at h
  revert h
  decide

theorem mem_written {c : UInt8} {d : UInt8 × Bool} (h : c ∈ written d) : c = d.1 ∨ c = colon := by
  obtain ⟨letter, takes⟩ := d
  cases takes with
  | true => simpa [written] using h
  | false => exact Or.inl (List.mem_singleton.1 h)

/-- The `optstring` of the declarations. -/
def Decls.text (decls : Decls) : CStr where
  chars := decls.list.flatMap written
  noNul := by
    intro h
    obtain ⟨d, hd, hmem⟩ := List.mem_flatMap.1 h
    rcases mem_written hmem with hletter | hcolon
    · exact (decls.alnum d hd).ne_nul hletter.symm
    · exact absurd hcolon (by decide)

variable {list : List (UInt8 × Bool)} {c : UInt8} {takes : Bool}

theorem written_eq (d : UInt8 × Bool) : ∃ rest, written d = d.1 :: rest := by
  obtain ⟨letter, takes⟩ := d
  cases takes with
  | true => exact ⟨[colon], rfl⟩
  | false => exact ⟨[], rfl⟩

/-- What follows a declaration is no colon. -/
theorem head_ne_colon (halnum : ∀ d ∈ list, Alnum d.1) :
    (list.flatMap written).head? ≠ some colon := by
  cases list with
  | nil =>
      intro h
      contradiction
  | cons d list =>
      obtain ⟨rest, hwritten⟩ := written_eq d
      rw [List.flatMap_cons, hwritten]
      intro h
      exact (halnum d List.mem_cons_self).ne_colon (Option.some.inj h)

/-- Where a declared letter stands, and whether a colon follows it. -/
theorem declared_place (hdistinct : (list.map Prod.fst).Nodup) (halnum : ∀ d ∈ list, Alnum d.1)
    (hmem : (c, takes) ∈ list) :
    ∃ front rest, list.flatMap written = front ++ c :: rest ∧ c ∉ front ∧
      (rest.head? = some colon ↔ takes = true) := by
  induction list with
  | nil => contradiction
  | cons d list ih =>
      rw [List.map_cons, List.nodup_cons] at hdistinct
      rw [List.flatMap_cons]
      have halnum' : ∀ d ∈ list, Alnum d.1 := fun d hd => halnum d (List.mem_cons_of_mem _ hd)
      rcases List.mem_cons.1 hmem with rfl | htail
      · cases takes with
        | true => exact ⟨[], _, rfl, List.not_mem_nil, fun _ => rfl, fun _ => rfl⟩
        | false =>
            refine ⟨[], _, rfl, List.not_mem_nil, fun h => ?_, fun h => by contradiction⟩
            exact absurd h (head_ne_colon halnum')
      · obtain ⟨front, rest, heq, hfront, hcolon⟩ := ih hdistinct.2 halnum' htail
        refine ⟨written d ++ front, rest, ?_, ?_, hcolon⟩
        · rw [heq, List.append_assoc]
        · intro hc
          rcases List.mem_append.1 hc with hletter | hc
          · rcases mem_written hletter with hd | hd
            · exact hdistinct.1 (List.mem_map.2 ⟨_, htail, hd⟩)
            · exact (halnum _ hmem).ne_colon hd
          · exact hfront hc

/-- Only the declared letters and colons are written. -/
theorem undeclared (hcolon : c ≠ colon) (hnone : ∀ takes, (c, takes) ∉ list) :
    c ∉ list.flatMap written := by
  intro hc
  obtain ⟨⟨letter, takes⟩, hd, hmem⟩ := List.mem_flatMap.1 hc
  rcases mem_written hmem with rfl | h
  · exact hnone takes hd
  · exact hcolon h

theorem strchr_front {s : CStr} {front rest : List UInt8} (hchars : s.chars = front ++ c :: rest)
    (hfront : c ∉ front) : strchr s c = some front.length := by
  have hnone : (front.findIdx? fun d => d = c) = none := by
    rw [List.findIdx?_eq_none_iff]
    intro d hd
    rw [decide_eq_false_iff_not]
    rintro rfl
    exact hfront hd
  rw [strchr, hchars, List.append_assoc, List.findIdx?_append, hnone, Option.none_or,
    List.cons_append, List.findIdx?_cons, if_pos (decide_eq_true rfl), Option.map_some, Nat.zero_add]

theorem strchr_none {s : CStr} (hnul : c ≠ 0) (hc : c ∉ s.chars) : strchr s c = none := by
  rw [strchr, List.findIdx?_eq_none_iff]
  intro d hd
  rw [decide_eq_false_iff_not]
  rintro rfl
  rcases List.mem_append.1 hd with hd | hd
  · exact hc hd
  · exact hnul (List.mem_singleton.1 hd)

/-- A declared letter is found, with a colon behind it if it takes an argument. -/
theorem strchr_declared (decls : Decls) (hmem : (c, takes) ∈ decls.list) :
    ∃ opt kind, strchr decls.text c = some opt ∧ decls.text.read (opt + 1) = some kind ∧
      (kind = colon ↔ takes = true) := by
  obtain ⟨front, rest, hchars, hfront, hcolon⟩ := declared_place decls.distinct decls.alnum hmem
  have hat : decls.text.At (front.length + 1) rest := CStr.At.next ⟨front, hchars, rfl⟩
  refine ⟨front.length, rest.head?.getD 0, strchr_front hchars hfront, ?_, ?_⟩
  · cases rest with
    | nil => exact hat.read_nil
    | cons d rest => exact hat.read_cons
  · rw [← hcolon]
    cases rest with
    | nil => exact ⟨fun h => absurd h (by decide), fun h => by contradiction⟩
    | cons d rest => exact ⟨fun h => congrArg some h, fun h => Option.some.inj h⟩

end Text

section Runs

variable {argv : List CStr} {decls : Decls} {g g' last : State} {trace later : List (Int × State)}

/-- Calls that return an option or `'?'`, one after the other. -/
inductive Calls (argv : List CStr) (optstring : CStr) :
    State → List (Int × State) → State → Prop
  | nil (g : State) : Calls argv optstring g [] g
  | cons {g g' last : State} {r : Int} {trace : List (Int × State)}
      (hcall : getopt argv optstring g = some (r, g')) (hr : r ≠ -1)
      (hcalls : Calls argv optstring g' trace last) :
      Calls argv optstring g ((r, g') :: trace) last

variable {optstring : CStr}

theorem Calls.append (h : Calls argv optstring g trace g') (h' : Calls argv optstring g' later last) :
    Calls argv optstring g (trace ++ later) last := by
  induction h with
  | nil => exact h'
  | cons hcall hr _ ih => exact .cons hcall hr (ih h')

/-- The loop makes the calls and stops at the first -1. -/
theorem Calls.getoptAll (h : Calls argv optstring g trace g')
    (hend : getopt argv optstring g' = some (-1, last)) {fuel : Nat} (hfuel : trace.length < fuel) :
    getoptAll argv optstring fuel g = some (trace, last) := by
  induction h generalizing fuel with
  | nil =>
      cases fuel with
      | zero => contradiction
      | succ fuel =>
          rw [Getopt.getoptAll, hend, Option.bind_some]
          exact if_pos rfl
  | cons hcall hr _ ih =>
      cases fuel with
      | zero => contradiction
      | succ fuel =>
          rw [Getopt.getoptAll, hcall, Option.bind_some]
          dsimp only
          rw [if_neg hr, ih hend (Nat.lt_of_succ_lt_succ hfuel), Option.map_some]

theorem element_at {i : Nat} {arg : CStr} {rest : List CStr} (h : argv.drop i = arg :: rest) :
    ¬argv.length ≤ i ∧ argv[i]? = some arg := by
  constructor
  · intro hle
    rw [List.drop_eq_nil_iff.2 hle] at h
    contradiction
  · rw [← List.head?_drop, h, List.head?_cons]

/-- The next option character: in the element `arg` at `place`, with `cs` from there on and
the elements `rest` behind. -/
structure Pending (argv : List CStr) (g : State) (arg : CStr) (place : Nat) (cs : List UInt8)
    (rest : List CStr) : Prop where
  elements : argv.drop g.optind = arg :: rest
  started : g.optind ≠ 0
  marked : ∃ d ds, arg.chars = dash :: d :: ds ∧ arg.chars ≠ [dash, dash]
  at_optpos : g.optpos = place ∨ g.optpos = 0 ∧ place = 1
  inside : place ≠ 0
  at_place : arg.At place cs

namespace Pending

variable {arg : CStr} {place : Nat} {c : UInt8} {cs : List UInt8} {rest : List CStr}

theorem length (h : Pending argv g arg place cs rest) :
    argv.length = g.optind + 1 + rest.length := by
  have hlength := congrArg List.length h.elements
  rw [List.length_drop, List.length_cons] at hlength
  omega

/-- A call goes on at the next option character. -/
theorem getopt_eq (h : Pending argv g arg place cs rest) :
    getopt argv optstring g = parseOption argv optstring arg { g with optpos := place } := by
  obtain ⟨d, ds, hchars, hstop⟩ := h.marked
  have hstart : arg.At 0 (dash :: d :: ds) := hchars ▸ arg.at_start
  obtain ⟨hopen, helement⟩ := element_at h.elements
  rw [getopt, if_neg h.started, if_neg hopen, helement, Option.bind_some, hstart.read_cons, Option.bind_some,
    if_neg (not_not_intro rfl), hstart.next.read_cons, Option.bind_some,
    if_neg hstart.next.ne_nul, if_neg hstop]
  congr 1
  rcases h.at_optpos with hplace | ⟨hzero, rfl⟩
  · rw [if_neg (hplace ▸ h.inside), ← hplace]
  · rw [if_pos hzero]

/-- Behind an option without an argument: the next character, or the next element. -/
theorem advance (h : Pending argv g arg place (c :: cs) rest) {g₀ : State}
    (hind : g₀.optind = g.optind) (hpos : g₀.optpos = place) :
    ∃ g₁, advance arg g₀ = some g₁ ∧ g₁.optopt = g₀.optopt ∧ g₁.optarg = g₀.optarg ∧
      (cs = [] ∧ g₁.optind = g.optind + 1 ∧ g₁.optpos = 0 ∨
        cs ≠ [] ∧ g₁.optind = g.optind ∧ Pending argv g₁ arg (place + 1) cs rest) := by
  have hnext := h.at_place.next
  rw [Getopt.advance, hpos]
  cases cs with
  | nil =>
      rw [hnext.read_nil, Option.map_some, if_pos rfl]
      exact ⟨_, rfl, rfl, rfl, Or.inl ⟨rfl, congrArg (· + 1) hind, rfl⟩⟩
  | cons d cs =>
      rw [hnext.read_cons, Option.map_some, if_neg hnext.ne_nul]
      refine ⟨_, rfl, rfl, rfl, Or.inr ⟨List.cons_ne_nil d cs, hind, ?_⟩⟩
      exact {
        elements := by rw [← h.elements, ← hind]
        started := fun hzero => h.started (hind.symm.trans hzero)
        marked := h.marked
        at_optpos := Or.inl rfl
        inside := Nat.succ_ne_zero place
        at_place := hnext }

/-- The branch of an option that takes an argument. -/
theorem takes_eq (h : Pending argv g arg place (c :: cs) rest) (hc : (c, true) ∈ decls.list) :
    getopt argv decls.text g =
      (arg.read (place + 1)).bind fun next =>
        if next ≠ 0 then
          some ((c.toNat : Int),
            ⟨g.optind + 1, 0, g.optopt, some (arg.chars.drop (place + 1))⟩)
        else if g.optind + 1 < argv.length then
          (argv[g.optind + 1]?).map fun element =>
            ((c.toNat : Int), ⟨g.optind + 2, 0, g.optopt, some element.chars⟩)
        else some ((query.toNat : Int), ⟨g.optind + 1, 0, c, g.optarg⟩) := by
  obtain ⟨opt, kind, hstrchr, hkind, hcolon⟩ := strchr_declared decls hc
  rw [h.getopt_eq, parseOption, h.at_place.read_cons, Option.bind_some, hstrchr]
  dsimp only
  rw [hkind, Option.bind_some, if_pos (hcolon.2 rfl)]

end Pending

/-- The calls over a group report its events and end behind the element and the arguments
it takes. -/
def GroupDone (argv : List CStr) (decls : Decls) (g : State) (events : List Event) (stop : Nat) :
    Prop :=
  ∃ trace g', Calls argv decls.text g trace g' ∧ List.Forall₂ Reports events trace ∧
    g'.optind = stop ∧ g'.optpos = 0

theorem Reports.ne_end {event : Event} {r : Int} (h : Reports event (r, g)) : r ≠ -1 := by
  cases event with
  | option => rw [h.1]; omega
  | unknown => rw [h.1]; decide
  | missing => rw [h.1]; decide

/-- One call and the rest of the group. -/
theorem group_cons {texts : List (List UInt8)} {event : Event} {events : List Event} {used : Nat}
    {arg : CStr} {place : Nat} {cs : List UInt8} {rest : List CStr} {r : Int} {g₁ : State}
    (hcall : getopt argv decls.text g = some (r, g₁)) (hreports : Reports event (r, g₁))
    (hgroup : Group decls cs texts events used)
    (hnext : cs = [] ∧ g₁.optind = g.optind + 1 ∧ g₁.optpos = 0 ∨
      cs ≠ [] ∧ g₁.optind = g.optind ∧ Pending argv g₁ arg (place + 1) cs rest)
    (hrest : cs ≠ [] → Pending argv g₁ arg (place + 1) cs rest →
      GroupDone argv decls g₁ events (g₁.optind + 1 + used)) :
    GroupDone argv decls g (event :: events) (g.optind + 1 + used) := by
  rcases hnext with ⟨rfl, hind, hpos⟩ | ⟨hcs, hind, hpending⟩
  · cases hgroup with
    | nil =>
        exact ⟨[(r, g₁)], g₁, .cons hcall hreports.ne_end (.nil g₁), .cons hreports .nil, hind, hpos⟩
  · obtain ⟨trace, g', hcalls, hall, hstop, hpos⟩ := hrest hcs hpending
    refine ⟨(r, g₁) :: trace, g', .cons hcall hreports.ne_end hcalls, .cons hreports hall, ?_, hpos⟩
    rw [hstop, hind]

/-- A call that ends the group. -/
theorem group_last {event : Event} {r : Int} {g₁ : State} {stop : Nat}
    (hcall : getopt argv decls.text g = some (r, g₁)) (hreports : Reports event (r, g₁))
    (hind : g₁.optind = stop) (hpos : g₁.optpos = 0) : GroupDone argv decls g [event] stop :=
  ⟨[(r, g₁)], g₁, .cons hcall hreports.ne_end (.nil g₁), .cons hreports .nil, hind, hpos⟩

theorem group_calls {texts : List (List UInt8)} {events : List Event} {used : Nat} {arg : CStr}
    {cs : List UInt8} {rest : List CStr} (hgroup : Group decls cs texts events used) :
    ∀ {g : State} {place : Nat}, cs ≠ [] → Pending argv g arg place cs rest →
      texts = rest.map CStr.chars → (∀ c, Event.unknown c ∈ events → c ≠ colon) →
      GroupDone argv decls g events (g.optind + 1 + used) := by
  induction hgroup with
  | nil => intro g place hcs; contradiction
  | @flag c cs texts events used hc hgroup ih =>
      intro g place _ hpending htexts hcolon
      obtain ⟨opt, kind, hstrchr, hkind, hcolonIff⟩ := strchr_declared decls hc
      have hother : ¬kind = colon := fun h => Bool.false_ne_true (hcolonIff.1 h)
      obtain ⟨g₁, hadvance, -, harg, hnext⟩ :=
        @Pending.advance _ _ _ _ _ _ _ hpending { g with optpos := place, optarg := none } rfl rfl
      have hcall : getopt argv decls.text g = some ((c.toNat : Int), g₁) := by
        rw [hpending.getopt_eq, parseOption, hpending.at_place.read_cons, Option.bind_some, hstrchr]
        dsimp only
        rw [hkind, Option.bind_some, if_neg hother, hadvance, Option.map_some]
      have hreports : Reports (.option c none) ((c.toNat : Int), g₁) := ⟨rfl, harg⟩
      exact group_cons hcall hreports hgroup hnext fun hcs h =>
        ih hcs h htexts fun c hmem => hcolon c (List.mem_cons_of_mem _ hmem)
  | @unknown c cs texts events used hc hgroup ih =>
      intro g place _ hpending htexts hcolon
      have hnone : strchr decls.text c = none :=
        strchr_none hpending.at_place.ne_nul (undeclared (hcolon c List.mem_cons_self) hc)
      obtain ⟨g₁, hadvance, hopt, -, hnext⟩ :=
        @Pending.advance _ _ _ _ _ _ _ hpending { g with optpos := place, optopt := c } rfl rfl
      have hcall : getopt argv decls.text g = some ((query.toNat : Int), g₁) := by
        rw [hpending.getopt_eq, parseOption, hpending.at_place.read_cons, Option.bind_some, hnone]
        dsimp only
        rw [hadvance, Option.map_some]
      have hreports : Reports (.unknown c) ((query.toNat : Int), g₁) := ⟨rfl, hopt⟩
      exact group_cons hcall hreports hgroup hnext fun hcs h =>
        ih hcs h htexts fun c hmem => hcolon c (List.mem_cons_of_mem _ hmem)
  | @attached c cs texts hc hcs =>
      intro g place _ hpending htexts hcolon
      obtain ⟨d, ds, rfl⟩ := List.exists_cons_of_ne_nil hcs
      have hnext := hpending.at_place.next
      have hcall : getopt argv decls.text g =
          some ((c.toNat : Int), ⟨g.optind + 1, 0, g.optopt, some (d :: ds)⟩) := by
        rw [hpending.takes_eq hc, hnext.read_cons, Option.bind_some, if_pos hnext.ne_nul, hnext.drop]
      exact group_last hcall ⟨rfl, rfl⟩ rfl rfl
  | @next c element texts hc =>
      intro g place _ hpending htexts hcolon
      have hnext := hpending.at_place.next
      obtain ⟨e, rest', rfl, rfl, -⟩ := List.map_eq_cons_iff.1 htexts.symm
      have hlength := hpending.length
      rw [List.length_cons] at hlength
      have helement : argv[g.optind + 1]? = some e := by
        rw [← List.getElem?_drop, hpending.elements]
        rfl
      have hcall : getopt argv decls.text g =
          some ((c.toNat : Int), ⟨g.optind + 2, 0, g.optopt, some e.chars⟩) := by
        rw [hpending.takes_eq hc, hnext.read_nil, Option.bind_some, if_neg (not_not_intro rfl),
          if_pos (by omega), helement, Option.map_some]
      exact group_last hcall ⟨rfl, rfl⟩ rfl rfl
  | @missing c hc =>
      intro g place _ hpending htexts hcolon
      have hnext := hpending.at_place.next
      have hlength := hpending.length
      rw [List.map_eq_nil_iff.1 htexts.symm, List.length_nil] at hlength
      have hcall : getopt argv decls.text g =
          some ((query.toNat : Int), ⟨g.optind + 1, 0, c, g.optarg⟩) := by
        rw [hpending.takes_eq hc, hnext.read_nil, Option.bind_some, if_neg (not_not_intro rfl),
          if_neg (by omega)]
      exact group_last hcall ⟨rfl, rfl⟩ rfl rfl

/-- The run over the elements reports the whole option sequence and ends with -1 in front of
the operands. -/
theorem options_calls {texts : List (List UInt8)} {events : List Event} {count : Nat}
    (h : Options decls texts events count) :
    ∀ {g : State}, texts = (argv.drop g.optind).map CStr.chars → g.optind ≠ 0 → g.optpos = 0 →
      (∀ c, Event.unknown c ∈ events → c ≠ colon) →
      ∃ trace g' last, Calls argv decls.text g trace g' ∧ List.Forall₂ Reports events trace ∧
        getopt argv decls.text g' = some (-1, last) ∧ last.optind = g.optind + count ∧
        last.optpos = 0 := by
  induction h with
  | done =>
      intro g htexts hstarted hpos _
      have hnil := List.map_eq_nil_iff.1 htexts.symm
      refine ⟨[], g, g, .nil g, .nil, ?_, rfl, hpos⟩
      rw [getopt, if_neg hstarted, if_pos (List.drop_eq_nil_iff.1 hnil)]
  | @operand element texts hoperand =>
      intro g htexts hstarted hpos _
      obtain ⟨arg, rest, hdrop, rfl, -⟩ := List.map_eq_cons_iff.1 htexts.symm
      refine ⟨[], g, g, .nil g, .nil, ?_, rfl, hpos⟩
      obtain ⟨hopen, helement⟩ := element_at hdrop
      rw [getopt, if_neg hstarted, if_neg hopen, helement, Option.bind_some]
      have hstart := arg.at_start
      generalize harg : arg.chars = chars at hoperand hstart
      cases chars with
      | nil => rw [hstart.read_nil, Option.bind_some, if_pos (by decide)]
      | cons c cs =>
          rw [hstart.read_cons, Option.bind_some]
          by_cases hc : c = dash
          · have hlone := hoperand.resolve_left (not_not_intro (congrArg some hc))
            rw [(List.cons.inj hlone).2] at hstart
            rw [if_neg (not_not_intro hc), hstart.next.read_nil, Option.bind_some, if_pos rfl]
          · rw [if_pos hc]
  | @stop texts =>
      intro g htexts hstarted hpos _
      obtain ⟨arg, rest, hdrop, hchars, -⟩ := List.map_eq_cons_iff.1 htexts.symm
      refine ⟨[], g, { g with optind := g.optind + 1 }, .nil g, .nil, ?_, rfl, hpos⟩
      obtain ⟨hopen, helement⟩ := element_at hdrop
      have hstart : arg.At 0 [dash, dash] := hchars ▸ arg.at_start
      rw [getopt, if_neg hstarted, if_neg hopen, helement, Option.bind_some, hstart.read_cons,
        Option.bind_some, if_neg (not_not_intro rfl), hstart.next.read_cons, Option.bind_some,
        if_neg hstart.next.ne_nul, if_pos hchars]
  | @group cs texts events later used count hcs hstop hgroup hrest ih =>
      intro g htexts hstarted hpos hcolon
      obtain ⟨arg, rest, hdrop, hchars, hmap⟩ := List.map_eq_cons_iff.1 htexts.symm
      obtain ⟨d, ds, rfl⟩ := List.exists_cons_of_ne_nil hcs
      have hpending : Pending argv g arg 1 (d :: ds) rest := {
        elements := hdrop
        started := hstarted
        marked := by
          refine ⟨d, ds, hchars, fun hstop' => ?_⟩
          rw [hchars] at hstop'
          exact hstop (List.cons.inj hstop').2
        at_optpos := Or.inr ⟨hpos, rfl⟩
        inside := by decide
        at_place := CStr.At.next (hchars ▸ arg.at_start) }
      obtain ⟨trace, g', hcalls, hall, hind, hpos'⟩ :=
        group_calls hgroup hcs hpending hmap.symm fun c hmem => hcolon c (List.mem_append_left _ hmem)
      have htexts' : texts.drop used = (argv.drop g'.optind).map CStr.chars := by
        rw [hind, ← hmap, ← List.map_drop, ← List.drop_drop, ← List.drop_drop, hdrop]
        rfl
      obtain ⟨trace', g'', last, hcalls', hall', hend, hind', hlast⟩ :=
        ih htexts' (by omega) hpos' fun c hmem => hcolon c (List.mem_append_right _ hmem)
      refine ⟨trace ++ trace', g'', last, hcalls.append hcalls', ?_, hend, ?_, hlast⟩
      · exact List.rel_append hall hall'
      · omega

/-- Every group has its options. -/
theorem group_total (decls : Decls) (cs : List UInt8) (texts : List (List UInt8)) :
    ∃ events used, Group decls cs texts events used := by
  induction cs with
  | nil => exact ⟨[], 0, .nil⟩
  | cons c cs ih =>
      obtain ⟨events, used, hgroup⟩ := ih
      by_cases htakes : (c, true) ∈ decls.list
      · cases cs with
        | nil =>
            cases texts with
            | nil => exact ⟨_, _, .missing htakes⟩
            | cons element texts => exact ⟨_, _, .next htakes⟩
        | cons d ds => exact ⟨_, _, .attached htakes (List.cons_ne_nil d ds)⟩
      · by_cases hflag : (c, false) ∈ decls.list
        · exact ⟨_, _, .flag hflag hgroup⟩
        · refine ⟨_, _, .unknown (fun takes => ?_) hgroup⟩
          cases takes with
          | true => exact htakes
          | false => exact hflag

/-- Every list of elements has its option sequence. -/
theorem options_total (decls : Decls) :
    ∀ (n : Nat) (texts : List (List UInt8)), texts.length ≤ n →
      ∃ events count, Options decls texts events count := by
  intro n
  induction n with
  | zero =>
      intro texts hlength
      rw [List.length_eq_zero_iff.1 (Nat.le_zero.1 hlength)]
      exact ⟨[], 0, .done⟩
  | succ n ih =>
      intro texts hlength
      cases texts with
      | nil => exact ⟨[], 0, .done⟩
      | cons element texts =>
          by_cases hoperand : element.head? ≠ some dash ∨ element = [dash]
          · exact ⟨[], 0, .operand hoperand⟩
          · obtain ⟨hdash, hlone⟩ := not_or.1 hoperand
            obtain ⟨cs, rfl⟩ := List.head?_eq_some_iff.1 (not_not.1 hdash)
            by_cases hstop : cs = [dash]
            · rw [hstop]
              exact ⟨[], 1, .stop⟩
            · have hcs : cs ≠ [] := by
                rintro rfl
                exact hlone rfl
              obtain ⟨events, used, hgroup⟩ := group_total decls cs texts
              have hrest : (texts.drop used).length ≤ n := by
                rw [List.length_drop]
                rw [List.length_cons] at hlength
                omega
              obtain ⟨later, count, hlater⟩ := ih _ hrest
              exact ⟨_, _, .group hcs hstop hgroup hlater⟩

/-- The globals in front of the first element; the others are as they are left. -/
def initial (optopt : UInt8) (optarg : Option (List UInt8)) : State := ⟨1, 0, optopt, optarg⟩

/-- Called until it returns -1, `getopt` reports the option sequence of the arguments behind
the program's name and leaves `optind` at the first operand. -/
theorem getopt_options (argv : List CStr) (decls : Decls) (optopt : UInt8)
    (optarg : Option (List UInt8)) :
    ∃ events count, Options decls ((argv.drop 1).map CStr.chars) events count ∧
      ∀ events count, Options decls ((argv.drop 1).map CStr.chars) events count →
        (∀ c, Event.unknown c ∈ events → c ≠ colon) →
        ∃ calls, ∀ fuel, calls ≤ fuel →
          ∃ trace last,
            getoptAll argv decls.text fuel (initial optopt optarg) = some (trace, last) ∧
              List.Forall₂ Reports events trace ∧ last.optind = 1 + count := by
  obtain ⟨events, count, htotal⟩ :=
    options_total decls _ ((argv.drop 1).map CStr.chars) (Nat.le_refl _)
  refine ⟨events, count, htotal, fun events count h hcolon => ?_⟩
  obtain ⟨trace, g', last, hcalls, hall, hend, hind, -⟩ :=
    @options_calls argv _ _ _ _ h (initial optopt optarg) rfl Nat.one_ne_zero rfl hcolon
  exact ⟨trace.length + 1, fun fuel hfuel => ⟨trace, last, hcalls.getoptAll hend hfuel, hall, hind⟩⟩

end Runs

end Getopt

end OsAgentLab
