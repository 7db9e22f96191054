/-
What a tab inserts, against all the entries that start with the typed characters.
-/
import OsAgentLab.User.Complete

namespace OsAgentLab

namespace Shell

section Meaning

/-- A start of a string, ignoring case. -/
def CiPrefix (start text : Text) : Prop := start.map tolower <+: text.map tolower

instance (start text : Text) : Decidable (CiPrefix start text) := by
  unfold CiPrefix
  infer_instance

/-- The entries that start with the typed characters; a directory itself and its parent are
none. -/
def matching (entries : List Entry) (typed : Text) : List Entry :=
  entries.filter fun entry => entry.name ≠ dot ∧ entry.name ≠ dotDot ∧ CiPrefix typed entry.name

/-- The last word of a line, the string in it, and the part of that behind its last slash. -/
def lastWord (line : Text) : Text := line.rtakeWhile fun c => !isSpace c
def lastToken (line : Text) : Text := (lastWord line).takeWhile fun c => c ≠ 0
def typedPrefix (line : Text) : Text := (lastToken line).rtakeWhile fun c => c ≠ slash

/-- The directory in which the last word is completed. -/
def wordDir (line : Text) : Text :=
  (scanDir (line.length - (lastWord line).length) (lastToken line)).1

/-- A buffer that holds a line with its NUL. -/
structure Holds (size : Nat) (line : Text) (buf : List UInt8) (len : Nat) : Prop where
  size : buf.length = size
  len : len = line.length
  text : ∃ more, buf = line ++ 0 :: more

/-- A completion: the line with characters that every match agrees on, and a slash at most
behind the only match, a directory. -/
def Completed (size : Nat) (entries : List Entry) (typed line : Text) (buf : List UInt8)
    (len : Nat) : Prop :=
  ∃ appended behind, Holds size (line ++ appended ++ behind) buf len ∧
    (∀ entry ∈ matching entries typed, CiPrefix (typed ++ appended) entry.name) ∧
    (behind = [] ∨ behind = [slash] ∧
      ∃ entry, matching entries typed = [entry] ∧ entry.isDir = true)

/-- Whatever start the first matches have in common, as far as there is room for it, the
further ones have in common with them. -/
def FurtherAgree (room : Nat) (entries : List Entry) (typed : Text) : Prop :=
  ∀ start : Text, start.length ≤ typed.length + room →
    (∀ entry ∈ (matching entries typed).take maxMatches, CiPrefix start entry.name) →
    ∀ entry ∈ (matching entries typed).drop maxMatches, CiPrefix start entry.name

end Meaning

section Word

variable {line tail : Text} {c : UInt8}

theorem wordStart_spec (line tail : Text) :
    ∃ front, line = front ++ lastWord line ∧ wordStart (line ++ tail) line.length = front.length := by
  induction line using List.reverseRecOn generalizing tail with
  | nil => exact ⟨[], rfl, rfl⟩
  | append_singleton line c ih =>
      have hread : (line ++ [c] ++ tail).getD line.length 0 = c := by
        rw [List.getD_eq_getElem?_getD, List.append_assoc,
          List.getElem?_append_right (Nat.le_refl _), Nat.sub_self]
        rfl
      rw [List.length_append, List.length_singleton, wordStart, hread]
      by_cases hc : isSpace c = true
      · refine ⟨line ++ [c], ?_, ?_⟩
        · rw [lastWord, List.rtakeWhile_concat_neg _ _ _ (by simpa using hc), List.append_nil]
        · rw [if_pos hc, List.length_append, List.length_singleton]
      · obtain ⟨front, hline, hstart⟩ := ih ([c] ++ tail)
        refine ⟨front, ?_, ?_⟩
        · rw [lastWord, List.rtakeWhile_concat_pos _ _ _ (by simpa using hc), ← List.append_assoc]
          exact congrArg (· ++ [c]) hline
        · rw [if_neg hc, List.append_assoc]
          exact hstart

theorem lastSlash_spec (token : Text) :
    (lastSlash token = none → slash ∉ token) ∧
      ∀ front behind, lastSlash token = some (front, behind) →
        token = front ++ slash :: behind ∧ slash ∉ behind := by
  induction token with
  | nil => exact ⟨fun _ => List.not_mem_nil, fun front behind h => by contradiction⟩
  | cons c token ih =>
      obtain ⟨hnone, hsome⟩ := ih
      rw [lastSlash]
      cases hlast : lastSlash token with
      | some result =>
          obtain ⟨front, behind⟩ := result
          obtain ⟨htoken, hbehind⟩ := hsome front behind hlast
          refine ⟨fun h => by contradiction, fun front' behind' h => ?_⟩
          obtain ⟨rfl, rfl⟩ := Prod.mk.inj (Option.some.inj h)
          exact ⟨by rw [htoken]; rfl, hbehind⟩
      | none =>
          have htoken := hnone hlast
          dsimp only
          by_cases hc : c = slash
          · rw [if_pos hc]
            refine ⟨fun h => by contradiction, fun front behind h => ?_⟩
            obtain ⟨rfl, rfl⟩ := Prod.mk.inj (Option.some.inj h)
            exact ⟨by rw [hc]; rfl, htoken⟩
          · rw [if_neg hc]
            refine ⟨fun _ hmem => ?_, fun front behind h => by contradiction⟩
            rcases List.mem_cons.1 hmem with heq | hmem
            · exact hc heq.symm
            · exact htoken hmem

/-- The part behind the last slash is what is completed. -/
theorem scanDir_typed (start : Nat) (token : Text) :
    (scanDir start token).2 = token.rtakeWhile fun c => c ≠ slash := by
  obtain ⟨hnone, hsome⟩ := lastSlash_spec token
  rw [scanDir]
  cases hlast : lastSlash token with
  | none =>
      have hself : token.rtakeWhile (fun c => c ≠ slash) = token := by
        rw [List.rtakeWhile_eq_self_iff]
        intro c hc
        rw [decide_eq_true_iff]
        rintro rfl
        exact hnone hlast hc
      rw [hself]
      by_cases hstart : start = 0
      · rw [if_pos ⟨hstart, rfl⟩]
      · rw [if_neg fun hand => hstart hand.1]
  | some result =>
      obtain ⟨front, behind⟩ := result
      obtain ⟨htoken, hbehind⟩ := hsome front behind hlast
      have hall : ∀ c ∈ behind.reverse, decide (c ≠ slash) = true := by
        intro c hc
        rw [decide_eq_true_iff]
        rintro rfl
        exact hbehind (List.mem_reverse.1 hc)
      have hpart : token.rtakeWhile (fun c => c ≠ slash) = behind := by
        rw [htoken, List.rtakeWhile, List.reverse_append, List.reverse_cons, List.append_assoc,
          List.takeWhile_append_of_pos hall, List.singleton_append,
          List.takeWhile_cons_of_neg (by decide), List.append_nil, List.reverse_reverse]
      rw [hpart, if_neg fun hand => Option.some_ne_none _ hand.2]
      cases front with
      | nil => rfl
      | cons c front => rfl

end Word

section Matches

variable {start text typed : Text} {entries stream out : List Entry} {n j : Nat}

theorem ciPrefix_cons {a b : UInt8} {s : Text} :
    CiPrefix (b :: start) (a :: s) ↔ tolower a = tolower b ∧ CiPrefix start s := by
  rw [CiPrefix, List.map_cons, List.map_cons, List.cons_prefix_cons, eq_comm]
  rfl

theorem startsWithCi_iff (name typed : Text) :
    startsWithCi name typed = true ↔ CiPrefix typed name := by
  induction typed generalizing name with
  | nil =>
      rw [startsWithCi]
      exact ⟨fun _ => List.nil_prefix, fun _ => rfl⟩
  | cons b typed ih =>
      cases name with
      | nil =>
          rw [startsWithCi]
          refine ⟨fun h => by contradiction, fun h => ?_⟩
          have hlength := h.length_le
          rw [List.length_map, List.length_map] at hlength
          contradiction
      | cons a name =>
          rw [startsWithCi, ciPrefix_cons]
          by_cases hab : tolower a = tolower b
          · rw [if_neg (not_not_intro hab), ih]
            exact ⟨fun h => ⟨hab, h⟩, fun h => h.2⟩
          · rw [if_pos hab]
            exact ⟨fun h => by contradiction, fun h => absurd h.1 hab⟩

theorem swapMatch_perm (ms : List Entry) (i j : Nat) : (swapMatch ms i j).Perm ms := by
  rw [swapMatch]
  cases hi : ms[i]? with
  | none => rfl
  | some a =>
      cases hj : ms[j]? with
      | none => rfl
      | some b =>
          obtain ⟨hilt, rfl⟩ := List.getElem?_eq_some_iff.1 hi
          obtain ⟨hjlt, rfl⟩ := List.getElem?_eq_some_iff.1 hj
          dsimp only
          by_cases hcmp : 0 < ciCmp ms[i].name ms[j].name
          · rw [if_pos hcmp]
            exact List.set_set_perm hilt hjlt
          · rw [if_neg hcmp]

/-- A loop of exchanges leaves a permutation. -/
theorem foldl_perm {f : List Entry → Nat → List Entry} (hf : ∀ ms i, (f ms i).Perm ms)
    (indices : List Nat) (ms : List Entry) : (indices.foldl f ms).Perm ms := by
  induction indices generalizing ms with
  | nil => rfl
  | cons i indices ih => exact (ih (f ms i)).trans (hf ms i)

theorem sortMatches_perm (ms : List Entry) (count : Nat) : (sortMatches ms count).Perm ms :=
  foldl_perm (fun ms i => foldl_perm (fun ms k => swapMatch_perm ms i (i + 1 + k)) _ ms) _ ms

/-- A match as the table holds it. -/
def kept (entry : Entry) : Entry := ⟨entry.name.take 255, entry.isDir⟩

/-- The table holds the first matches. -/
theorem collectLoop_spec (max : Nat) (stream : List Entry) :
    ∀ out : List Entry, out.length ≤ max → collectLoop typed max stream out =
      out ++ ((matching stream typed).take (max - out.length)).map kept := by
  induction stream with
  | nil =>
      intro out _
      rw [collectLoop, matching, List.filter_nil, List.take_nil, List.map_nil, List.append_nil]
  | cons entry stream ih =>
      intro out hout
      have hskip : ¬(entry.name ≠ dot ∧ entry.name ≠ dotDot ∧ CiPrefix typed entry.name) →
          matching (entry :: stream) typed = matching stream typed := fun h =>
        List.filter_cons_of_neg fun hand => h (of_decide_eq_true hand)
      rw [collectLoop]
      by_cases hdot : entry.name = dot ∨ entry.name = dotDot
      · rw [if_pos hdot, hskip fun hand => hdot.elim hand.1 hand.2.1, ih out hout]
      · rw [if_neg hdot]
        obtain ⟨hd, hdd⟩ := not_or.1 hdot
        by_cases hstart : CiPrefix typed entry.name
        · have htake : matching (entry :: stream) typed = entry :: matching stream typed :=
            List.filter_cons_of_pos (decide_eq_true ⟨hd, hdd, hstart⟩)
          rw [if_neg (not_not_intro ((startsWithCi_iff _ _).2 hstart)), htake]
          by_cases hfull : max ≤ out.length
          · have hzero : max - out.length = 0 := by omega
            rw [if_pos hfull, hzero, List.take_zero, List.map_nil, List.append_nil]
          · obtain ⟨room, hroom⟩ : ∃ room, max - out.length = room + 1 := ⟨max - out.length - 1, by omega⟩
            have hnext : max - (out ++ [kept entry]).length = room := by
              rw [List.length_append, List.length_singleton]
              omega
            have hle : (out ++ [kept entry]).length ≤ max := by
              rw [List.length_append, List.length_singleton]
              omega
            rw [if_neg hfull, hroom, List.take_succ_cons, List.map_cons]
            have hloop := ih (out ++ [kept entry]) hle
            rw [hnext, List.append_assoc] at hloop
            exact hloop
        · rw [if_pos fun h => hstart ((startsWithCi_iff _ _).1 h),
            hskip fun hand => hstart hand.2.2, ih out hout]

/-- The matches are the first ones, in some order. -/
theorem collectMatches_perm (dir : Option (List Entry)) (typed : Text) (max : Nat) :
    (collectMatches dir typed max).Perm (((matching (dir.getD []) typed).take max).map kept) := by
  cases dir with
  | none => rw [collectMatches, Option.getD_none, matching, List.filter_nil, List.take_nil, List.map_nil]
  | some stream =>
      have hloop := @collectLoop_spec typed max stream [] (Nat.zero_le _)
      rw [List.nil_append, List.length_nil, Nat.sub_zero] at hloop
      rw [collectMatches, Option.getD_some, ← hloop]
      exact sortMatches_perm _ _

end Matches

section Common

variable {a b : Text} {start typed : Text} {rest seen : List Entry} {first : Entry} {limit n j : Nat}

theorem ciPrefix_read (h : CiPrefix start a) (hj : j < start.length) :
    (a[j]?).map tolower = (start[j]?).map tolower := by
  obtain ⟨t, ht⟩ := h
  rw [← List.getElem?_map, ← List.getElem?_map, ← ht,
    List.getElem?_append_left (by rw [List.length_map]; exact hj)]

/-- The loop stops at the end of what two strings have in common. -/
theorem agreeLoop_spec : ∀ n j, j + n ≤ a.length → j + n ≤ b.length →
    (a.take j).map tolower = (b.take j).map tolower →
    j ≤ agreeLoop a b n j ∧ agreeLoop a b n j ≤ j + n ∧
      (a.take (agreeLoop a b n j)).map tolower = (b.take (agreeLoop a b n j)).map tolower ∧
      ∀ start, start.length ≤ j + n → CiPrefix start a → CiPrefix start b →
        start.length ≤ agreeLoop a b n j := by
  intro n
  induction n with
  | zero =>
      intro j ha hb hagree
      exact ⟨Nat.le_refl _, Nat.le_refl _, hagree, fun start hstart _ _ => hstart⟩
  | succ n ih =>
      intro j ha hb hagree
      rw [agreeLoop]
      by_cases hchar : (a[j]?).map tolower = (b[j]?).map tolower
      · rw [if_neg (not_not_intro hchar)]
        have hnext : (a.take (j + 1)).map tolower = (b.take (j + 1)).map tolower := by
          rw [List.take_add_one, List.take_add_one, List.map_append, List.map_append, hagree,
            ← Option.toList_map, ← Option.toList_map, hchar]
        obtain ⟨hle, hge, hsame, hmax⟩ := ih (j + 1) (by omega) (by omega) hnext
        exact ⟨by omega, by omega, hsame, fun start hstart => hmax start (by omega)⟩
      · rw [if_pos hchar]
        refine ⟨Nat.le_refl _, Nat.le_add_right _ _, hagree, fun start hstart hsa hsb => ?_⟩
        by_contra hlong
        apply hchar
        rw [ciPrefix_read hsa (by omega), ciPrefix_read hsb (by omega)]

/-- A length up to which the first string agrees with all, and no start of all is longer. -/
structure CommonStart (first : Text) (names : List Text) (limit : Nat) : Prop where
  self : first ∈ names
  le : limit ≤ first.length
  starts : ∀ name ∈ names, CiPrefix (first.take limit) name
  most : ∀ start, (∀ name ∈ names, CiPrefix start name) → start.length ≤ limit

theorem CiPrefix.length_le (h : CiPrefix start a) : start.length ≤ a.length := by
  have hlength := List.IsPrefix.length_le h
  rw [List.length_map, List.length_map] at hlength
  exact hlength

theorem CiPrefix.take (a : Text) (n : Nat) : CiPrefix (a.take n) a :=
  (List.take_prefix n a).map tolower

theorem CommonStart.one (first : Text) : CommonStart first [first] first.length where
  self := List.mem_singleton_self first
  le := Nat.le_refl _
  starts := by
    intro name hname
    rw [List.mem_singleton.1 hname]
    exact .take first _
  most := fun start h => (h first (List.mem_singleton_self first)).length_le

theorem CommonStart.add {first name : Text} {names : List Text} (h : CommonStart first names limit) :
    CommonStart first (names ++ [name]) (agreeLoop first name (min limit name.length) 0) := by
  have hle := h.le
  obtain ⟨-, hlimit, hsame, hmost⟩ :=
    @agreeLoop_spec first name (min limit name.length) 0 (by omega) (by omega) rfl
  generalize agreeLoop first name (min limit name.length) 0 = r at hlimit hsame hmost
  refine ⟨List.mem_append_left _ h.self, by omega, fun other hother => ?_, fun start hall => ?_⟩
  · rcases List.mem_append.1 hother with hmem | hmem
    · have hshort : (first.take r).map tolower <+: (first.take limit).map tolower :=
        (List.take_prefix_take_left (by omega)).map tolower
      exact hshort.trans (h.starts other hmem)
    · rw [List.mem_singleton.1 hmem]
      have hprefix : (name.take r).map tolower <+: name.map tolower := CiPrefix.take name r
      rw [← hsame] at hprefix
      exact hprefix
  · have hnames : ∀ other ∈ names, CiPrefix start other := fun other hmem =>
      hall other (List.mem_append_left _ hmem)
    have hname := hall name (List.mem_append_right _ (List.mem_singleton_self name))
    have hlong := h.most start hnames
    have hshort := hname.length_le
    exact hmost start (by omega) (hnames first h.self) hname

theorem CommonStart.foldl {first : Text} (rest : List Entry) :
    ∀ {names : List Text} {limit : Nat}, CommonStart first names limit →
      CommonStart first (names ++ rest.map Entry.name)
        (rest.foldl (fun limit m => agreeLoop first m.name (min limit m.name.length) 0) limit) := by
  induction rest with
  | nil =>
      intro names limit h
      rw [List.map_nil, List.append_nil]
      exact h
  | cons m rest ih =>
      intro names limit h
      have hadd : CommonStart first (names ++ [m.name]) _ := h.add
      have hnext := ih hadd
      rw [List.append_assoc] at hnext
      exact hnext

/-- `common_prefix_len` of matches that have the typed characters in common. -/
theorem commonPrefixLen_spec (h : ∀ m ∈ first :: rest, CiPrefix typed m.name) :
    typed.length ≤ commonPrefixLen (first :: rest) typed ∧
      CommonStart first.name ((first :: rest).map Entry.name)
        (commonPrefixLen (first :: rest) typed) := by
  have hcommon := (CommonStart.one first.name).foldl rest
  have htyped : ∀ name ∈ [first.name] ++ rest.map Entry.name, CiPrefix typed name := by
    intro name hname
    have hmap : name ∈ (first :: rest).map Entry.name := hname
    obtain ⟨m, hm, rfl⟩ := List.mem_map.1 hmap
    exact h m hm
  have hle := hcommon.most typed htyped
  rw [commonPrefixLen, if_neg (Nat.not_lt_of_le hle)]
  exact ⟨hle, hcommon⟩

end Common

end Shell

end OsAgentLab
