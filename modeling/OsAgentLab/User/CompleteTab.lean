/-
The tab branch of `read_line`: the line behind it, and when every match agrees on what it
inserts.
-/
import OsAgentLab.User.CompleteSpec

namespace OsAgentLab

namespace Shell

section Buffer

variable {size len n : Nat} {line src : Text} {buf : List UInt8}

theorem Holds.len_lt (h : Holds size line buf len) : len < size := by
  obtain ⟨more, hbuf⟩ := h.text
  have hsize := h.size
  rw [hbuf, List.length_append, List.length_cons, ← h.len] at hsize
  omega

/-- A buffer holds one line of a length. -/
theorem Holds.unique {line' : Text} (h : Holds size line buf len) (h' : Holds size line' buf len) :
    line = line' := by
  obtain ⟨more, hbuf⟩ := h.text
  obtain ⟨more', hbuf'⟩ := h'.text
  have hlength : line.length = line'.length := by rw [← h.len, h'.len]
  exact (List.append_inj (hbuf.symm.trans hbuf') hlength).1

/-- What is left of a buffer behind some characters more. -/
theorem Holds.room (h : Holds size line buf len) (hn : len + n < size) :
    ∃ c more, buf.drop (len + n) = c :: more := by
  apply List.exists_cons_of_ne_nil
  intro hnil
  have hle := List.drop_eq_nil_iff.1 hnil
  rw [h.size] at hle
  omega

theorem Holds.append (h : Holds size line buf len) (hn : len + src.length < size) :
    Holds size (line ++ src) ((copyIn buf len src).set (len + src.length) 0)
      (len + src.length) := by
  obtain ⟨c, more, hdrop⟩ := h.room hn
  have hlength := h.len
  have htake : buf.take len = line := by
    obtain ⟨rest, hbuf⟩ := h.text
    rw [hbuf, hlength, List.take_left]
  have hset : (copyIn buf len src).set (len + src.length) 0 = line ++ src ++ 0 :: more := by
    rw [copyIn, htake, hdrop, hlength, ← List.length_append,
      List.set_append_right _ _ (Nat.le_refl _), Nat.sub_self, List.set_cons_zero]
  refine ⟨?_, by rw [List.length_append, hlength], more, hset⟩
  have hrest := congrArg List.length hdrop
  rw [List.length_drop, h.size, List.length_cons] at hrest
  rw [hset, List.length_append, List.length_append, List.length_cons]
  omega

/-- The common characters are appended as far as there is room. -/
theorem Holds.appendCommon {full typed : Text} {common : Nat} (h : Holds size line buf len)
    (hcommon : common ≤ full.length) :
    Holds size
      (line ++ (full.drop typed.length).take (min (common - typed.length) (size - 1 - len)))
      (appendCommon size buf len full typed common).1
      (appendCommon size buf len full typed common).2 := by
  have hlt := h.len_lt
  rw [Shell.appendCommon]
  by_cases hmore : typed.length < common
  · rw [if_pos hmore]
    dsimp only
    have hadd : (if size ≤ len + (common - typed.length) then size - len - 1
        else common - typed.length) = min (common - typed.length) (size - 1 - len) := by
      by_cases hfull : size ≤ len + (common - typed.length)
      · rw [if_pos hfull]
        omega
      · rw [if_neg hfull]
        omega
    rw [hadd]
    generalize hn : min (common - typed.length) (size - 1 - len) = n
    have hsrc : ((full.drop typed.length).take n).length = n := by
      rw [List.length_take, List.length_drop]
      omega
    by_cases hpos : 0 < n
    · rw [if_pos hpos]
      have hroom : len + ((full.drop typed.length).take n).length < size := by
        rw [hsrc]
        omega
      have happend := h.append hroom
      rw [hsrc] at happend
      exact happend
    · rw [if_neg hpos, Nat.eq_zero_of_not_pos hpos, List.take_zero, List.append_nil]
      exact h
  · have hzero : min (common - typed.length) (size - 1 - len) = 0 := by omega
    rw [if_neg hmore, hzero, List.take_zero, List.append_nil]
    exact h

/-- A slash is appended behind a directory. -/
theorem Holds.appendSlash {only : Entry} (h : Holds size line buf len) :
    ∃ behind, Holds size (line ++ behind) (appendSlash size buf len only).1
        (appendSlash size buf len only).2 ∧
      (behind = [] ∨ behind = [slash] ∧ only.isDir = true) := by
  rw [Shell.appendSlash]
  by_cases hslash : only.isDir = true ∧ len + 1 < size ∧ (len = 0 ∨ buf[len - 1]? ≠ some slash)
  · rw [if_pos hslash]
    refine ⟨[slash], ?_, Or.inr ⟨rfl, hslash.1⟩⟩
    have hset : buf.set len slash = copyIn buf len [slash] := by
      have hlt : len < buf.length := by rw [h.size]; exact h.len_lt
      rw [List.set_eq_take_append_cons_drop, if_pos hlt, copyIn, List.append_assoc]
      rfl
    rw [hset]
    exact @Holds.append _ _ _ [slash] _ h hslash.2.1
  · rw [if_neg hslash]
    exact ⟨[], by rw [List.append_nil]; exact h, Or.inl rfl⟩

end Buffer

section Tab

variable {memory : Bool} {dirs : Text → Option (List Entry)} {line typed : Text} {buf : List UInt8}
  {len : Nat} {entries : List Entry} {first : Entry} {rest : List Entry}

/-- What is scanned is the last word of the line. -/
theorem tab_scan (h : Holds maxLine line buf len) :
    buf.set len 0 = buf ∧ scanDir (wordStart buf len)
      (((buf.drop (wordStart buf len)).take (min (len - wordStart buf len) 255)).takeWhile
        fun c => c ≠ 0) = (wordDir line, typedPrefix line) := by
  obtain ⟨more, hbuf⟩ := h.text
  obtain ⟨front, hline, hstart⟩ := wordStart_spec line (0 :: more)
  have hlen := h.len
  have hlt : len < 256 := h.len_lt
  have hfront := congrArg List.length hline
  rw [List.length_append] at hfront
  rw [← hbuf, ← hlen] at hstart
  constructor
  · rw [hbuf, hlen, List.set_append_right _ _ (Nat.le_refl _), Nat.sub_self, List.set_cons_zero]
  · have hword : (buf.drop front.length).take (min (len - front.length) 255) = lastWord line := by
      have hcount : min (len - front.length) 255 = (lastWord line).length := by omega
      have hsplit : buf = front ++ (lastWord line ++ 0 :: more) := by
        rw [← List.append_assoc, ← hline, hbuf]
      rw [hcount, hsplit, List.drop_left, List.take_left]
    have hplace : front.length = line.length - (lastWord line).length := by omega
    rw [hstart, hword, wordDir, ← hplace, typedPrefix, ← scanDir_typed front.length]
    rfl

/-- The characters that are appended, with the typed ones: a start of every match in the table,
and none that there is room for is longer. -/
structure Agreed (entries : List Entry) (typed appended : Text) (room : Nat) : Prop where
  length : appended.length ≤ room
  starts : ∀ entry ∈ (matching entries typed).take maxMatches,
    CiPrefix (typed ++ appended) entry.name
  most : ∀ start : Text, start.length ≤ typed.length + room →
    (∀ entry ∈ (matching entries typed).take maxMatches, CiPrefix start entry.name) →
      CiPrefix start (typed ++ appended)

theorem matching_typed {entry : Entry} (h : entry ∈ matching entries typed) :
    CiPrefix typed entry.name :=
  (of_decide_eq_true (List.mem_filter.1 h).2).2.2

theorem ciPrefix_cut {start text : Text} {n : Nat} (h : CiPrefix start text)
    (hn : start.length ≤ n) : CiPrefix start (text.take n) := by
  rw [CiPrefix, List.map_take]
  exact List.prefix_take_iff.2 ⟨h, by rw [List.length_map]; exact hn⟩

theorem agreed_of_perm {room : Nat} (htyped : typed.length + room ≤ 255)
    (hperm : (first :: rest).Perm (((matching entries typed).take maxMatches).map kept)) :
    commonPrefixLen (first :: rest) typed ≤ first.name.length ∧
      Agreed entries typed ((first.name.drop typed.length).take
        (min (commonPrefixLen (first :: rest) typed - typed.length) room)) room := by
  have hkept : ∀ m ∈ first :: rest, ∃ entry ∈ (matching entries typed).take maxMatches,
      kept entry = m := fun m hm => List.mem_map.1 (hperm.mem_iff.1 hm)
  have hmatch : ∀ m ∈ first :: rest, CiPrefix typed m.name := by
    intro m hm
    obtain ⟨entry, hentry, rfl⟩ := hkept m hm
    exact ciPrefix_cut (matching_typed (List.mem_of_mem_take hentry)) (by omega)
  obtain ⟨hle, hcommon⟩ := commonPrefixLen_spec hmatch
  have hfirst := hcommon.le
  generalize commonPrefixLen (first :: rest) typed = common at *
  refine ⟨hfirst, ?_⟩
  generalize hn : min (common - typed.length) room = n
  -- the typed characters are those of the first match up to their case
  have hsame : (typed ++ (first.name.drop typed.length).take n).map tolower =
      (first.name.take (typed.length + n)).map tolower := by
    have hstart := List.prefix_iff_eq_take.1 (hmatch first List.mem_cons_self)
    rw [List.length_map, ← List.map_take] at hstart
    rw [List.take_add, List.map_append, List.map_append, hstart]
  refine ⟨?_, fun entry hentry => ?_, fun start hstart hall => ?_⟩
  · rw [List.length_take]
    omega
  · have hmem := hperm.mem_iff.2 (List.mem_map_of_mem hentry)
    have hcut := hcommon.starts _ (List.mem_map_of_mem hmem)
    have hshort : (first.name.take (typed.length + n)).map tolower <+:
        (first.name.take common).map tolower :=
      (List.take_prefix_take_left (by omega)).map tolower
    rw [CiPrefix, hsame]
    exact (hshort.trans hcut).trans (CiPrefix.take entry.name 255)
  · have hnames : ∀ name ∈ (first :: rest).map Entry.name, CiPrefix start name := by
      intro name hname
      obtain ⟨m, hm, rfl⟩ := List.mem_map.1 hname
      obtain ⟨entry, hentry, rfl⟩ := hkept m hm
      exact ciPrefix_cut (hall entry hentry) (by omega)
    have hlength := hcommon.most start hnames
    rw [CiPrefix, hsame]
    exact ciPrefix_cut (hnames first.name hcommon.self) (by omega)

/-- Without a match nothing is inserted. -/
theorem completed_nothing (h : Holds maxLine line buf len) :
    Completed maxLine entries typed line buf len := by
  refine ⟨[], [], ?_, fun entry hentry => ?_, Or.inl rfl⟩
  · rw [List.append_nil, List.append_nil]
    exact h
  · rw [List.append_nil]
    exact matching_typed hentry

/-- What is inserted of the matches in the table is right exactly when the further ones agree. -/
theorem completed_iff {appended behind : Text} {room : Nat}
    (h : Holds maxLine (line ++ appended ++ behind) buf len)
    (hagreed : Agreed entries typed appended room)
    (hbehind : behind = [] ∨ behind = [slash] ∧
      ∃ entry, matching entries typed = [entry] ∧ entry.isDir = true) :
    Completed maxLine entries typed line buf len ↔ FurtherAgree room entries typed := by
  constructor
  · rintro ⟨appended', behind', h', hall, hbehind'⟩ start hstart hfirst entry hentry
    have hmany : ∀ only, matching entries typed ≠ [only] := by
      rintro only hone
      rw [hone] at hentry
      contradiction
    have hnone : behind = [] := hbehind.resolve_right fun hor => by
      obtain ⟨-, only, hone, -⟩ := hor
      exact hmany only hone
    have hnone' : behind' = [] := hbehind'.resolve_right fun hor => by
      obtain ⟨-, only, hone, -⟩ := hor
      exact hmany only hone
    have heq := h.unique h'
    rw [hnone, hnone', List.append_nil, List.append_nil] at heq
    obtain rfl := List.append_cancel_left heq
    exact (hagreed.most start hstart hfirst).trans (hall entry (List.mem_of_mem_drop hentry))
  · intro hfurther
    refine ⟨appended, behind, h, fun entry hentry => ?_, hbehind⟩
    rw [← List.take_append_drop maxMatches (matching entries typed)] at hentry
    rcases List.mem_append.1 hentry with hfirst | hlater
    · exact hagreed.starts entry hfirst
    · refine hfurther _ ?_ hagreed.starts entry hlater
      rw [List.length_append]
      exact Nat.add_le_add_left hagreed.length _

theorem typedPrefix_length (line : Text) : (typedPrefix line).length ≤ line.length :=
  (List.rtakeWhile_suffix _ _).length_le.trans <|
    (List.takeWhile_prefix _).length_le.trans (List.rtakeWhile_suffix _ _).length_le

/-- The only match in the table is the only match. -/
theorem only_of_perm (hperm : [first].Perm (((matching entries typed).take maxMatches).map kept))
    (hdir : first.isDir = true) :
    ∃ entry, matching entries typed = [entry] ∧ entry.isDir = true := by
  obtain ⟨entry, hentry, hkept⟩ := List.map_eq_singleton_iff.1 (List.perm_singleton.1 hperm.symm)
  have hlength := congrArg List.length hentry
  rw [List.length_take, List.length_singleton, maxMatches] at hlength
  refine ⟨entry, ?_, ?_⟩
  · rw [← hentry, List.take_of_length_le]
    rw [maxMatches]
    omega
  · rw [← hkept] at hdir
    exact hdir

theorem completeTab_holds (dirs : Text → Option (List Entry)) (h : Holds maxLine line buf len) :
    Completed maxLine ((dirs (wordDir line)).getD []) (typedPrefix line) line
        (completeTab maxLine true dirs buf len).1 (completeTab maxLine true dirs buf len).2 ↔
      FurtherAgree (maxLine - 1 - len) ((dirs (wordDir line)).getD []) (typedPrefix line) := by
  obtain ⟨hset, hscan⟩ := tab_scan h
  have hperm := collectMatches_perm (dirs (wordDir line)) (typedPrefix line) maxMatches
  generalize hentries : (dirs (wordDir line)).getD [] = entries at hperm ⊢
  rw [completeTab]
  dsimp only
  rw [hset, hscan]
  dsimp only
  rw [if_neg (by decide)]
  cases hmatches : collectMatches (dirs (wordDir line)) (typedPrefix line) maxMatches with
  | nil =>
      rw [hmatches] at hperm
      have hnone : matching entries (typedPrefix line) = [] := by
        have htake := List.map_eq_nil_iff.1 hperm.nil_eq.symm
        exact (List.take_eq_nil_iff.1 htake).resolve_left (by decide)
      refine ⟨fun _ start _ _ entry hentry => ?_, fun _ => completed_nothing h⟩
      rw [hnone] at hentry
      contradiction
  | cons first rest =>
      rw [hmatches] at hperm
      have hroom : (typedPrefix line).length + (maxLine - 1 - len) ≤ 255 := by
        have htyped := typedPrefix_length line
        have hlt := h.len_lt
        rw [h.len] at hlt ⊢
        rw [maxLine] at hlt ⊢
        omega
      obtain ⟨hle, hagreed⟩ := agreed_of_perm hroom hperm
      have happended := @Holds.appendCommon _ _ _ _ first.name (typedPrefix line) _ h hle
      dsimp only
      by_cases hrest : rest = []
      · rw [if_pos hrest]
        obtain ⟨behind, hslash, hbehind⟩ := @Holds.appendSlash _ _ _ _ first happended
        exact completed_iff hslash hagreed
          (hbehind.imp_right fun hand => ⟨hand.1, only_of_perm (hrest ▸ hperm) hand.2⟩)
      · rw [if_neg hrest]
        rw [← List.append_nil (line ++ _)] at happended
        exact completed_iff happended hagreed (Or.inl rfl)

/-- A tab inserts only what every match agrees on, exactly when there is no memory for the
table or the matches behind the table agree with those in it; the line keeps its NUL. -/
theorem completeTab_iff (memory : Bool) (dirs : Text → Option (List Entry))
    (h : Holds maxLine line buf len) :
    Completed maxLine ((dirs (wordDir line)).getD []) (typedPrefix line) line
        (completeTab maxLine memory dirs buf len).1 (completeTab maxLine memory dirs buf len).2 ↔
      memory = false ∨
        FurtherAgree (maxLine - 1 - len) ((dirs (wordDir line)).getD []) (typedPrefix line) := by
  cases memory with
  | false =>
      rw [completeTab, (tab_scan h).1]
      dsimp only
      rw [if_pos rfl]
      exact ⟨fun _ => Or.inl rfl, fun _ => completed_nothing h⟩
  | true =>
      rw [Bool.true_eq_false, false_or]
      exact completeTab_holds dirs h

/-- A line at the start of a cleared buffer. -/
def lineBuffer (line : Text) : List UInt8 := line ++ List.replicate (maxLine - line.length) 0

theorem lineBuffer_holds (hline : line.length < maxLine) :
    Holds maxLine line (lineBuffer line) line.length := by
  refine ⟨?_, rfl, List.replicate (maxLine - line.length - 1) 0, ?_⟩
  · rw [lineBuffer, List.length_append, List.length_replicate]
    omega
  · rw [lineBuffer, ← List.replicate_succ]
    congr 2
    omega

theorem completeTab_iff_directory :
    Completed maxLine [⟨[97, 98], true⟩] [97] [97]
      (completeTab maxLine true (fun _ => some [⟨[97, 98], true⟩]) (lineBuffer [97]) 1).1
      (completeTab maxLine true (fun _ => some [⟨[97, 98], true⟩]) (lineBuffer [97]) 1).2 :=
  (completeTab_iff true (fun _ => some [⟨[97, 98], true⟩]) (lineBuffer_holds (by decide))).2
    (Or.inr fun _ _ _ entry hentry => by
      have hnone : entry ∈ ([] : List Entry) := hentry
      contradiction)

/-- A directory whose 65th entry differs from the others in its second character. -/
def crowded : List Entry :=
  (List.range 64).map (fun i => ⟨[97, 98, UInt8.ofNat (48 + i)], false⟩) ++ [⟨[97, 99], false⟩]

/-- In such a directory a tab behind `l a` appends what the last entry does not start with. -/
theorem completeTab_crowded :
    ¬∀ (memory : Bool) (dirs : Text → Option (List Entry)) (line : Text) (buf : List UInt8)
      (len : Nat), Holds maxLine line buf len →
        Completed maxLine ((dirs (wordDir line)).getD []) (typedPrefix line) line
          (completeTab maxLine memory dirs buf len).1
          (completeTab maxLine memory dirs buf len).2 := by
  intro h
  have hline : Holds maxLine [108, 32, 97] (lineBuffer [108, 32, 97]) 3 :=
    lineBuffer_holds (by decide)
  have hdone := h true (fun _ => some crowded) _ _ _ hline
  have hagree : FurtherAgree 252 crowded [97] := (completeTab_holds _ hline).1 hdone
  have hfirst : ∀ entry ∈ (matching crowded [97]).take maxMatches, CiPrefix [97, 98] entry.name := by
    decide +kernel
  have hlast : ⟨[97, 99], false⟩ ∈ (matching crowded [97]).drop maxMatches := by decide +kernel
  exact absurd (hagree [97, 98] (by decide) hfirst _ hlast) (by decide)

end Tab

end Shell

end OsAgentLab
