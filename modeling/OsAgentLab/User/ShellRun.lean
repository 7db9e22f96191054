/-
What the shell executes of a line, against the line's words without their first
redirection.
-/
import OsAgentLab.User.ShellSplit

namespace OsAgentLab

namespace Shell

section Meaning

/-- The file name behind a redirection operator. -/
def takePath (append : Bool) : List Text → Option (List Text × Option Redirect)
  | [] => none
  | path :: rest => some (rest, some ⟨append, path⟩)

/-- The words without the first redirection operator and its file name, and the redirection;
`none` if the file name is missing. -/
def removeRedirect : List Text → Option (List Text × Option Redirect)
  | [] => some ([], none)
  | word :: rest =>
      if word = gt ∨ word = gtGt then takePath (word = gtGt) rest
      else (removeRedirect rest).map fun (rest, redirect) => (word :: rest, redirect)

/-- The file that a name is executed from. -/
def fullPath (name : Text) : Text := if 47 ∈ name then name else binDir ++ name

/-- The execution of a word with its arguments; `vim` and `shutdown` name other programs. -/
def execution (word : Text) (args : List Text) (redirect : Option Redirect) : Action :=
  if word = cd then .cd (word :: args)
  else if word = pwd then .pwd (word :: args) redirect
  else if word = exit then .exit (word :: args)
  else .program (fullPath (programName word)) (programName word :: args) redirect

/-- An error is reported and nothing is executed. -/
def Action.Reports (action : Action) : Prop := action = .missingPath ∨ action = .tooLong

/-- A line as it should be handled: more words than the table holds are an error, otherwise
the command is executed that the words name, unless its path does not fit. -/
def Handled (line : List Text) (action : Action) : Prop :=
  if maxArgs ≤ line.length then action.Reports
  else
    match removeRedirect line with
    | none => action.Reports
    | some ([], _) => action = .nothing ∨ action.Reports
    | some (word :: args, redirect) =>
        action = execution word args redirect ∨
          128 ≤ (fullPath (programName word)).length ∧ action.Reports

/-- A word that is no builtin and whose path does not fit. -/
def PathTooLong (word : Text) : Prop :=
  word ≠ cd ∧ word ≠ pwd ∧ word ≠ exit ∧ 47 ∉ programName word ∧
    128 ≤ (fullPath (programName word)).length

/-- The lines that the shell handles: of the words that its table holds, some are left
without the redirection, and they are all the words of the line with a path that is not cut,
or an error is reported. -/
def LineFits (line : List Text) : Prop :=
  match removeRedirect (line.take (maxArgs - 1)) with
  | none => True
  | some ([], _) => line = []
  | some (word :: _, _) =>
      PathTooLong word ∨
        line.length < maxArgs ∧ (47 ∈ programName word → (programName word).length ≤ 127)

end Meaning

section Redirection

variable {front words rest : List Text} {redirect : Option Redirect}

/-- Two arguments are taken out in front of the null. -/
theorem shiftArgs_spec (tail : List (Option Text)) :
    ∀ (front : List (Option Text)) (x y : Option Text), ∃ behind,
      shiftArgs tail.length front.length (front ++ x :: y :: tail) =
        some (front ++ (tail ++ behind)) := by
  induction tail with
  | nil => exact fun front x y => ⟨[x, y], rfl⟩
  | cons z tail ih =>
      intro front x y
      obtain ⟨behind, hshift⟩ := ih (front ++ [z]) y z
      have hread : (front ++ x :: y :: z :: tail)[front.length + 2]? = some z := by
        rw [List.getElem?_append_right (Nat.le_add_right _ _), Nat.add_sub_cancel_left]
        rfl
      have hset : (front ++ x :: y :: z :: tail).set front.length z =
          front ++ [z] ++ y :: z :: tail := by
        rw [List.set_append_right _ _ (Nat.le_refl _), Nat.sub_self, List.append_assoc]
        rfl
      rw [List.length_append, List.length_singleton] at hshift
      refine ⟨behind, ?_⟩
      rw [List.length_cons, shiftArgs, hread, Option.bind_some, hset, hshift, List.append_assoc]
      rfl

theorem argTexts_map (words : List Text) (behind : List (Option Text)) :
    argTexts (words.map some ++ none :: behind) = words := by
  induction words with
  | nil => rfl
  | cons word words ih => rw [List.map_cons, List.cons_append, argTexts, ih]

theorem read_word (front : List Text) (word : Text) (tail : List (Option Text)) :
    (front.map some ++ some word :: tail)[front.length]? = some (some word) := by
  rw [List.getElem?_append_right (by rw [List.length_map]), List.length_map, Nat.sub_self,
    List.getElem?_cons_zero]

/-- The search at a redirection operator. -/
theorem findRedirect_at (front : List Text) {word : Text} (words : List Text) {n : Nat}
    (hop : word = gt ∨ word = gtGt) :
    (words = [] → findRedirect (front.length + 1) (front.map some ++ [some word, none]) (n + 1)
      front.length = .error .missingPath) ∧
    ∀ path rest, words = path :: rest → ∃ argv,
      findRedirect (front.length + (rest.length + 2))
          (front.map some ++ some word :: some path :: (rest.map some ++ [none])) (n + 1)
          front.length = .ok (front.length + rest.length, argv, some ⟨word = gtGt, path⟩) ∧
        argTexts argv = front ++ rest := by
  constructor
  · rintro rfl
    rw [findRedirect, read_word]
    dsimp only
    rw [if_pos hop, if_pos (Nat.le_refl _)]
  · rintro path rest rfl
    obtain ⟨behind, hshift⟩ :=
      shiftArgs_spec (rest.map some ++ [none]) (front.map some) (some word) (some path)
    have hcount : front.length + (rest.length + 2) - 1 - front.length =
        (rest.map some ++ [none]).length := by
      rw [List.length_append, List.length_map, List.length_singleton]
      omega
    have hargc : front.length + (rest.length + 2) - 2 = front.length + rest.length := by omega
    have hpath : (front.map some ++ some word :: some path :: (rest.map some ++ [none]))[front.length + 1]? =
        some (some path) := by
      rw [List.getElem?_append_right (by rw [List.length_map]; omega), List.length_map,
        Nat.add_sub_cancel_left]
      rfl
    have happend : (decide (word[1]? = some 62)) = decide (word = gtGt) := by
      rcases hop with rfl | rfl
      · rfl
      · rfl
    rw [List.length_map] at hshift
    rw [findRedirect, read_word]
    dsimp only
    rw [if_pos hop, if_neg (by omega), hpath, hcount, hshift, hargc, happend]
    refine ⟨_, rfl, ?_⟩
    have hlist : front.map some ++ (rest.map some ++ [none] ++ behind) =
        (front ++ rest).map some ++ none :: behind := by
      rw [List.map_append, List.append_assoc, List.append_assoc]
      rfl
    have hset : ((front ++ rest).map some ++ none :: behind).set (front.length + rest.length) none =
        (front ++ rest).map some ++ none :: behind := by
      rw [List.set_append_right _ _ (by rw [List.length_map, List.length_append]), List.length_map,
        List.length_append, Nat.sub_self, List.set_cons_zero]
    rw [hlist, hset]
    exact argTexts_map (front ++ rest) behind

/-- The search goes over the words in front of a redirection. -/
theorem findRedirect_spec (words : List Text) :
    ∀ front : List Text,
      (removeRedirect words = none →
        findRedirect (front.length + words.length) (front.map some ++ (words.map some ++ [none]))
          words.length front.length = .error .missingPath) ∧
      ∀ rest redirect, removeRedirect words = some (rest, redirect) → ∃ argc argv,
        findRedirect (front.length + words.length) (front.map some ++ (words.map some ++ [none]))
          words.length front.length = .ok (argc, argv, redirect) ∧ argTexts argv = front ++ rest := by
  induction words with
  | nil =>
      intro front
      refine ⟨fun hnone => by contradiction, fun rest redirect hsome => ?_⟩
      cases hsome
      refine ⟨_, _, rfl, ?_⟩
      rw [List.append_nil]
      exact argTexts_map front []
  | cons word words ih =>
      intro front
      rw [removeRedirect, List.length_cons, List.map_cons, List.cons_append]
      by_cases hop : word = gt ∨ word = gtGt
      · rw [if_pos hop]
        obtain ⟨hmissing, hpath⟩ := findRedirect_at front words (n := words.length) hop
        cases words with
        | nil => exact ⟨fun _ => hmissing rfl, fun rest redirect hsome => by contradiction⟩
        | cons path words =>
            refine ⟨fun hnone => by contradiction, fun rest redirect hsome => ?_⟩
            cases hsome
            obtain ⟨argv, hfind, htexts⟩ := hpath path words rfl
            exact ⟨_, argv, hfind, htexts⟩
      · obtain ⟨hmissing, hsome⟩ := ih (front ++ [word])
        have hlist : (front ++ [word]).map some ++ (words.map some ++ [none]) =
            front.map some ++ some word :: (words.map some ++ [none]) := by
          rw [List.map_append, List.append_assoc]
          rfl
        have hlength : (front ++ [word]).length = front.length + 1 := List.length_append
        have hargc : front.length + 1 + words.length = front.length + (words.length + 1) := by omega
        rw [hlist, hlength, hargc] at hmissing hsome
        rw [if_neg hop, findRedirect, read_word]
        dsimp only
        rw [if_neg hop]
        refine ⟨fun hnone => hmissing (Option.map_eq_none_iff.1 hnone), fun rest redirect h => ?_⟩
        obtain ⟨⟨rest', redirect'⟩, hremove, hpair⟩ := Option.map_eq_some_iff.1 h
        cases hpair
        obtain ⟨argc, argv, hfind, htexts⟩ := hsome rest' redirect' hremove
        refine ⟨argc, argv, hfind, ?_⟩
        rw [htexts, List.append_assoc]
        rfl

end Redirection

section Dispatch

variable {word : Text} {args line kept : List Text} {argv : List (Option Text)}
  {redirect : Option Redirect} {action : Action}

/-- The dispatch on a first word and its arguments. -/
def dispatchWords (word : Text) (args : List Text) (redirect : Option Redirect) : Action :=
  if word = cd then .cd (word :: args)
  else if word = pwd then .pwd (word :: args) redirect
  else if word = exit then .exit (word :: args)
  else (programPath (programName word)).elim .tooLong fun path =>
    .program path (programName word :: args) redirect

theorem dispatch_nil (h : argTexts argv = []) : dispatch argv redirect = .crash := by
  cases argv with
  | nil => rfl
  | cons arg argv =>
      cases arg with
      | none => rfl
      | some word => contradiction

theorem dispatch_cons (h : argTexts argv = word :: args) :
    dispatch argv redirect = dispatchWords word args redirect := by
  cases argv with
  | nil => contradiction
  | cons arg argv =>
      cases arg with
      | none => contradiction
      | some word =>
          rw [argTexts] at h
          obtain ⟨rfl, rfl⟩ := List.cons.inj h
          rfl

/-- `run_command` on the words that the table holds. -/
theorem runCommand_spec (kept : List Text) (hsome : kept ≠ []) :
    (removeRedirect kept = none →
      runCommand kept.length (kept.map some ++ [none]) = .missingPath) ∧
    (∀ redirect, removeRedirect kept = some ([], redirect) →
      runCommand kept.length (kept.map some ++ [none]) = .crash) ∧
    ∀ word args redirect, removeRedirect kept = some (word :: args, redirect) →
      runCommand kept.length (kept.map some ++ [none]) = dispatchWords word args redirect := by
  have hlength : ¬kept.length = 0 := fun hzero => hsome (List.length_eq_zero_iff.1 hzero)
  obtain ⟨hnone, hfind⟩ := findRedirect_spec kept []
  rw [List.length_nil, Nat.zero_add, List.map_nil, List.nil_append] at hnone hfind
  refine ⟨fun h => ?_, fun redirect h => ?_, fun word args redirect h => ?_⟩
  · rw [runCommand, if_neg hlength, hnone h]
  · obtain ⟨argc, argv, hrun, htexts⟩ := hfind [] redirect h
    rw [runCommand, if_neg hlength, hrun]
    exact dispatch_nil htexts
  · obtain ⟨argc, argv, hrun, htexts⟩ := hfind (word :: args) redirect h
    rw [runCommand, if_neg hlength, hrun]
    exact dispatch_cons htexts

/-- A redirection is at most two words. -/
theorem removeRedirect_length {rest : List Text} (h : removeRedirect line = some (rest, redirect)) :
    line.length ≤ rest.length + 2 := by
  induction line generalizing rest with
  | nil => exact Nat.zero_le _
  | cons word line ih =>
      rw [removeRedirect] at h
      by_cases hop : word = gt ∨ word = gtGt
      · rw [if_pos hop] at h
        cases line with
        | nil => contradiction
        | cons path line =>
            cases h
            exact Nat.le_refl _
      · rw [if_neg hop] at h
        obtain ⟨⟨rest', redirect'⟩, hremove, hpair⟩ := Option.map_eq_some_iff.1 h
        cases hpair
        exact Nat.succ_le_succ (ih hremove)

end Dispatch

section Main

variable {word : Text} {args line : List Text} {redirect : Option Redirect} {action : Action}

theorem fullPath_bare (h : 47 ∉ word) : (fullPath word).length = 5 + word.length := by
  rw [fullPath, if_neg h, List.length_append]
  rfl

theorem execution_other (hcd : word ≠ cd) (hpwd : word ≠ pwd) (hexit : word ≠ exit) :
    execution word args redirect =
      .program (fullPath (programName word)) (programName word :: args) redirect := by
  rw [execution, if_neg hcd, if_neg hpwd, if_neg hexit]

/-- A builtin is executed. -/
theorem dispatchWords_builtin (h : word = cd ∨ word = pwd ∨ word = exit) :
    dispatchWords word args redirect = execution word args redirect ∧
      ¬(dispatchWords word args redirect).Reports ∧ 47 ∉ programName word := by
  rcases h with rfl | rfl | rfl
  · exact ⟨rfl, (by rintro (h | h) <;> contradiction), by decide⟩
  · exact ⟨rfl, (by rintro (h | h) <;> contradiction), by decide⟩
  · exact ⟨rfl, (by rintro (h | h) <;> contradiction), by decide⟩

/-- A program is executed from its path, which is cut, or the path is too long. -/
theorem dispatchWords_program (hcd : word ≠ cd) (hpwd : word ≠ pwd) (hexit : word ≠ exit) :
    dispatchWords word args redirect = (programPath (programName word)).elim .tooLong fun path =>
      .program path (programName word :: args) redirect := by
  rw [dispatchWords, if_neg hcd, if_neg hpwd, if_neg hexit]

/-- What the dispatch reports, and when what it executes is right. -/
theorem dispatchWords_cases (word : Text) (args : List Text) (redirect : Option Redirect) :
    (dispatchWords word args redirect).Reports ∧ PathTooLong word ∨
      ¬(dispatchWords word args redirect).Reports ∧ ¬PathTooLong word ∧
        (dispatchWords word args redirect = execution word args redirect ↔
          (47 ∈ programName word → (programName word).length ≤ 127)) := by
  by_cases hbuiltin : word = cd ∨ word = pwd ∨ word = exit
  · obtain ⟨heq, hreports, hslash⟩ := @dispatchWords_builtin _ args redirect hbuiltin
    refine Or.inr ⟨hreports, ?_, fun _ h => absurd h hslash, fun _ => heq⟩
    rintro ⟨hcd, hpwd, hexit, -⟩
    rcases hbuiltin with h | h | h
    · exact hcd h
    · exact hpwd h
    · exact hexit h
  · obtain ⟨hcd, hother⟩ := not_or.1 hbuiltin
    obtain ⟨hpwd, hexit⟩ := not_or.1 hother
    rw [dispatchWords_program hcd hpwd hexit, execution_other hcd hpwd hexit, PathTooLong,
      programPath]
    by_cases hslash : 47 ∈ programName word
    · rw [if_pos hslash, Option.elim_some, fullPath, if_pos hslash]
      refine Or.inr ⟨(by rintro (h | h) <;> contradiction), fun h => h.2.2.2.1 hslash, ?_⟩
      constructor
      · intro heq _
        rw [Action.program.injEq] at heq
        have hlength := congrArg List.length heq.1
        rw [List.length_take] at hlength
        omega
      · intro hlength
        rw [List.take_of_length_le (hlength hslash)]
    · rw [if_neg hslash, fullPath_bare hslash]
      have hdir : binDir.length = 5 := rfl
      by_cases hlong : 128 < binDir.length + (programName word).length + 1
      · rw [if_pos hlong]
        exact Or.inl ⟨Or.inr rfl, hcd, hpwd, hexit, hslash, by omega⟩
      · rw [if_neg hlong, Option.elim_some, fullPath, if_neg hslash]
        refine Or.inr ⟨(by rintro (h | h) <;> contradiction), fun h => ?_,
          fun _ h => absurd h hslash, fun _ => rfl⟩
        have hle := h.2.2.2.2
        omega

/-- The action on the words that the table holds. -/
theorem handled_iff (hkept : line.take (maxArgs - 1) ≠ [])
    (haction : runCommand (line.take (maxArgs - 1)).length
      ((line.take (maxArgs - 1)).map some ++ [none]) = action) :
    Handled line action ↔ LineFits line := by
  obtain ⟨hnone, hnil, hcons⟩ := runCommand_spec _ hkept
  rw [haction] at hnone hnil hcons
  have hline : line ≠ [] := by
    rintro rfl
    exact hkept rfl
  have hshort : ¬maxArgs ≤ line.length → line.take (maxArgs - 1) = line := by
    intro hlength
    exact List.take_of_length_le (by omega)
  rw [Handled, LineFits]
  cases hremove : removeRedirect (line.take (maxArgs - 1)) with
  | none =>
      have hreports : action.Reports := Or.inl (hnone hremove)
      by_cases hfull : maxArgs ≤ line.length
      · rw [if_pos hfull]
        exact ⟨fun _ => trivial, fun _ => hreports⟩
      · rw [hshort hfull] at hremove
        rw [if_neg hfull, hremove]
        exact ⟨fun _ => trivial, fun _ => hreports⟩
  | some result =>
      obtain ⟨rest, redirect⟩ := result
      cases rest with
      | nil =>
          have hcrash := hnil redirect hremove
          have hlength := removeRedirect_length hremove
          have hfull : ¬maxArgs ≤ line.length := by
            intro hfull
            rw [List.length_take, List.length_nil] at hlength
            have hmax : maxArgs = 16 := rfl
            omega
          rw [hshort hfull] at hremove
          rw [if_neg hfull, hremove, hcrash]
          refine ⟨fun h => ?_, fun h => absurd h hline⟩
          rcases h with h | h | h <;> cases h
      | cons word args =>
          have hrun := hcons word args redirect hremove
          rw [hrun]
          rcases dispatchWords_cases word args redirect with ⟨hreports, hlong⟩ |
            ⟨hreports, hlong, hexecution⟩
          · -- an error is reported, whatever the table has cut off
            refine ⟨fun _ => Or.inl hlong, fun _ => ?_⟩
            by_cases hfull : maxArgs ≤ line.length
            · rw [if_pos hfull]
              exact hreports
            · rw [hshort hfull] at hremove
              rw [if_neg hfull, hremove]
              exact Or.inr ⟨hlong.2.2.2.2, hreports⟩
          · by_cases hfull : maxArgs ≤ line.length
            · rw [if_pos hfull]
              refine ⟨fun h => absurd h hreports, fun h => ?_⟩
              rcases h with h | ⟨hlength, -⟩
              · exact absurd h hlong
              · exact absurd hfull (Nat.not_le_of_lt hlength)
            · rw [hshort hfull] at hremove
              rw [if_neg hfull, hremove]
              dsimp only
              rw [hexecution]
              constructor
              · rintro (h | ⟨-, h⟩)
                · exact Or.inr ⟨Nat.lt_of_not_le hfull, h⟩
                · exact absurd h hreports
              · rintro (h | ⟨-, h⟩)
                · exact absurd h hlong
                · exact Or.inl h

/-- The shell handles exactly the lines that fit. -/
theorem lineAction_handled (line : CStr) :
    ∃ passes, ∀ fuel, passes ≤ fuel → ∃ action, lineAction fuel line = some action ∧
      (Handled (words line.chars) action ↔ LineFits (words line.chars)) := by
  refine ⟨line.chars.length + 2, fun fuel hfuel => ?_⟩
  have hsplit := splitArgs_spec line (by decide : 0 < maxArgs) (Nat.lt_of_succ_le hfuel)
  refine ⟨_, congrArg (Option.map _) hsplit, ?_⟩
  by_cases hkept : (words line.chars).take (maxArgs - 1) = []
  · have hnil : words line.chars = [] :=
      (List.take_eq_nil_iff.1 hkept).resolve_left (by decide)
    rw [hnil]
    exact ⟨fun _ => rfl, fun _ => Or.inl rfl⟩
  · exact handled_iff hkept rfl

/-- Of the line `> f` no word is left, and the shell compares the null behind it. -/
theorem lineAction_crash :
    ¬∀ (line : CStr) (fuel : Nat) (action : Action), line.chars.length ≤ 255 →
      lineAction fuel line = some action → Handled (words line.chars) action := by
  intro hall
  have hrun : lineAction 6 ⟨[62, 32, 102], by decide⟩ = some .crash := by decide
  have hwords : words [62, 32, 102] = [gt, [102]] := by decide
  have hhandled := hall _ 6 .crash (by decide) hrun
  rw [hwords] at hhandled
  rcases hhandled with h | h | h
  · contradiction
  · contradiction
  · contradiction

end Main

end Shell

end OsAgentLab
