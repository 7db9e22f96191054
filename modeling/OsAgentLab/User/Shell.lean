/-
The shell's handling of a line: `split_args` and what `run_command` executes.
-/
import OsAgentLab.CString

namespace OsAgentLab

namespace Shell

/-- A string in the line buffer. -/
abbrev Text := List UInt8

/-- `MAX_ARGS`. -/
def maxArgs : Nat := 16

section Split

/-- `while (*p && isspace(*p)) *p++ = '\0'`. -/
def blankOut : Nat → List UInt8 → Nat → Option (List UInt8 × Nat)
  | 0, _, _ => none
  | fuel + 1, buf, p =>
      (buf[p]?).bind fun c =>
        if c ≠ 0 ∧ isSpace c = true then blankOut fuel (buf.set p 0) (p + 1) else some (buf, p)

/-- `while (*p && !isspace(*p)) p++`. -/
def skipWord (buf : List UInt8) : Nat → Nat → Option Nat
  | 0, _ => none
  | fuel + 1, p =>
      (buf[p]?).bind fun c =>
        if c ≠ 0 ∧ ¬isSpace c = true then skipWord buf fuel (p + 1) else some p

/-- The loop of `split_args`, with the starts of the words found so far. -/
def splitLoop (max : Nat) : Nat → List UInt8 → Nat → List Nat → Option (List UInt8 × List Nat)
  | 0, _, _, _ => none
  | fuel + 1, buf, p, argv =>
      (buf[p]?).bind fun c =>
        if c = 0 then some (buf, argv)
        else
          (blankOut fuel buf p).bind fun (buf, p) =>
            (buf[p]?).bind fun c =>
              if c = 0 then some (buf, argv)
              else if max ≤ argv.length + 1 then some (buf, argv)
              else (skipWord buf fuel p).bind fun q => splitLoop max fuel buf q (argv ++ [p])

/-- The string at a place of the buffer. -/
def textAt (buf : List UInt8) (p : Nat) : Text := (buf.drop p).takeWhile fun c => c ≠ 0

/-- `split_args`: `argc` and the strings in `argv`, the last one null. -/
def splitArgs (max fuel : Nat) (line : CStr) : Option (Nat × List (Option Text)) :=
  (splitLoop max fuel (line.chars ++ [0]) 0 []).map fun (buf, starts) =>
    (starts.length, starts.map (fun p => some (textAt buf p)) ++ [none])

end Split

section Run

/-- `">"`, `">>"`, `"cd"`, `"pwd"` and `"exit"`. -/
def gt : Text := [62]
def gtGt : Text := [62, 62]
def cd : Text := [99, 100]
def pwd : Text := [112, 119, 100]
def exit : Text := [101, 120, 105, 116]

/-- `"vim"`, `"vi"`, `"shutdown"`, `"poweroff"` and `"/bin/"`. -/
def vim : Text := [118, 105, 109]
def vi : Text := [118, 105]
def shutdown : Text := [115, 104, 117, 116, 100, 111, 119, 110]
def poweroff : Text := [112, 111, 119, 101, 114, 111, 102, 102]
def binDir : Text := [47, 98, 105, 110, 47]

/-- A redirection: whether it appends, and the path. -/
structure Redirect where
  append : Bool
  path : Text
deriving DecidableEq, Repr

/-- What `run_command` does; the arguments are those in front of the null. -/
inductive Action
  | nothing
  | crash
  | missingPath
  | tooLong
  | cd (argv : List Text)
  | pwd (argv : List Text) (redirect : Option Redirect)
  | exit (argv : List Text)
  | program (path : Text) (argv : List Text) (redirect : Option Redirect)
deriving DecidableEq, Repr

/-- `for (j = i; j + 2 <= argc; j++) argv[j] = argv[j + 2]`, with `n` passes. -/
def shiftArgs : Nat → Nat → List (Option Text) → Option (List (Option Text))
  | 0, _, argv => some argv
  | n + 1, j, argv => (argv[j + 2]?).bind fun arg => shiftArgs n (j + 1) (argv.set j arg)

/-- The search for a redirection from `i` on, with `n` arguments left: `argc`, `argv` and the
redirection behind it. -/
def findRedirect (argc : Nat) (argv : List (Option Text)) :
    Nat → Nat → Except Action (Nat × List (Option Text) × Option Redirect)
  | 0, _ => .ok (argc, argv, none)
  | n + 1, i =>
      match argv[i]? with
      | some (some word) =>
          if word = gt ∨ word = gtGt then
            if argc ≤ i + 1 then .error .missingPath
            else
              match argv[i + 1]?, shiftArgs (argc - 1 - i) i argv with
              | some (some path), some shifted =>
                  .ok (argc - 2, shifted.set (argc - 2) none, some ⟨word[1]? = some 62, path⟩)
              | _, _ => .error .crash
          else findRedirect argc argv n (i + 1)
      | _ => .error .crash

/-- The arguments in front of the null. -/
def argTexts : List (Option Text) → List Text
  | some word :: argv => word :: argTexts argv
  | _ => []

/-- The name under which a word is executed. -/
def programName (word : Text) : Text :=
  if word = vim then vi else if word = shutdown then poweroff else word

/-- `path`, of `char path[128]`; `none` if the command is too long. -/
def programPath (name : Text) : Option Text :=
  if 47 ∈ name then some (name.take 127)
  else if 128 < binDir.length + name.length + 1 then none
  else some (binDir ++ name)

/-- The dispatch on `argv[0]`. -/
def dispatch (argv : List (Option Text)) (redirect : Option Redirect) : Action :=
  match argv with
  | some word :: rest =>
      if word = cd then .cd (word :: argTexts rest)
      else if word = pwd then .pwd (word :: argTexts rest) redirect
      else if word = exit then .exit (word :: argTexts rest)
      else
        (programPath (programName word)).elim .tooLong fun path =>
          .program path (programName word :: argTexts rest) redirect
  | _ => .crash

/-- `run_command`. -/
def runCommand (argc : Nat) (argv : List (Option Text)) : Action :=
  if argc = 0 then .nothing
  else
    match findRedirect argc argv argc 0 with
    | .error action => action
    | .ok (_, argv, redirect) => dispatch argv redirect

/-- What the shell does with a line. -/
def lineAction (fuel : Nat) (line : CStr) : Option Action :=
  (splitArgs maxArgs fuel line).map fun (argc, argv) => runCommand argc argv

end Run

end Shell

end OsAgentLab
