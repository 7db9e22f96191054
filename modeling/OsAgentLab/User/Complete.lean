/-
Tab completion in the shell: the matches of a directory stream, their sorting and common
start, and the tab branch of `read_line`.
-/
import Mathlib.Data.List.DropRight
import OsAgentLab.User.Shell

namespace OsAgentLab

namespace Shell

/-- `MAX_LINE` and `MAX_MATCHES`. -/
def maxLine : Nat := 256
def maxMatches : Nat := 64

/-- `'/'`, `"."`, `".."` and `"/bin"`. -/
def slash : UInt8 := 47
def dot : Text := [46]
def dotDot : Text := [46, 46]
def bin : Text := [47, 98, 105, 110]

section Collect

/-- `tolower`. -/
def tolower (c : UInt8) : UInt8 := if 65 ≤ c ∧ c ≤ 90 then c - 65 + 97 else c

/-- An entry of a directory stream: its name, and whether its type is `DT_DIR`. -/
structure Entry where
  name : Text
  isDir : Bool
deriving DecidableEq, Repr

/-- `starts_with_ci`. -/
def startsWithCi : Text → Text → Bool
  | _, [] => true
  | [], _ :: _ => false
  | a :: s, b :: start => if tolower a ≠ tolower b then false else startsWithCi s start

/-- `ci_cmp`. -/
def ciCmp : Text → Text → Int
  | a :: s, b :: t =>
      if tolower a ≠ tolower b then (tolower a).toNat - (tolower b).toNat else ciCmp s t
  | s, t => (s.headD 0).toNat - (t.headD 0).toNat

/-- `if (ci_cmp(matches[i].name, matches[j].name) > 0)` with its swap. -/
def swapMatch (matches' : List Entry) (i j : Nat) : List Entry :=
  match matches'[i]?, matches'[j]? with
  | some a, some b => if 0 < ciCmp a.name b.name then (matches'.set i b).set j a else matches'
  | _, _ => matches'

/-- `sort_matches`. -/
def sortMatches (matches' : List Entry) (count : Nat) : List Entry :=
  (List.range count).foldl (fun ms i =>
    (List.range (count - (i + 1))).foldl (fun ms k => swapMatch ms i (i + 1 + k)) ms) matches'

/-- The loop of `collect_matches` over the directory stream. -/
def collectLoop (start : Text) (max : Nat) : List Entry → List Entry → List Entry
  | [], out => out
  | entry :: stream, out =>
      if entry.name = dot ∨ entry.name = dotDot then collectLoop start max stream out
      else if ¬startsWithCi entry.name start = true then collectLoop start max stream out
      else if max ≤ out.length then out
      else collectLoop start max stream (out ++ [⟨entry.name.take 255, entry.isDir⟩])

/-- `collect_matches`; a directory that cannot be opened has none. -/
def collectMatches (dir : Option (List Entry)) (start : Text) (max : Nat) : List Entry :=
  match dir with
  | none => []
  | some stream =>
      let out := collectLoop start max stream []
      sortMatches out out.length

/-- `for (; j < limit; j++) if (tolower(a[j]) != tolower(b[j])) break`, with `n` passes left. -/
def agreeLoop (a b : Text) : Nat → Nat → Nat
  | 0, j => j
  | n + 1, j =>
      if (a[j]?).map tolower ≠ (b[j]?).map tolower then j else agreeLoop a b n (j + 1)

/-- `common_prefix_len`. -/
def commonPrefixLen (matches' : List Entry) (start : Text) : Nat :=
  match matches' with
  | [] => start.length
  | first :: rest =>
      let limit := rest.foldl
        (fun limit m => agreeLoop first.name m.name (min limit m.name.length) 0) first.name.length
      if limit < start.length then start.length else limit

end Collect

section Tab

/-- `while (start > 0 && !isspace(buf[start - 1])) start--`. -/
def wordStart (buf : List UInt8) : Nat → Nat
  | 0 => 0
  | start + 1 => if isSpace (buf.getD start 0) = true then start + 1 else wordStart buf start

/-- `strrchr(token, '/')`, as the string in front of the last slash and the one behind it. -/
def lastSlash : Text → Option (Text × Text)
  | [] => none
  | c :: rest =>
      match lastSlash rest with
      | some (front, behind) => some (c :: front, behind)
      | none => if c = slash then some ([], rest) else none

/-- `scan_dir` and `prefix` of a word that starts at `start`. -/
def scanDir (start : Nat) (token : Text) : Text × Text :=
  if start = 0 ∧ lastSlash token = none then (bin, token)
  else
    match lastSlash token with
    | none => (dot, token)
    | some ([], behind) => ([slash], behind)
    | some (front, behind) => (front.take 255, behind)

/-- `memcpy(buf + at, src, n)`. -/
def copyIn (buf : List UInt8) (place : Nat) (src : List UInt8) : List UInt8 :=
  buf.take place ++ src ++ buf.drop (place + src.length)

/-- The characters that the matches have in common behind the typed ones. -/
def appendCommon (size : Nat) (buf : List UInt8) (len : Nat) (full start : Text) (common : Nat) :
    List UInt8 × Nat :=
  if start.length < common then
    let add := common - start.length
    let add := if size ≤ len + add then size - len - 1 else add
    if 0 < add then
      let buf := copyIn buf len ((full.drop start.length).take add)
      (buf.set (len + add) 0, len + add)
    else (buf, len)
  else (buf, len)

/-- The `'/'` behind the only match. -/
def appendSlash (size : Nat) (buf : List UInt8) (len : Nat) (only : Entry) : List UInt8 × Nat :=
  if only.isDir = true ∧ len + 1 < size ∧ (len = 0 ∨ buf[len - 1]? ≠ some slash) then
    ((buf.set len slash).set (len + 1) 0, len + 1)
  else (buf, len)

/-- The tab branch of `read_line`: the buffer and the length behind it.  `memory` says whether
`malloc` returns a table, `dirs` what the directories hold. -/
def completeTab (size : Nat) (memory : Bool) (dirs : Text → Option (List Entry))
    (buf : List UInt8) (len : Nat) : List UInt8 × Nat :=
  let buf := buf.set len 0
  let start := wordStart buf len
  let token := ((buf.drop start).take (min (len - start) 255)).takeWhile fun c => c ≠ 0
  let (dir, typed) := scanDir start token
  if memory = false then (buf, len)
  else
    match collectMatches (dirs dir) typed maxMatches with
    | [] => (buf, len)
    | first :: rest =>
        let common := commonPrefixLen (first :: rest) typed
        let (buf, len) := appendCommon size buf len first.name typed common
        if rest = [] then appendSlash size buf len first else (buf, len)

end Tab

end Shell

end OsAgentLab
