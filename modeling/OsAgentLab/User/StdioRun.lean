/-
Streams that deliver their file once and in order: what every call has to take off the pending
bytes, and exactly when it does.
-/
import Mathlib.Data.List.TakeWhile
import OsAgentLab.User.Stdio

namespace OsAgentLab

namespace Stdio

variable {s s' s₁ s₂ : Stream} {c : UInt8} {i k room : Nat}

section Lines

/-- A line with its newline, or what is left in front of the end. -/
def firstLine : List UInt8 → List UInt8
  | [] => []
  | c :: l => if c = newline then [c] else c :: firstLine l

theorem firstLine_newline (l : List UInt8) : firstLine (newline :: l) = [newline] := if_pos rfl

theorem firstLine_cons {l : List UInt8} (h : c ≠ newline) :
    firstLine (c :: l) = c :: firstLine l := if_neg h

end Lines

section Reading

/-- A read of the call failed. -/
def Failed (s s' : Stream) : Prop := ∃ i, s.reads ≤ i ∧ i < s'.reads ∧ s.answers i = .fails

/-- How many of the next reads are answered in turn, at most `k`. -/
def lasting (answers : Nat → Answer) : Nat → Nat → Nat
  | _, 0 => 0
  | i, k + 1 => if answers i = .fails then 0 else lasting answers (i + 1) k + 1

/-- How many of the next `k` characters come before a read fails; a pushed-back one needs no
read. -/
def Stream.ready (s : Stream) : Nat → Nat
  | 0 => 0
  | k + 1 =>
      if s.ungot = true then lasting s.answers s.reads k + 1 else lasting s.answers s.reads (k + 1)

/-- The ways in which `fgetc` comes back with a character. -/
structure GotChar (s : Stream) (c : UInt8) (s' : Stream) : Prop where
  run : s.fgetc = (some c, s')
  pending : s.pending = c :: s'.pending
  ungot : s'.ungot = false
  answers : s'.answers = s.answers
  reads : s'.reads = if s.ungot = true then s.reads else s.reads + 1
  answered : s.ungot = true ∨ s.answers s.reads ≠ .fails

/-- The ways in which it comes back without one. -/
structure GotNone (s s' : Stream) : Prop where
  run : s.fgetc = (none, s')
  pending : s'.pending = s.pending
  ungot : s.ungot = false
  reads : s'.reads = s.reads + 1
  reason : s.pending = [] ∨ s.answers s.reads = .fails

theorem Stream.pending_ungot (h : s.ungot = true) : s.pending = s.ungotCh :: s.rest := if_pos h

theorem Stream.pending_rest (h : s.ungot = false) : s.pending = s.rest := by
  rw [pending, h]
  exact if_neg Bool.noConfusion

theorem Stream.fgetc_cases (s : Stream) : (∃ c s', GotChar s c s') ∨ ∃ s', GotNone s s' := by
  cases hungot : s.ungot with
  | true =>
      have hrun : s.fgetc = (some s.ungotCh, { s with ungot := false }) := by
        rw [fgetc, if_pos hungot]
      refine Or.inl ⟨_, _, hrun, ?_, rfl, rfl, ?_, Or.inl hungot⟩
      · rw [pending_ungot hungot]
        rfl
      · rw [if_pos hungot]
  | false =>
      have hnot : ¬s.ungot = true := by
        rw [hungot]
        exact Bool.noConfusion
      cases hanswer : s.answers s.reads with
      | fails =>
          have hread : s.read 1 = (none, { s with reads := s.reads + 1 }) := by
            rw [read, hanswer]
          have hrun : s.fgetc = (none, { s with reads := s.reads + 1, err := true }) := by
            rw [fgetc, if_neg hnot, hread]
          exact Or.inr ⟨_, hrun, rfl, hungot, rfl, Or.inr hanswer⟩
      | upTo more =>
          have hone : min 1 (more + 1) = 1 := by omega
          cases hrest : s.rest with
          | nil =>
              have hread : s.read 1 = (some [], { s with reads := s.reads + 1 }) := by
                rw [read, hanswer]
                dsimp only
                rw [hrest, List.take_nil]
                rfl
              have hrun : s.fgetc = (none, { s with reads := s.reads + 1, eof := true }) := by
                rw [fgetc, if_neg hnot, hread]
              refine Or.inr ⟨_, hrun, rfl, hungot, rfl, Or.inl ?_⟩
              rw [pending_rest hungot, hrest]
          | cons c tail =>
              have hread : s.read 1 =
                  (some [c], { s with pos := s.pos + 1, reads := s.reads + 1 }) := by
                rw [read, hanswer]
                dsimp only
                rw [hrest, hone]
                rfl
              have hrun : s.fgetc =
                  (some c, { s with pos := s.pos + 1, reads := s.reads + 1 }) := by
                rw [fgetc, if_neg hnot, hread]
              refine Or.inl ⟨c, _, hrun, ?_, hungot, rfl, ?_, Or.inr ?_⟩
              · have htail : s.file.drop (s.pos + 1) = tail := by
                  rw [← List.drop_drop, ← rest, hrest, List.drop_one, List.tail_cons]
                have hnext : ({ s with pos := s.pos + 1, reads := s.reads + 1 } : Stream).pending =
                    s.file.drop (s.pos + 1) := pending_rest hungot
                rw [pending_rest hungot, hrest, hnext, htail]
              · rw [if_neg hnot]
              · rw [hanswer]
                exact Answer.noConfusion

theorem lasting_le (answers : Nat → Answer) (i k : Nat) : lasting answers i k ≤ k := by
  induction k generalizing i with
  | zero => exact Nat.le_refl 0
  | succ k ih =>
      rw [lasting]
      split
      · exact Nat.zero_le _
      · exact Nat.succ_le_succ (ih (i + 1))

theorem Stream.ready_plain (h : s.ungot = false) (k : Nat) :
    s.ready k = lasting s.answers s.reads k := by
  cases k with
  | zero => rfl
  | succ k =>
      rw [ready, h]
      exact if_neg Bool.noConfusion

theorem Stream.ready_le (s : Stream) (k : Nat) : s.ready k ≤ k := by
  cases k with
  | zero => exact Nat.le_refl 0
  | succ k =>
      rw [ready]
      split
      · exact Nat.succ_le_succ (lasting_le _ _ _)
      · exact lasting_le _ _ _

theorem GotChar.ready (h : GotChar s c s') (k : Nat) : s.ready (k + 1) = s'.ready k + 1 := by
  rw [Stream.ready_plain h.ungot, h.answers, h.reads, Stream.ready]
  rcases h.answered with hungot | hanswer
  · rw [if_pos hungot, if_pos hungot]
  · split
    · rfl
    · rw [lasting, if_neg hanswer]

theorem GotNone.ready (h : GotNone s s') (hne : s.pending ≠ []) (k : Nat) :
    s.ready (k + 1) = 0 := by
  rw [Stream.ready_plain h.ungot, lasting, if_pos (h.reason.resolve_left hne)]

theorem GotNone.failed (h : GotNone s s') (hne : s.pending ≠ []) : Failed s s' := by
  refine ⟨s.reads, Nat.le_refl _, ?_, h.reason.resolve_left hne⟩
  rw [h.reads]
  exact Nat.lt_succ_self _

theorem GotChar.failed_iff (h : GotChar s c s₁) : Failed s₁ s' ↔ Failed s s' := by
  constructor
  · rintro ⟨i, hlow, hhigh, hfails⟩
    rw [h.answers] at hfails
    refine ⟨i, Nat.le_trans ?_ hlow, hhigh, hfails⟩
    rw [h.reads]
    split <;> omega
  · rintro ⟨i, hlow, hhigh, hfails⟩
    refine ⟨i, ?_, hhigh, h.answers ▸ hfails⟩
    rw [h.reads]
    rcases h.answered with hungot | hanswer
    · rw [if_pos hungot]
      exact hlow
    · have hne : i ≠ s.reads := fun heq => hanswer (heq ▸ hfails)
      split <;> omega

theorem not_failed_self (s : Stream) : ¬Failed s s := by
  rintro ⟨i, hlow, hhigh, -⟩
  omega

/-- What the loop of `fgets` reads: the first line as far as there is room and reads are
answered. -/
structure LineRead (s : Stream) (room : Nat) (got : List UInt8) (s' : Stream) : Prop where
  pending : s.pending = got ++ s'.pending
  got_eq : got =
    (firstLine s.pending).take (s.ready (min (firstLine s.pending).length room))
  failed : s.ready (min (firstLine s.pending).length room) <
    min (firstLine s.pending).length room → Failed s s'
  answered : room < (firstLine s.pending).length → s.ready room = room → ¬Failed s s'

theorem Stream.fgetsLoop_read (room : Nat) (s : Stream) :
    LineRead s room (s.fgetsLoop room).1 (s.fgetsLoop room).2 := by
  induction room generalizing s with
  | zero =>
      refine ⟨rfl, ?_, fun h => ?_, fun _ _ => not_failed_self s⟩
      · rw [Nat.min_zero]
        rfl
      · rw [Nat.min_zero] at h
        exact absurd h (Nat.not_lt_zero _)
  | succ room ih =>
      rcases s.fgetc_cases with ⟨c, s₁, h⟩ | ⟨s', h⟩
      · by_cases hc : c = newline
        · -- the newline ends the line
          have hloop : s.fgetsLoop (room + 1) = ([c], s₁) := by
            rw [fgetsLoop, h.run]
            exact if_pos hc
          have hline : firstLine s.pending = [c] := by
            rw [h.pending, hc]
            exact firstLine_newline _
          have hready : s.ready 1 = 1 := h.ready 0
          have hmin : min 1 (room + 1) = 1 := by omega
          rw [hloop]
          refine ⟨h.pending, ?_, fun hlt => ?_, fun hlt => ?_⟩
          · rw [hline, List.length_singleton, hmin, hready]
            rfl
          · rw [hline, List.length_singleton, hmin, hready] at hlt
            exact absurd hlt (Nat.lt_irrefl 1)
          · rw [hline, List.length_singleton] at hlt
            omega
        · have hloop : s.fgetsLoop (room + 1) =
              (c :: (s₁.fgetsLoop room).1, (s₁.fgetsLoop room).2) := by
            rw [fgetsLoop, h.run]
            exact if_neg hc
          have hline : firstLine s.pending = c :: firstLine s₁.pending := by
            rw [h.pending]
            exact firstLine_cons hc
          have hmin : min (firstLine s.pending).length (room + 1) =
              min (firstLine s₁.pending).length room + 1 := by
            rw [hline, List.length_cons]
            omega
          have hrest := ih s₁
          rw [hloop]
          refine ⟨?_, ?_, fun hlt => ?_, fun hlt hready => ?_⟩
          · rw [h.pending, List.cons_append, ← hrest.pending]
          · rw [hmin, h.ready, hline, List.take_succ_cons, ← hrest.got_eq]
          · rw [hmin, h.ready] at hlt
            exact h.failed_iff.1 (hrest.failed (Nat.lt_of_succ_lt_succ hlt))
          · rw [hline, List.length_cons] at hlt
            rw [h.ready] at hready
            exact fun hfailed => hrest.answered (Nat.lt_of_succ_lt_succ hlt)
              (Nat.succ.inj hready) (h.failed_iff.2 hfailed)
      · have hloop : s.fgetsLoop (room + 1) = ([], s') := by
          rw [fgetsLoop, h.run]
        rw [hloop]
        cases hpending : s.pending with
        | nil =>
            refine ⟨?_, ?_, fun hlt => ?_, fun hlt => ?_⟩
            · rw [List.nil_append, h.pending]
            · rw [hpending]
              exact List.take_nil.symm
            · rw [hpending, firstLine, List.length_nil, Nat.zero_min] at hlt
              exact absurd hlt (Nat.not_lt_zero _)
            · rw [hpending] at hlt
              exact absurd hlt (Nat.not_lt_zero _)
        | cons c l =>
            have hne : s.pending ≠ [] := by
              rw [hpending]
              exact List.cons_ne_nil c l
            refine ⟨?_, ?_, fun _ => h.failed hne, fun _ hready => ?_⟩
            · rw [List.nil_append, h.pending]
            · have hpos : (firstLine s.pending).length ≠ 0 := by
                rw [hpending, firstLine]
                split
                · exact Nat.one_ne_zero
                · exact Nat.succ_ne_zero _
              obtain ⟨k, hk⟩ : ∃ k, min (firstLine s.pending).length (room + 1) = k + 1 :=
                ⟨min (firstLine s.pending).length (room + 1) - 1, by omega⟩
              rw [hk, h.ready hne, List.take_zero]
            · rw [h.ready hne] at hready
              exact absurd hready (Nat.succ_ne_zero _).symm

end Reading

section Calls

inductive Call
  | fgetc
  | ungetc (c : Int)
  | fgets (size : Int)
  | getline (buffer : Option Nat) (mallocOk : Bool)
  | fread (size nmemb : Nat)
  | fseek (offset : Int) (whence : Nat)
deriving DecidableEq, Repr

/-- The stream after a call. -/
def Call.next (s : Stream) : Call → Stream
  | .fgetc => s.fgetc.2
  | .ungetc c => (s.ungetc c).2
  | .fgets size => (s.fgets size).2
  | .getline buffer mallocOk => (s.getline buffer mallocOk).2
  | .fread size nmemb => (s.fread size nmemb).2.2
  | .fseek offset whence => (s.fseek offset whence).2

/-- The bytes that a call hands to its caller. -/
def Call.delivered (s : Stream) : Call → List UInt8
  | .fgetc => s.fgetc.1.toList
  | .ungetc _ => []
  | .fgets size => (s.fgets size).1.getD []
  | .getline buffer mallocOk => (s.getline buffer mallocOk).1.getD []
  | .fread size nmemb => (s.fread size nmemb).2.1
  | .fseek _ _ => []

/-- The call takes the bytes that it delivers off the front of the pending ones. -/
def Call.InOrder (s : Stream) (call : Call) : Prop :=
  s.pending = call.delivered s ++ (call.next s).pending

/-- What the caller of a stream may rely on. -/
def Call.Served (s : Stream) : Call → Prop
  | .fgetc => Call.fgetc.InOrder s ∧
      (s.fgetc.1 = none → s.pending = [] ∨ Failed s s.fgetc.2)
  | .ungetc c =>
      match (s.ungetc c).1 with
      | none => (s.ungetc c).2.pending = s.pending
      | some _ => (s.ungetc c).2.pending = UInt8.ofNat (c % 256).toNat :: s.pending
  | .fgets size => (Call.fgets size).InOrder s ∧
      ((Call.fgets size).delivered s = (firstLine s.pending).take (size - 1).toNat ∨
        Failed s (s.fgets size).2)
  | .getline buffer mallocOk => (Call.getline buffer mallocOk).InOrder s ∧
      ((Call.getline buffer mallocOk).delivered s = firstLine s.pending ∨
        Failed s (s.getline buffer mallocOk).2 ∨ Stream.lineBuffer buffer mallocOk = none)
  | .fread size nmemb => (Call.fread size nmemb).InOrder s ∧
      (0 < size → 0 < nmemb →
        (s.fread size nmemb).1 < nmemb ∨
          (s.fread size nmemb).1 * size ≠ ((Call.fread size nmemb).delivered s).length →
        (s.fread size nmemb).2.2.pending = [] ∨ Failed s (s.fread size nmemb).2.2)
  | .fseek offset whence =>
      match (s.fseek offset whence).1 with
      | none => (s.fseek offset whence).2.pending = s.pending
      | some p => (s.fseek offset whence).2.pending = s.file.drop p

/-- How many bytes the next read delivers; `none` when it fails. -/
def Stream.chunk (s : Stream) (count : Nat) : Option Nat :=
  match s.answers s.reads with
  | .fails => none
  | .upTo more => some (min (min count (more + 1)) s.rest.length)

/-- When a call serves its caller. -/
def Call.Meets (s : Stream) : Call → Prop
  | .fread size nmemb => 0 < size → 0 < nmemb → ∀ n, s.chunk (u64 (size * nmemb)) = some n →
      s.ungot = false ∧ n = s.rest.length ∨
        n = size * nmemb ∧ (s.ungot = true → ∀ c ∈ s.rest.take n, c = s.ungotCh)
  | .fseek offset whence => s.ungot = true → s.lseek offset whence = none
  | .getline buffer mallocOk => ∀ n, Stream.lineBuffer buffer mallocOk = some n →
      let line := firstLine s.pending
      let room := (cInt n - 1).toNat
      let got := s.ready (min line.length room)
      0 ∉ line.take got ∧ (line.length ≤ room ∨ got < min line.length room)
  | _ => True

/-- Every call of the sequence is served; every call meets its condition. -/
def RunServed : Stream → List Call → Prop
  | _, [] => True
  | s, call :: calls => call.Served s ∧ RunServed (call.next s) calls

def RunMeets : Stream → List Call → Prop
  | _, [] => True
  | s, call :: calls => call.Meets s ∧ RunMeets (call.next s) calls

theorem served_fgetc (s : Stream) : Call.fgetc.Served s := by
  rcases s.fgetc_cases with ⟨c, s', h⟩ | ⟨s', h⟩
  · rw [Call.Served, Call.InOrder, Call.delivered, Call.next, h.run]
    exact ⟨h.pending, fun hnone => absurd hnone (Option.some_ne_none c)⟩
  · rw [Call.Served, Call.InOrder, Call.delivered, Call.next, h.run]
    refine ⟨h.pending.symm, fun _ => ?_⟩
    by_cases hempty : s.pending = []
    · exact Or.inl hempty
    · exact Or.inr (h.failed hempty)

theorem served_ungetc (s : Stream) (c : Int) : (Call.ungetc c).Served s := by
  rw [Call.Served, Stream.ungetc]
  by_cases hc : c = -1
  · rw [if_pos hc]
  · rw [if_neg hc]
    by_cases hungot : s.ungot = true
    · rw [if_pos hungot]
    · rw [if_neg hungot]
      dsimp only
      rw [Stream.pending_ungot rfl, Stream.pending_rest (Bool.not_eq_true _ ▸ hungot)]
      rfl

theorem fgets_loop (s : Stream) (size : Int) :
    (s.fgets size).1.getD [] = (s.fgetsLoop (size - 1).toNat).1 ∧
      (s.fgets size).2 = (s.fgetsLoop (size - 1).toNat).2 := by
  rw [Stream.fgets]
  by_cases hsize : size ≤ 0
  · have hroom : (size - 1).toNat = 0 := by omega
    rw [if_pos hsize, hroom]
    exact ⟨rfl, rfl⟩
  · rw [if_neg hsize]
    rcases s.fgetsLoop (size - 1).toNat with ⟨got, s'⟩
    cases got <;> exact ⟨rfl, rfl⟩

theorem served_fgets (s : Stream) (size : Int) : (Call.fgets size).Served s := by
  obtain ⟨hgot, hnext⟩ := fgets_loop s size
  have hread := s.fgetsLoop_read (size - 1).toNat
  rw [Call.Served, Call.InOrder, Call.delivered, Call.next, hgot, hnext]
  refine ⟨hread.pending, ?_⟩
  rcases Nat.lt_or_ge (s.ready (min (firstLine s.pending).length (size - 1).toNat))
    (min (firstLine s.pending).length (size - 1).toNat) with hlt | hle
  · exact Or.inr (hread.failed hlt)
  · refine Or.inl ?_
    rw [hread.got_eq, Nat.le_antisymm (s.ready_le _) hle]
    exact List.take_eq_take_iff.2 (by omega)

theorem served_fseek (s : Stream) (offset : Int) (whence : Nat) :
    (Call.fseek offset whence).Served s ↔ (Call.fseek offset whence).Meets s := by
  rw [Call.Served, Call.Meets, Stream.fseek]
  cases hseek : s.lseek offset whence with
  | none => exact ⟨fun _ _ => rfl, fun _ => rfl⟩
  | some p =>
      dsimp only
      cases hungot : s.ungot with
      | false =>
          exact ⟨fun _ h => absurd h Bool.noConfusion, fun _ => rfl⟩
      | true =>
          constructor
          · intro hserved
            have hlen : (s.file.drop p).length + 1 = (s.file.drop p).length :=
              congrArg List.length hserved
            omega
          · intro hmeets
            exact absurd (hmeets rfl) (Option.some_ne_none p)

/-- A character in front of a list may also stand behind it when the list has no other. -/
theorem cons_append_iff {l tail : List UInt8} :
    c :: (l ++ tail) = l ++ c :: tail ↔ ∀ x ∈ l, x = c := by
  induction l with
  | nil => exact ⟨fun _ x hx => absurd hx List.not_mem_nil, fun _ => rfl⟩
  | cons a l ih =>
      rw [List.cons_append, List.cons_append, List.cons.injEq, List.forall_mem_cons]
      constructor
      · rintro ⟨rfl, h⟩
        exact ⟨rfl, ih.1 h⟩
      · rintro ⟨rfl, h⟩
        exact ⟨rfl, ih.2 h⟩

/-- What a `fread` of items with some size does when its read is answered. -/
structure Fetched (s : Stream) (size nmemb n : Nat) (s' : Stream) : Prop where
  run : s.fread size nmemb = (n / size, s.rest.take n, s')
  length : (s.rest.take n).length = n
  ungot : s'.ungot = s.ungot
  ungotCh : s'.ungotCh = s.ungotCh
  rest : s'.rest = s.rest.drop n
  answered : ¬Failed s s'

theorem fread_fetched {size nmemb more : Nat} (hsize : 0 < size) (hnmemb : 0 < nmemb)
    (hanswer : s.answers s.reads = .upTo more) :
    ∃ s', Fetched s size nmemb (min (min (u64 (size * nmemb)) (more + 1)) s.rest.length) s' := by
  have hpos : ¬(size = 0 ∨ nmemb = 0) := by omega
  have htake : s.rest.take (min (u64 (size * nmemb)) (more + 1)) =
      s.rest.take (min (min (u64 (size * nmemb)) (more + 1)) s.rest.length) :=
    List.take_eq_take_iff.2 (by omega)
  have hle : min (min (u64 (size * nmemb)) (more + 1)) s.rest.length ≤ s.rest.length :=
    Nat.min_le_right _ _
  generalize min (min (u64 (size * nmemb)) (more + 1)) s.rest.length = n at htake hle
  have hlength : (s.rest.take n).length = n := by
    rw [List.length_take, Nat.min_eq_left hle]
  have hread : s.read (u64 (size * nmemb)) =
      (some (s.rest.take n), { s with pos := s.pos + n, reads := s.reads + 1 }) := by
    rw [Stream.read, hanswer]
    dsimp only
    rw [htake, hlength]
  have hdrop : s.file.drop (s.pos + n) = s.rest.drop n := by
    rw [Stream.rest, List.drop_drop]
  have hanswered : ∀ s' : Stream, s'.reads = s.reads + 1 → ¬Failed s s' := by
    rintro s' hreads ⟨i, hlow, hhigh, hfails⟩
    obtain rfl : i = s.reads := by omega
    rw [hanswer] at hfails
    cases hfails
  cases hgot : s.rest.take n with
  | nil =>
      have hzero : n = 0 := by
        rw [hgot] at hlength
        exact hlength.symm
      refine ⟨{ s with pos := s.pos + n, reads := s.reads + 1, eof := true }, ?_, ?_, rfl, rfl,
        hdrop, hanswered _ rfl⟩
      · rw [Stream.fread, if_neg hpos, hread, hgot, hzero, Nat.zero_div]
      · exact hlength
  | cons c l =>
      refine ⟨{ s with pos := s.pos + n, reads := s.reads + 1 }, ?_, hlength, rfl, rfl, hdrop,
        hanswered _ rfl⟩
      rw [Stream.fread, if_neg hpos, hread, hgot]
      dsimp only
      rw [← hgot, hlength]

theorem served_fread (s : Stream) (size nmemb : Nat) :
    (Call.fread size nmemb).Served s ↔ (Call.fread size nmemb).Meets s := by
  by_cases hsize : 0 < size
  swap
  · have hzero : size = 0 ∨ nmemb = 0 := by omega
    refine ⟨fun _ h => absurd h hsize, fun _ => ⟨?_, fun h => absurd h hsize⟩⟩
    rw [Call.InOrder, Call.delivered, Call.next, Stream.fread, if_pos hzero]
    rfl
  by_cases hnmemb : 0 < nmemb
  swap
  · have hzero : size = 0 ∨ nmemb = 0 := by omega
    refine ⟨fun _ _ h => absurd h hnmemb, fun _ => ⟨?_, fun _ h => absurd h hnmemb⟩⟩
    rw [Call.InOrder, Call.delivered, Call.next, Stream.fread, if_pos hzero]
    rfl
  have hpos : ¬(size = 0 ∨ nmemb = 0) := by omega
  cases hanswer : s.answers s.reads with
  | fails =>
      have hread : s.read (u64 (size * nmemb)) = (none, { s with reads := s.reads + 1 }) := by
        rw [Stream.read, hanswer]
      have hrun : s.fread size nmemb = (0, [], { s with reads := s.reads + 1, err := true }) := by
        rw [Stream.fread, if_neg hpos, hread]
      have hmeets : (Call.fread size nmemb).Meets s := by
        intro _ _ n hchunk
        rw [Stream.chunk, hanswer] at hchunk
        cases hchunk
      refine ⟨fun _ => hmeets, fun _ => ?_⟩
      rw [Call.Served, Call.InOrder, Call.delivered, Call.next, hrun]
      exact ⟨rfl, fun _ _ _ => Or.inr ⟨s.reads, Nat.le_refl _, Nat.lt_succ_self _, hanswer⟩⟩
  | upTo more =>
      have hchunk : s.chunk (u64 (size * nmemb)) =
          some (min (min (u64 (size * nmemb)) (more + 1)) s.rest.length) := by
        rw [Stream.chunk, hanswer]
      have hle : min (min (u64 (size * nmemb)) (more + 1)) s.rest.length ≤ size * nmemb := by
        have hmod : u64 (size * nmemb) ≤ size * nmemb := Nat.mod_le _ _
        omega
      have hlen : min (min (u64 (size * nmemb)) (more + 1)) s.rest.length ≤ s.rest.length :=
        Nat.min_le_right _ _
      obtain ⟨s', h⟩ := fread_fetched hsize hnmemb hanswer
      generalize min (min (u64 (size * nmemb)) (more + 1)) s.rest.length = n at hchunk hle hlen h
      have hmeets : (Call.fread size nmemb).Meets s ↔ s.ungot = false ∧ n = s.rest.length ∨
          n = size * nmemb ∧ (s.ungot = true → ∀ c ∈ s.rest.take n, c = s.ungotCh) := by
        constructor
        · exact fun hmeets => hmeets hsize hnmemb n hchunk
        · intro hn _ _ m hm
          obtain rfl : n = m := Option.some.inj (hchunk.symm.trans hm)
          exact hn
      have hshort : n / size < nmemb ∨ n / size * size ≠ n ↔ n ≠ size * nmemb := by
        constructor
        · rintro hor rfl
          rw [Nat.mul_div_cancel_left _ hsize, Nat.mul_comm nmemb] at hor
          exact hor.elim (Nat.lt_irrefl _) fun hne => hne rfl
        · intro hne
          refine Or.inl ((Nat.div_lt_iff_lt_mul hsize).2 ?_)
          rw [Nat.mul_comm]
          omega
      have hempty : s'.pending = [] ↔ s.ungot = false ∧ n = s.rest.length := by
        cases hungot : s.ungot with
        | true =>
            rw [Stream.pending_ungot (h.ungot.trans hungot)]
            exact ⟨fun heq => absurd heq (List.cons_ne_nil _ _), fun heq => Bool.noConfusion heq.1⟩
        | false =>
            rw [Stream.pending_rest (h.ungot.trans hungot), h.rest, List.drop_eq_nil_iff]
            exact ⟨fun hge => ⟨rfl, by omega⟩, fun heq => by omega⟩
      have horder : s.pending = s.rest.take n ++ s'.pending ↔
          (s.ungot = true → ∀ c ∈ s.rest.take n, c = s.ungotCh) := by
        cases hungot : s.ungot with
        | true =>
            rw [Stream.pending_ungot (h.ungot.trans hungot), Stream.pending_ungot hungot, h.rest,
              h.ungotCh, ← cons_append_iff, List.take_append_drop]
            exact ⟨fun heq _ => heq, fun heq => heq rfl⟩
        | false =>
            rw [Stream.pending_rest (h.ungot.trans hungot), Stream.pending_rest hungot, h.rest,
              List.take_append_drop]
            exact ⟨fun _ heq => Bool.noConfusion heq, fun _ => rfl⟩
      rw [hmeets, Call.Served, Call.InOrder, Call.delivered, Call.next, h.run]
      dsimp only
      rw [horder, h.length, hshort, hempty]
      constructor
      · rintro ⟨hall, hfull⟩
        by_cases hn : n = size * nmemb
        · exact Or.inr ⟨hn, hall⟩
        · exact Or.inl ((hfull hsize hnmemb hn).resolve_right h.answered)
      · rintro (⟨hungot, hn⟩ | ⟨hn, hall⟩)
        · exact ⟨fun htrue => absurd (hungot.symm.trans htrue) Bool.noConfusion,
            fun _ _ _ => Or.inl ⟨hungot, hn⟩⟩
        · exact ⟨hall, fun _ _ hne => absurd hn hne⟩

/-- `strlen` leaves the characters as they are when there is no NUL among them. -/
theorem takeWhile_eq_iff (l : List UInt8) : l.takeWhile (· ≠ 0) = l ↔ 0 ∉ l := by
  rw [List.takeWhile_eq_self_iff]
  constructor
  · exact fun hall hin => of_decide_eq_true (hall 0 hin) rfl
  · exact fun hnot c hc => decide_eq_true fun heq => hnot (heq ▸ hc)

theorem measured_fgets (s : Stream) (size : Int) :
    (Stream.measured (s.fgets size)).1.getD [] =
        ((s.fgetsLoop (size - 1).toNat).1).takeWhile (· ≠ 0) ∧
      (Stream.measured (s.fgets size)).2 = (s.fgetsLoop (size - 1).toNat).2 := by
  obtain ⟨hgot, hnext⟩ := fgets_loop s size
  rw [← hgot, ← hnext]
  rcases s.fgets size with ⟨r, s'⟩
  cases r <;> exact ⟨rfl, rfl⟩

/-- `getline` with a buffer is `fgets`, and then `strlen`. -/
theorem getline_run {buffer : Option Nat} {mallocOk : Bool} {n : Nat}
    (h : Stream.lineBuffer buffer mallocOk = some n) :
    (s.getline buffer mallocOk).1.getD [] =
        ((s.fgetsLoop (cInt n - 1).toNat).1).takeWhile (· ≠ 0) ∧
      (s.getline buffer mallocOk).2 = (s.fgetsLoop (cInt n - 1).toNat).2 := by
  rw [Stream.getline, h]
  exact measured_fgets s (cInt n)

theorem served_getline (s : Stream) (buffer : Option Nat) (mallocOk : Bool) :
    (Call.getline buffer mallocOk).Served s ↔ (Call.getline buffer mallocOk).Meets s := by
  rw [Call.Served, Call.Meets, Call.InOrder, Call.delivered, Call.next]
  cases hbuffer : Stream.lineBuffer buffer mallocOk with
  | none =>
      have hrun : s.getline buffer mallocOk = (none, s) := by
        rw [Stream.getline, hbuffer]
      rw [hrun]
      exact ⟨fun _ n hn => absurd hn.symm (Option.some_ne_none n),
        fun _ => ⟨rfl, Or.inr (Or.inr rfl)⟩⟩
  | some n =>
      obtain ⟨hgot, hnext⟩ := getline_run (s := s) hbuffer
      have hread := s.fgetsLoop_read (cInt n - 1).toNat
      have hready := s.ready_le (min (firstLine s.pending).length (cInt n - 1).toNat)
      rw [hgot, hnext]
      generalize hroom : (cInt n - 1).toNat = room at hread hready
      generalize s.fgetsLoop room = res at hread
      obtain ⟨got, s'⟩ := res
      have horder : s.pending = got.takeWhile (· ≠ 0) ++ s'.pending ↔ 0 ∉ got := by
        rw [hread.pending, List.append_left_inj, ← takeWhile_eq_iff]
        exact eq_comm
      have hserved : (0 ∉ got ∧ (got.takeWhile (· ≠ 0) = firstLine s.pending ∨
            Failed s s' ∨ some n = none)) ↔
          0 ∉ got ∧ ((firstLine s.pending).length ≤ room ∨
            s.ready (min (firstLine s.pending).length room) <
              min (firstLine s.pending).length room) := by
        refine and_congr_right fun hnul => ?_
        rw [(takeWhile_eq_iff got).2 hnul]
        constructor
        · rintro (hall | hfailed | hnone)
          · have hlen := congrArg List.length (hread.got_eq.symm.trans hall)
            rw [List.length_take] at hlen
            omega
          · by_contra hnot
            obtain ⟨hlong, hlast⟩ := not_or.1 hnot
            have hmin : min (firstLine s.pending).length room = room := by omega
            rw [hmin] at hlast hready
            exact hread.answered (by omega) (by omega) hfailed
          · exact absurd hnone (Option.some_ne_none n)
        · intro hor
          rcases Nat.lt_or_ge (s.ready (min (firstLine s.pending).length room))
            (min (firstLine s.pending).length room) with hlt | hge
          · exact Or.inr (Or.inl (hread.failed hlt))
          · refine Or.inl (hread.got_eq.trans (List.take_of_length_le ?_))
            omega
      have hgotten : got = (firstLine s.pending).take
          (s.ready (min (firstLine s.pending).length room)) := hread.got_eq
      dsimp only
      rw [horder, hserved, hgotten]
      constructor
      · intro hmeets m hm
        obtain rfl : n = m := Option.some.inj hm
        rw [hroom]
        exact hmeets
      · intro hmeets
        have hn := hmeets n rfl
        rw [hroom] at hn
        exact hn

/-- A call serves its caller exactly when it meets its condition. -/
theorem Call.served_iff (s : Stream) (call : Call) : call.Served s ↔ call.Meets s := by
  cases call with
  | fgetc => exact ⟨fun _ => trivial, fun _ => served_fgetc s⟩
  | ungetc c => exact ⟨fun _ => trivial, fun _ => served_ungetc s c⟩
  | fgets size => exact ⟨fun _ => trivial, fun _ => served_fgets s size⟩
  | getline buffer mallocOk => exact served_getline s buffer mallocOk
  | fread size nmemb => exact served_fread s size nmemb
  | fseek offset whence => exact served_fseek s offset whence

end Calls

section Runs

/-- A sequence of calls is served throughout exactly when each call meets its condition in the
state where it is made. -/
theorem stream_served_iff (s : Stream) (calls : List Call) :
    RunServed s calls ↔ RunMeets s calls := by
  induction calls generalizing s with
  | nil => exact Iff.rfl
  | cons call calls ih => exact and_congr (call.served_iff s) (ih (call.next s))

/-- The bytes that the calls of a sequence deliver, in turn, and the stream behind them. -/
def deliveredBy : Stream → List Call → List UInt8
  | _, [] => []
  | s, call :: calls => call.delivered s ++ deliveredBy (call.next s) calls

def behind : Stream → List Call → Stream
  | s, [] => s
  | s, call :: calls => behind (call.next s) calls

/-- The calls that only read. -/
def Call.Reads : Call → Prop
  | .ungetc _ => False
  | .fseek _ _ => False
  | _ => True

theorem Call.Served.inOrder {call : Call} (h : call.Served s) (hreads : call.Reads) :
    call.InOrder s := by
  cases call with
  | fgetc => exact h.1
  | ungetc c => exact hreads.elim
  | fgets size => exact h.1
  | getline buffer mallocOk => exact h.1
  | fread size nmemb => exact h.1
  | fseek offset whence => exact hreads.elim

/-- Between two calls of `fseek` or `ungetc`, what is delivered is what was pending, once and in
order. -/
theorem RunServed.delivered {calls : List Call} (h : RunServed s calls)
    (hreads : ∀ call ∈ calls, call.Reads) :
    s.pending = deliveredBy s calls ++ (behind s calls).pending := by
  induction calls generalizing s with
  | nil => rfl
  | cons call calls ih =>
      obtain ⟨hcall, hrest⟩ := h
      have hrest' := ih hrest fun c hc => hreads c (List.mem_cons_of_mem _ hc)
      have horder := hcall.inOrder (hreads call List.mem_cons_self)
      rw [Call.InOrder] at horder
      rw [horder, deliveredBy, behind, List.append_assoc, ← hrest']

/-- A file of two bytes, just opened. -/
def twoBytes : Stream where
  file := [97, 98]
  pos := 0
  answers := fun _ => .upTo 4096
  reads := 0
  eof := false
  err := false
  ungot := false
  ungotCh := 0

/-- `fread` passes a pushed-back character over. -/
theorem stream_not_served : ¬∀ s calls, RunServed s calls := by
  intro hall
  have hserved := hall twoBytes [.fgetc, .ungetc 97, .fread 1 1]
  have horder : ([97, 98] : List UInt8) = [98, 97] := hserved.2.2.1.1
  exact absurd horder (by decide)

end Runs

end Stdio

end OsAgentLab
