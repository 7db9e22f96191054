/-
`sys_read` of a line from the console: the reduction of the characters that it consumes,
the same with and without echo.
-/
import OsAgentLab.Proc.Sizes
import OsAgentLab.Vm.UserCopies

namespace OsAgentLab

section Reduction

/-- A backspace or a delete removes the last character that is held, a carriage return is
held as a newline. -/
def reduceChar (held : List UInt8) (c : UInt8) : List UInt8 :=
  if c = 8 ∨ c = 127 then held.dropLast else held ++ [if c = 13 then 10 else c]

/-- What is held behind some characters. -/
def reduceLine (chars : List UInt8) : List UInt8 := chars.foldl reduceChar []

/-- A line ends with a newline, or with as many bytes as are asked for. -/
def LineDone (limit : Nat) (held : List UInt8) : Prop :=
  limit ≤ held.length ∨ held.getLast? = some 10

instance (limit : Nat) (held : List UInt8) : Decidable (LineDone limit held) := by
  unfold LineDone
  infer_instance

/-- The characters that a line consumes: no fewer of them are a line. -/
structure LineOf (limit : Nat) (input consumed rest : List UInt8) : Prop where
  eq : input = consumed ++ rest
  done : LineDone limit (reduceLine consumed)
  first : ∀ front back, consumed = front ++ back → back ≠ [] → ¬LineDone limit (reduceLine front)

/-- The line behind what is held already, and the characters behind it. -/
def readLine (limit : Nat) : List UInt8 → List UInt8 → Option (List UInt8 × List UInt8)
  | held, [] => if LineDone limit held then some (held, []) else none
  | held, c :: rest =>
      if LineDone limit held then some (held, c :: rest) else readLine limit (reduceChar held c) rest

variable {limit : Nat} {held input rest line : List UInt8}

theorem readLine_done (h : LineDone limit held) : readLine limit held input = some (held, input) := by
  cases input with
  | nil => exact if_pos h
  | cons c rest => exact if_pos h

theorem readLine_some (h : readLine limit held input = some (line, rest)) :
    ∃ consumed, input = consumed ++ rest ∧ line = consumed.foldl reduceChar held ∧
      LineDone limit line ∧ ∀ front back, consumed = front ++ back → back ≠ [] →
        ¬LineDone limit (front.foldl reduceChar held) := by
  induction input generalizing held with
  | nil =>
      rw [readLine] at h
      by_cases hdone : LineDone limit held
      · rw [if_pos hdone] at h
        cases h
        refine ⟨[], rfl, rfl, hdone, fun front back heq hback => ?_⟩
        exact absurd (List.append_eq_nil_iff.1 heq.symm).2 hback
      · rw [if_neg hdone] at h
        contradiction
  | cons c input ih =>
      rw [readLine] at h
      by_cases hdone : LineDone limit held
      · rw [if_pos hdone] at h
        cases h
        refine ⟨[], rfl, rfl, hdone, fun front back heq hback => ?_⟩
        exact absurd (List.append_eq_nil_iff.1 heq.symm).2 hback
      · rw [if_neg hdone] at h
        obtain ⟨consumed, rfl, hline, hend, hfirst⟩ := ih h
        refine ⟨c :: consumed, rfl, hline, hend, fun front back heq hback => ?_⟩
        cases front with
        | nil => exact hdone
        | cons d front =>
            obtain ⟨rfl, htail⟩ := List.cons.inj heq
            exact hfirst front back htail hback

theorem readLine_none (h : readLine limit held input = none) :
    ∀ consumed rest, input = consumed ++ rest → ¬LineDone limit (consumed.foldl reduceChar held) := by
  induction input generalizing held with
  | nil =>
      rw [readLine] at h
      intro consumed rest heq
      rw [(List.append_eq_nil_iff.1 heq.symm).1]
      intro hdone
      rw [List.foldl_nil] at hdone
      rw [if_pos hdone] at h
      contradiction
  | cons c input ih =>
      rw [readLine] at h
      by_cases hdone : LineDone limit held
      · rw [if_pos hdone] at h
        contradiction
      · rw [if_neg hdone] at h
        intro consumed rest heq
        cases consumed with
        | nil => exact hdone
        | cons d consumed =>
            obtain ⟨rfl, htail⟩ := List.cons.inj heq
            exact ih h consumed rest htail

end Reduction

section Pass

variable {s : Sys} {len : Nat} {held : List UInt8} {complete : Bool} {t : Tty}

/-- The flag of the loop: the line that is held ends with its only newline. -/
structure NewlineFlag (held : List UInt8) (complete : Bool) : Prop where
  ends : complete = true → held.getLast? = some 10
  none : complete = false → (10 : UInt8) ∉ held

theorem NewlineFlag.done_iff (h : NewlineFlag held complete) :
    LineDone (min len 128) held ↔ complete = true ∨ ¬(held.length < len ∧ held.length < 128) := by
  rw [LineDone]
  constructor
  · rintro (hlength | hlast)
    · right
      omega
    · left
      by_contra hopen
      rw [Bool.not_eq_true] at hopen
      exact h.none hopen (List.mem_of_getLast? hlast)
  · rintro (hcomplete | hlength)
    · exact Or.inr (h.ends hcomplete)
    · left
      omega

theorem ttyLinePass_done (h : LineDone (min len 128) held) (hflag : NewlineFlag held complete) :
    ttyLinePass len (held, complete) (s, t) = (.ok none, (s, t)) :=
  congrFun (if_pos (hflag.done_iff.1 h)) (s, t)

theorem ttyLinePass_waits (h : ¬LineDone (min len 128) held) (hflag : NewlineFlag held complete)
    (hinput : t.input = []) : ttyLinePass len (held, complete) (s, t) = (.diverges, (s, t)) := by
  have hopen := fun hstop => h (hflag.done_iff.2 hstop)
  have hwait : uartWait (s, t) = (.diverges, (s, t)) := by rw [uartWait, hinput]
  refine (congrFun (if_neg hopen) (s, t)).trans ?_
  simp only [bind, hwait]

/-- The character as it is held. -/
def cooked (c : UInt8) : UInt8 := if c = 13 then 10 else c

theorem cooked_erase (c : UInt8) : (cooked c = 127 ∨ cooked c = 8) ↔ (c = 8 ∨ c = 127) := by
  rw [cooked]
  by_cases hc : c = 13
  · rw [if_pos hc, hc]
    decide
  · rw [if_neg hc]
    exact Or.comm

theorem NewlineFlag.erase (h : (10 : UInt8) ∉ held) : NewlineFlag held.dropLast false :=
  ⟨fun hfalse => by contradiction, fun _ hmem => h (List.dropLast_subset held hmem)⟩

theorem NewlineFlag.append (h : (10 : UInt8) ∉ held) (c : UInt8) :
    NewlineFlag (held ++ [c]) (c == 10) := by
  constructor
  · intro hc
    rw [List.getLast?_concat, eq_of_beq hc]
  · intro hc hmem
    rcases List.mem_append.1 hmem with hheld | hlast
    · exact h hheld
    · rw [← List.mem_singleton.1 hlast] at hc
      contradiction

/-- A pass consumes one character and holds its reduction, whether it is echoed or not. -/
theorem ttyLinePass_char {c : UInt8} {rest : List UInt8} (h : ¬LineDone (min len 128) held)
    (hflag : NewlineFlag held complete) (hinput : t.input = c :: rest) :
    ∃ sent complete', ttyLinePass len (held, complete) (s, t) =
        (.ok (some (reduceChar held c, complete')), (s, { t with input := rest, output := sent })) ∧
      NewlineFlag (reduceChar held c) complete' := by
  have hopen := fun hstop => h (hflag.done_iff.2 hstop)
  have hnone : (10 : UInt8) ∉ held := by
    apply hflag.none
    by_contra hcomplete
    exact hopen (Or.inl (Bool.not_eq_false _ ▸ hcomplete))
  have hwait : uartWait (s, t) = (.ok (cooked c), (s, { t with input := rest })) := by
    rw [uartWait, hinput]
    rfl
  generalize ht : { t with input := rest } = t' at hwait
  have hlflag : t'.lflag = t.lflag := by rw [← ht]
  have hpass : ttyLinePass len (held, complete) (s, t) =
      (if (cooked c = 127 ∨ cooked c = 8) ∧ t'.lflag &&& ttyEcho ≠ 0 then
        if 0 < held.length then do
          uartPutc 8
          uartPutc 32
          uartPutc 8
          pure (some (held.dropLast, false))
        else pure (some (held, false))
      else do
        if t'.lflag &&& ttyEcho ≠ 0 then uartPutc (cooked c) else pure ()
        if cooked c = 127 ∨ cooked c = 8 then pure (some (held.dropLast, false))
        else pure (some (held ++ [cooked c], cooked c == 10)) : TtyM _) (s, t') := by
    refine (congrFun (if_neg hopen) (s, t)).trans ?_
    rw [Prog.bind_ok hwait, Prog.get_bind]
  rw [hpass, reduceChar]
  subst ht
  by_cases herase : c = 8 ∨ c = 127
  · have hcooked := (cooked_erase c).2 herase
    rw [if_pos herase]
    by_cases hecho : t.lflag &&& ttyEcho ≠ 0
    · rw [if_pos ⟨hcooked, hecho⟩]
      by_cases hlen : 0 < held.length
      · rw [if_pos hlen]
        exact ⟨_, false, rfl, .erase hnone⟩
      · rw [if_neg hlen]
        obtain rfl : held = [] := List.length_eq_zero_iff.1 (Nat.eq_zero_of_not_pos hlen)
        exact ⟨_, false, rfl, .erase hnone⟩
    · rw [if_neg (fun hand => hecho hand.2), if_neg hecho, if_pos hcooked]
      exact ⟨_, false, rfl, .erase hnone⟩
  · have hcooked := fun hor => herase ((cooked_erase c).1 hor)
    rw [if_neg herase, if_neg (fun hand => hcooked hand.1), if_neg hcooked]
    by_cases hecho : t.lflag &&& ttyEcho ≠ 0
    · rw [if_pos hecho]
      exact ⟨_, _, rfl, .append hnone (cooked c)⟩
    · rw [if_neg hecho]
      exact ⟨_, _, rfl, .append hnone (cooked c)⟩

/-- The loop reads the line behind what it holds, or waits for ever. -/
theorem ttyLine_loop (input : List UInt8) :
    ∀ (held : List UInt8) (complete : Bool) (t : Tty) (fuel : Nat), t.input = input →
      input.length < fuel → NewlineFlag held complete →
      ∃ sent, (∃ line rest complete', readLine (min len 128) held input = some (line, rest) ∧
          Prog.loop (ttyLinePass len) fuel (held, complete) (s, t) =
            (.ok (line, complete'), (s, { t with input := rest, output := sent }))) ∨
        readLine (min len 128) held input = none ∧
          Prog.loop (ttyLinePass len) fuel (held, complete) (s, t) =
            (.diverges, (s, { t with input := [], output := sent })) := by
  induction input with
  | nil =>
      rintro held complete t (_ | fuel) hinput hfuel hflag
      · contradiction
      · refine ⟨t.output, ?_⟩
        by_cases hdone : LineDone (min len 128) held
        · left
          refine ⟨held, [], complete, readLine_done hdone, ?_⟩
          rw [Prog.loop, Prog.bind_ok (ttyLinePass_done hdone hflag), ← hinput]
          rfl
        · right
          refine ⟨by rw [readLine, if_neg hdone], ?_⟩
          have hwaits := @ttyLinePass_waits s len held complete t hdone hflag hinput
          rw [Prog.loop, ← hinput]
          simp only [bind, hwaits]
  | cons c input ih =>
      rintro held complete t (_ | fuel) hinput hfuel hflag
      · contradiction
      · by_cases hdone : LineDone (min len 128) held
        · refine ⟨t.output, Or.inl ⟨held, c :: input, complete, readLine_done hdone, ?_⟩⟩
          rw [Prog.loop, Prog.bind_ok (ttyLinePass_done hdone hflag), ← hinput]
          rfl
        · obtain ⟨sent, complete', hpass, hflag'⟩ :=
            @ttyLinePass_char s len held complete t c input hdone hflag hinput
          rw [readLine, if_neg hdone, Prog.loop, Prog.bind_ok hpass, Option.elim_some]
          exact ih (reduceChar held c) complete' { t with input := input, output := sent } fuel rfl
            (Nat.lt_of_succ_lt_succ hfuel) hflag'

end Pass

section Bounds

variable {limit : Nat} {held input rest line : List UInt8}

theorem reduceChar_length (held : List UInt8) (c : UInt8) :
    (reduceChar held c).length ≤ held.length + 1 := by
  rw [reduceChar]
  by_cases herase : c = 8 ∨ c = 127
  · rw [if_pos herase, List.length_dropLast]
    omega
  · rw [if_neg herase, List.length_append, List.length_singleton]

theorem readLine_length (hheld : held.length ≤ limit)
    (h : readLine limit held input = some (line, rest)) : line.length ≤ limit := by
  induction input generalizing held with
  | nil =>
      rw [readLine] at h
      by_cases hdone : LineDone limit held
      · rw [if_pos hdone] at h
        cases h
        exact hheld
      · rw [if_neg hdone] at h
        contradiction
  | cons c input ih =>
      rw [readLine] at h
      by_cases hdone : LineDone limit held
      · rw [if_pos hdone] at h
        cases h
        exact hheld
      · rw [if_neg hdone] at h
        have hroom : held.length < limit := Nat.lt_of_not_le fun hle => hdone (Or.inl hle)
        exact ih ((reduceChar_length held c).trans hroom) h

end Bounds

section Read

/-- A user buffer whose bytes are all mapped. -/
structure MappedBuffer (m : Nat → UInt8) (pt va len : Nat) : Prop where
  paged : PagedRange m pt va len
  apart : TablesApart m pt va len
  mapped : ∀ i, i < len → (sv39User m pt (u64 (va + i))).isSome

theorem MappedBuffer.copyout {mm : Mm} {pt va len : Nat} {src : List UInt8}
    (h : MappedBuffer mm.mem pt va len) (hlen : src.length ≤ len) :
    copyout pt va src mm =
      (.ok (), { mm with mem := storeUser (sv39User mm.mem pt) mm.mem va src }) := by
  have hpaged : PagedRange mm.mem pt va src.length := {
    va_lt := h.paged.va_lt
    len_lt := hlen.trans_lt h.paged.len_lt
    pages := fun i hi => h.paged.pages i (by omega)
    nonzero := fun i hi => h.paged.nonzero i (by omega) }
  have hapart : TablesApart mm.mem pt va src.length := fun i j hi hj =>
    h.apart i j (by omega) (by omega)
  have hbytes := copyout_bytewise hpaged hapart
  have hok := hbytes.ok_iff.2 fun i hi => h.mapped i (by omega)
  exact Prod.ext hok (hbytes.ok_bytes hok)

/-- The kernel state with bytes stored in the user memory of a process. -/
def Sys.storeBuffer (s : Sys) (i buf : Nat) (bytes : List UInt8) : Sys :=
  { s with mm := { s.mm with
      mem := storeUser (sv39User s.mm.mem (s.procs i).pagetable) s.mm.mem buf bytes } }

variable {s : Sys} {i buf len : Nat} {t : Tty}

/-- A canonical read delivers the line behind nothing held. -/
theorem sysRead_line (hcurrent : s.current = some i) (hfile : (s.procs i).ofile 0 = none)
    (hcanon : t.lflag &&& iCanon ≠ 0)
    (hbuf : MappedBuffer s.mm.mem (s.procs i).pagetable buf (min len 128)) :
    ∃ sent, (∃ line rest, readLine (min len 128) [] t.input = some (line, rest) ∧
        sysRead 0 buf len (s, t) =
          (.ok line.length, (s.storeBuffer i buf line, { t with input := rest, output := sent }))) ∨
      readLine (min len 128) [] t.input = none ∧
        sysRead 0 buf len (s, t) = (.diverges, (s, { t with input := [], output := sent })) := by
  have hproc : onSys (procCurrent .inval) (s, t) = (.ok i, (s, t)) := by
    rw [onSys, Prog.zoom, procCurrent, hcurrent]
  have hread : sysRead 0 buf len (s, t) = ttyRead i buf len (s, t) := by
    rw [sysRead, Prog.bind_ok hproc, Prog.get_bind]
    refine (congrFun (if_neg (by decide)) (s, t)).trans ?_
    rw [hfile, Option.elim_none]
    exact congrFun (if_pos rfl) (s, t)
  obtain ⟨sent, hloop⟩ := @ttyLine_loop s len t.input [] false t (t.input.length + 1) rfl
    (Nat.lt_succ_self _) ⟨fun hfalse => by contradiction, fun _ => List.not_mem_nil⟩
  refine ⟨sent, ?_⟩
  rw [hread, ttyRead, Prog.get_bind]
  rcases hloop with ⟨line, rest, complete, hline, hrun⟩ | ⟨hnone, hrun⟩
  · left
    refine ⟨line, rest, hline, ?_⟩
    have hlength := readLine_length (Nat.zero_le _) hline
    have htmp : (Prog.loop (ttyLinePass len) (t.input.length + 1) ([], false) >>=
        fun last => pure last.1 : TtyM (List UInt8)) (s, t) =
        (.ok line, (s, { t with input := rest, output := sent })) := by
      rw [Prog.bind_ok hrun, Prog.pure_apply]
    have hcopy : onSys (onMm (copyout (s.procs i).pagetable buf line))
        (s, { t with input := rest, output := sent }) =
        (.ok (), (s.storeBuffer i buf line, { t with input := rest, output := sent })) :=
      Prog.zoom_apply (Prog.zoom_apply (hbuf.copyout hlength))
    refine (congrFun (if_pos hcanon) (s, t)).trans ?_
    refine (Prog.bind_ok htmp _).trans ((Prog.get_bind _ _).trans ?_)
    rw [Prog.bind_ok (Prog.orElse_ok hcopy _), Prog.pure_apply, cInt_of_lt (by omega)]
  · right
    refine ⟨hnone, ?_⟩
    refine (congrFun (if_pos hcanon) (s, t)).trans ?_
    simp only [bind, hrun]

/-- A line is read the same under any two settings of the terminal that are canonical, with
echo or without: the same result and bytes, the reduction of the same consumed characters. -/
theorem sysRead_echo {input : List UInt8} {lflag lflag' : Nat} {output output' : List UInt8}
    (hcurrent : s.current = some i) (hfile : (s.procs i).ofile 0 = none)
    (hcanon : lflag &&& iCanon ≠ 0) (hcanon' : lflag' &&& iCanon ≠ 0)
    (hbuf : MappedBuffer s.mm.mem (s.procs i).pagetable buf (min len 128)) :
    ∃ sent sent',
      (∃ consumed rest, LineOf (min len 128) input consumed rest ∧
        sysRead 0 buf len (s, ⟨lflag, input, output⟩) =
          (.ok (reduceLine consumed).length,
            (s.storeBuffer i buf (reduceLine consumed), ⟨lflag, rest, sent⟩)) ∧
        sysRead 0 buf len (s, ⟨lflag', input, output'⟩) =
          (.ok (reduceLine consumed).length,
            (s.storeBuffer i buf (reduceLine consumed), ⟨lflag', rest, sent'⟩))) ∨
      (∀ consumed rest, ¬LineOf (min len 128) input consumed rest) ∧
        sysRead 0 buf len (s, ⟨lflag, input, output⟩) = (.diverges, (s, ⟨lflag, [], sent⟩)) ∧
        sysRead 0 buf len (s, ⟨lflag', input, output'⟩) = (.diverges, (s, ⟨lflag', [], sent'⟩)) := by
  obtain ⟨sent, hread⟩ := @sysRead_line s i buf len ⟨lflag, input, output⟩ hcurrent hfile hcanon hbuf
  obtain ⟨sent', hread'⟩ :=
    @sysRead_line s i buf len ⟨lflag', input, output'⟩ hcurrent hfile hcanon' hbuf
  refine ⟨sent, sent', ?_⟩
  rcases hread with ⟨line, rest, hline, hread⟩ | ⟨hnone, hread⟩
  · left
    rcases hread' with ⟨line', rest', hline', hread'⟩ | ⟨hnone', -⟩
    · obtain ⟨rfl, rfl⟩ := Prod.mk.inj (Option.some.inj (hline.symm.trans hline'))
      obtain ⟨consumed, heq, rfl, hdone, hfirst⟩ := readLine_some hline
      exact ⟨consumed, rest, ⟨heq, hdone, hfirst⟩, hread, hread'⟩
    · rw [hline] at hnone'
      contradiction
  · right
    rcases hread' with ⟨line', rest', hline', -⟩ | ⟨-, hread'⟩
    · rw [hnone] at hline'
      contradiction
    · refine ⟨fun consumed rest hline => ?_, hread, hread'⟩
      exact readLine_none hnone consumed rest hline.eq hline.done

/-- A process with two mapped bytes and no file on descriptor 0. -/
def lineSys : Sys :=
  { emptyFileSys with
    mm := threeTables
    procs := fun i => { emptyFileSys.procs i with pagetable := 0x1000 } }

theorem lineSys_buffer :
    MappedBuffer lineSys.mm.mem (lineSys.procs 0).pagetable 0x5ff000 (min 2 128) where
  paged := threeTables_paged
  apart := threeTables_apart
  mapped := by
    have hall : ∀ i, i < 2 → (sv39User threeTables.mem 0x1000 (u64 (0x5ff000 + i))).isSome := by
      decide +kernel
    exact hall

/-- Two bytes are read of `a`, a delete and `bc`, with echo and without. -/
theorem sysRead_echo_two :
    ∃ sent sent',
      (∃ consumed rest, LineOf (min 2 128) [97, 127, 98, 99] consumed rest ∧
        sysRead 0 0x5ff000 2 (lineSys, ⟨10, [97, 127, 98, 99], []⟩) =
          (.ok (reduceLine consumed).length,
            (lineSys.storeBuffer 0 0x5ff000 (reduceLine consumed), ⟨10, rest, sent⟩)) ∧
        sysRead 0 0x5ff000 2 (lineSys, ⟨2, [97, 127, 98, 99], []⟩) =
          (.ok (reduceLine consumed).length,
            (lineSys.storeBuffer 0 0x5ff000 (reduceLine consumed), ⟨2, rest, sent'⟩))) ∨
      (∀ consumed rest, ¬LineOf (min 2 128) [97, 127, 98, 99] consumed rest) ∧
        sysRead 0 0x5ff000 2 (lineSys, ⟨10, [97, 127, 98, 99], []⟩) =
          (.diverges, (lineSys, ⟨10, [], sent⟩)) ∧
        sysRead 0 0x5ff000 2 (lineSys, ⟨2, [97, 127, 98, 99], []⟩) =
          (.diverges, (lineSys, ⟨2, [], sent'⟩)) :=
  sysRead_echo rfl rfl (by decide) (by decide) lineSys_buffer

end Read

end OsAgentLab
