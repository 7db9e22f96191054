/-
The words of a line: `split_args` fills its table with the first of them.
-/
import Mathlib.Data.List.Forall2
import OsAgentLab.User.Shell

namespace OsAgentLab

namespace Shell

section Words

/-- The words of a line, separated by white space. -/
def words (line : Text) : List Text := (line.splitOnP isSpace).filter fun word => word ≠ []

variable {c : UInt8} {blanks word rest : List UInt8}

theorem words_nil : words [] = [] := rfl

theorem words_blank (hc : isSpace c = true) : words (c :: rest) = words rest := by
  have hsplit := List.splitOnP_append_cons [] rest hc
  rw [words, words, ← List.nil_append (c :: rest), hsplit, List.splitOnP_nil, List.filter_append]
  rfl

theorem words_blanks (hblanks : ∀ c ∈ blanks, isSpace c = true) :
    words (blanks ++ rest) = words rest := by
  induction blanks with
  | nil => rfl
  | cons c blanks ih =>
      rw [List.cons_append, words_blank (hblanks c List.mem_cons_self)]
      exact ih fun c hc => hblanks c (List.mem_cons_of_mem _ hc)

/-- A word in front of white space or at the end. -/
theorem words_word (hsome : word ≠ []) (hword : ∀ c ∈ word, isSpace c = false)
    (hrest : ∀ c ∈ rest.head?, isSpace c = true) : words (word ++ rest) = word :: words rest := by
  have hone : (word.splitOnP isSpace).filter (fun word => word ≠ []) = [word] := by
    rw [List.splitOnP_eq_singleton hword]
    exact List.filter_cons_of_pos (decide_eq_true hsome)
  cases rest with
  | nil => rw [List.append_nil, words, hone, words_nil]
  | cons c rest =>
      have hc := hrest c rfl
      rw [words_blank hc, words, List.splitOnP_append_cons word rest hc, List.filter_append, hone]
      rfl

end Words

section Buffer

/-- A word that starts at a place of the front and ends there at a NUL or with the front. -/
def Ends (front : List UInt8) (start : Nat) (word : Text) : Prop :=
  ∃ tail, front.drop start = word ++ tail ∧ start ≤ front.length ∧ (0 : UInt8) ∉ word ∧
    ∀ c ∈ tail.head?, c = 0

variable {front more word rest blanks : List UInt8} {start fuel : Nat}

theorem Ends.textAt (h : Ends front start word) : textAt (front ++ 0 :: more) start = word := by
  obtain ⟨tail, hdrop, hstart, hnul, htail⟩ := h
  have hword : ∀ c ∈ word, decide (c ≠ 0) = true := by
    intro c hc
    rw [decide_eq_true_iff]
    rintro rfl
    exact hnul hc
  rw [Shell.textAt, List.drop_append_of_le_length hstart, hdrop, List.append_assoc,
    List.takeWhile_append_of_pos hword]
  cases tail with
  | nil => exact List.append_nil word
  | cons c tail =>
      rw [htail c rfl]
      exact List.append_nil word

/-- A NUL behind the front ends its last word. -/
theorem Ends.close (h : Ends front start word) (more : List UInt8) :
    Ends (front ++ 0 :: more) start word := by
  obtain ⟨tail, hdrop, hstart, hnul, htail⟩ := h
  refine ⟨tail ++ 0 :: more, ?_, ?_, hnul, ?_⟩
  · rw [List.drop_append_of_le_length hstart, hdrop, List.append_assoc]
  · rw [List.length_append]
    exact Nat.le_add_right_of_le hstart
  · cases tail with
    | nil => intro c hc; exact (Option.some.inj hc).symm
    | cons d tail => exact htail

theorem Ends.new (hnul : (0 : UInt8) ∉ word) : Ends (front ++ word) front.length word := by
  refine ⟨[], ?_, ?_, hnul, fun c hc => by contradiction⟩
  · rw [List.drop_left, List.append_nil]
  · rw [List.length_append]
    exact Nat.le_add_right _ _

theorem blankOut_spec (hblanks : ∀ c ∈ blanks, isSpace c = true)
    (hrest : ∀ c ∈ rest.head?, isSpace c = false) (hsome : rest ≠ [])
    (hfuel : blanks.length < fuel) :
    blankOut fuel (front ++ (blanks ++ rest)) front.length =
      some (front ++ (List.replicate blanks.length 0 ++ rest), front.length + blanks.length) := by
  induction blanks generalizing front fuel with
  | nil =>
      cases fuel with
      | zero => exact absurd hfuel (Nat.not_lt_zero _)
      | succ fuel =>
          obtain ⟨c, rest, rfl⟩ := List.exists_cons_of_ne_nil hsome
          have hc : ¬(c ≠ 0 ∧ isSpace c = true) := by
            rw [hrest c rfl]
            exact fun hand => Bool.false_ne_true hand.2
          rw [blankOut, List.nil_append, List.getElem?_append_right (Nat.le_refl _), Nat.sub_self,
            List.getElem?_cons_zero, Option.bind_some, if_neg hc]
          rfl
  | cons b blanks ih =>
      cases fuel with
      | zero => exact absurd hfuel (Nat.not_lt_zero _)
      | succ fuel =>
          have hspace := hblanks b List.mem_cons_self
          have hb : b ≠ 0 ∧ isSpace b = true := by
            refine ⟨?_, hspace⟩
            rintro rfl
            revert hspace
            decide
          have hset : (front ++ (b :: blanks ++ rest)).set front.length 0 =
              (front ++ [0]) ++ (blanks ++ rest) := by
            rw [List.set_append_right _ _ (Nat.le_refl _), Nat.sub_self, List.append_assoc]
            rfl
          have hnext := @ih (front ++ [0]) fuel
            (fun c hc => hblanks c (List.mem_cons_of_mem _ hc)) (Nat.lt_of_succ_lt_succ hfuel)
          rw [List.length_append, List.length_singleton] at hnext
          rw [blankOut, List.getElem?_append_right (Nat.le_refl _), Nat.sub_self, List.cons_append,
            List.getElem?_cons_zero, Option.bind_some, if_pos hb, ← List.cons_append, hset, hnext,
            List.length_cons, List.replicate_succ, List.append_assoc, Nat.add_assoc,
            Nat.add_comm 1]
          rfl

theorem skipWord_spec (hword : ∀ c ∈ word, c ≠ 0 ∧ isSpace c = false)
    (hrest : ∀ c ∈ rest.head?, c = 0 ∨ isSpace c = true) (hsome : rest ≠ [])
    (hfuel : word.length < fuel) :
    skipWord (front ++ (word ++ rest)) fuel front.length = some (front.length + word.length) := by
  induction word generalizing front fuel with
  | nil =>
      cases fuel with
      | zero => exact absurd hfuel (Nat.not_lt_zero _)
      | succ fuel =>
          obtain ⟨c, rest, rfl⟩ := List.exists_cons_of_ne_nil hsome
          have hc : ¬(c ≠ 0 ∧ ¬isSpace c = true) := fun hand =>
            (hrest c rfl).elim hand.1 hand.2
          rw [skipWord, List.nil_append, List.getElem?_append_right (Nat.le_refl _), Nat.sub_self,
            List.getElem?_cons_zero, Option.bind_some, if_neg hc]
          rfl
  | cons w word ih =>
      cases fuel with
      | zero => exact absurd hfuel (Nat.not_lt_zero _)
      | succ fuel =>
          obtain ⟨hnul, hspace⟩ := hword w List.mem_cons_self
          have hw : w ≠ 0 ∧ ¬isSpace w = true := ⟨hnul, Bool.eq_false_iff.1 hspace⟩
          have hnext := @ih (front ++ [w]) fuel
            (fun c hc => hword c (List.mem_cons_of_mem _ hc)) (Nat.lt_of_succ_lt_succ hfuel)
          rw [List.length_append, List.length_singleton, List.append_assoc] at hnext
          rw [skipWord, List.getElem?_append_right (Nat.le_refl _), Nat.sub_self, List.cons_append,
            List.getElem?_cons_zero, Option.bind_some, if_pos hw, List.length_cons,
            Nat.add_comm word.length, ← Nat.add_assoc]
          exact hnext

end Buffer

section Loop

variable {front rest : List UInt8} {argv : List Nat} {ws : List Text} {max : Nat}

/-- White space, a word and what follows it. -/
theorem line_cases (hnul : (0 : UInt8) ∉ rest) :
    ∃ blanks word more, rest = blanks ++ (word ++ more) ∧ (∀ c ∈ blanks, isSpace c = true) ∧
      (∀ c ∈ word, c ≠ 0 ∧ isSpace c = false) ∧ (∀ c ∈ more.head?, isSpace c = true) ∧
      (word = [] → more = []) := by
  have hrest : ∀ c ∈ (rest.dropWhile isSpace).head?, isSpace c = false := head_dropWhile
  have hsubset : rest.dropWhile isSpace ⊆ rest := List.dropWhile_subset _
  refine ⟨rest.takeWhile isSpace, (rest.dropWhile isSpace).takeWhile fun c => !isSpace c,
    (rest.dropWhile isSpace).dropWhile fun c => !isSpace c, ?_,
    fun c hc => List.mem_takeWhile_imp hc, ?_, ?_, ?_⟩
  · rw [List.takeWhile_append_dropWhile, List.takeWhile_append_dropWhile]
  · intro c hc
    refine ⟨?_, by simpa using List.mem_takeWhile_imp hc⟩
    rintro rfl
    exact hnul (hsubset (List.takeWhile_subset _ hc))
  · intro c hc
    simpa using head_dropWhile c hc
  · generalize rest.dropWhile isSpace = behind at hrest
    intro hword
    cases behind with
    | nil => rfl
    | cons c behind =>
        rw [List.takeWhile_cons_of_pos (by rw [hrest c rfl]; rfl)] at hword
        contradiction

/-- The words found so far are in front of what is left of the line, the last of them ends
there. -/
structure Found (front rest : List UInt8) (argv : List Nat) (ws : List Text) : Prop where
  ends : List.Forall₂ (Ends front) argv ws
  boundary : argv ≠ [] → ∀ c ∈ rest.head?, isSpace c = true

theorem Found.texts {more : List UInt8} (h : List.Forall₂ (Ends front) argv ws) :
    argv.map (textAt (front ++ 0 :: more)) = ws := by
  induction h with
  | nil => rfl
  | cons hends _ ih => rw [List.map_cons, hends.textAt, ih]

/-- The words in front of blanked white space are ended, whatever follows. -/
theorem Found.close {blanks : List UInt8} (h : List.Forall₂ (Ends front) argv ws)
    (hblanks : argv ≠ [] → blanks ≠ []) (more : List UInt8) :
    List.Forall₂ (Ends (front ++ (List.replicate blanks.length 0 ++ more))) argv ws ∧
      argv.map (textAt (front ++ (List.replicate blanks.length 0 ++ more))) = ws := by
  by_cases hargv : argv = []
  · obtain rfl := hargv
    cases h
    exact ⟨.nil, rfl⟩
  · obtain ⟨b, blanks, rfl⟩ := List.exists_cons_of_ne_nil (hblanks hargv)
    rw [List.length_cons, List.replicate_succ, List.cons_append]
    exact ⟨h.imp fun _ _ hends => hends.close _, Found.texts h⟩

theorem read_behind (k : Nat) (tail : List UInt8) :
    (front ++ (List.replicate k 0 ++ tail))[front.length + k]? = tail.head? := by
  rw [List.getElem?_append_right (Nat.le_add_right _ _), Nat.add_sub_cancel_left,
    List.getElem?_append_right (by rw [List.length_replicate]), List.length_replicate, Nat.sub_self,
    List.head?_eq_getElem?]

theorem take_words (hws : ws.length ≤ max - 1) (l : List Text) :
    (ws ++ l).take (max - 1) = ws ++ l.take (max - 1 - ws.length) := by
  rw [List.take_append, List.take_of_length_le hws]

/-- The loop finds the words of the line until the table is full. -/
theorem splitLoop_spec : ∀ (fuel : Nat) (front rest : List UInt8) (argv : List Nat) (ws : List Text),
    rest.length + 1 < fuel → (0 : UInt8) ∉ rest → Found front rest argv ws → argv.length < max →
    ∃ buf starts, splitLoop max fuel (front ++ (rest ++ [0])) front.length argv = some (buf, starts) ∧
      starts.map (textAt buf) = (ws ++ words rest).take (max - 1) := by
  intro fuel
  induction fuel with
  | zero => intro front rest argv ws hfuel; contradiction
  | succ fuel ih =>
      intro front rest argv ws hfuel hnul hfound hmax
      have hlength := hfound.ends.length_eq
      have hws : ws.length ≤ max - 1 := by omega
      obtain ⟨blanks, word, more, rfl, hblanks, hword, hmore, hlast⟩ := line_cases hnul
      rw [splitLoop, List.getElem?_append_right (Nat.le_refl _), Nat.sub_self]
      by_cases hnil : blanks ++ (word ++ more) = []
      · rw [hnil, List.nil_append, List.getElem?_cons_zero, Option.bind_some, if_pos rfl]
        refine ⟨_, argv, rfl, ?_⟩
        rw [Found.texts hfound.ends, words_nil, List.append_nil, List.take_of_length_le hws]
      · have hfirst : ∃ c, (blanks ++ (word ++ more) ++ [0])[0]? = some c ∧ c ≠ 0 := by
          obtain ⟨c, text, htext⟩ := List.exists_cons_of_ne_nil hnil
          rw [htext] at hnul ⊢
          exact ⟨c, rfl, fun hc => hnul (hc ▸ List.mem_cons_self)⟩
        obtain ⟨c, hc, hcnul⟩ := hfirst
        rw [hc, Option.bind_some, if_neg hcnul, List.append_assoc, List.append_assoc]
        rw [List.length_append, List.length_append] at hfuel
        cases word with
        | nil =>
            obtain rfl := hlast rfl
            have hblanked := @blankOut_spec front [0] blanks fuel hblanks
              (fun c hc => by cases hc; rfl) (List.cons_ne_nil _ _) (by omega)
            have hblank : argv ≠ [] → blanks ≠ [] := by
              rintro - rfl
              exact hnil rfl
            rw [List.nil_append, List.nil_append, hblanked, Option.bind_some]
            dsimp only
            rw [read_behind, List.head?_cons, Option.bind_some, if_pos rfl]
            refine ⟨_, argv, rfl, ?_⟩
            rw [(Found.close hfound.ends hblank [0]).2, words_blanks hblanks,
              List.append_nil, words_nil, List.append_nil, List.take_of_length_le hws]
        | cons w word =>
            have hfirst := hword w List.mem_cons_self
            have hblanked := @blankOut_spec front (w :: word ++ (more ++ [0])) blanks fuel hblanks
              (fun c hc => by cases hc; exact hfirst.2) (List.cons_ne_nil _ _) (by omega)
            have hblank : argv ≠ [] → blanks ≠ [] := by
              rintro hargv rfl
              have hspace := hfound.boundary hargv w rfl
              rw [hfirst.2] at hspace
              exact Bool.false_ne_true hspace
            rw [hblanked, Option.bind_some]
            dsimp only
            rw [read_behind, List.cons_append, List.head?_cons, Option.bind_some,
              if_neg hfirst.1]
            by_cases hfull : max ≤ argv.length + 1
            · rw [if_pos hfull]
              refine ⟨_, argv, rfl, ?_⟩
              have hnone : max - 1 - ws.length = 0 := by omega
              rw [(Found.close hfound.ends hblank _).2, take_words hws, hnone, List.take_zero,
                List.append_nil]
            · rw [if_neg hfull]
              have hnulWord : (0 : UInt8) ∉ w :: word := fun hmem => (hword 0 hmem).1 rfl
              have hnulMore : (0 : UInt8) ∉ more := fun hmem =>
                hnul (List.mem_append_right _ (List.mem_append_right _ hmem))
              have hends := (Found.close hfound.ends hblank (w :: word)).1
              have hplace : (front ++ List.replicate blanks.length 0).length =
                  front.length + blanks.length := by
                rw [List.length_append, List.length_replicate]
              have hnew := @Ends.new (front ++ List.replicate blanks.length 0) _ hnulWord
              have hskip := @skipWord_spec (front ++ List.replicate blanks.length 0) (w :: word)
                (more ++ [0]) fuel hword (by
                  cases more with
                  | nil => intro c hc; cases hc; exact Or.inl rfl
                  | cons d more => exact fun c hc => Or.inr (hmore c hc))
                (List.append_ne_nil_of_right_ne_nil _ (List.cons_ne_nil _ _))
                (by omega)
              rw [hplace] at hskip hnew
              rw [List.append_assoc] at hskip hnew
              have hfound' : Found (front ++ (List.replicate blanks.length 0 ++ w :: word)) more
                  (argv ++ [front.length + blanks.length]) (ws ++ [w :: word]) :=
                ⟨List.rel_append hends (.cons hnew .nil), fun _ => hmore⟩
              obtain ⟨buf, starts, hloop, htexts⟩ := ih _ more _ _
                (by rw [List.length_cons] at hfuel; omega) hnulMore hfound'
                (by rw [List.length_append, List.length_singleton]; omega)
              refine ⟨buf, starts, ?_, ?_⟩
              · rw [List.length_append, List.length_append, List.length_replicate, ← Nat.add_assoc,
                  List.append_assoc, List.append_assoc] at hloop
                rw [← List.cons_append, hskip, Option.bind_some, hloop]
              · rw [htexts, words_blanks hblanks,
                  words_word (List.cons_ne_nil _ _) (fun c hc => (hword c hc).2) hmore,
                  List.append_assoc, List.singleton_append]

/-- `split_args` delivers the first words of the line. -/
theorem splitArgs_spec (line : CStr) {max fuel : Nat} (hmax : 0 < max)
    (hfuel : line.chars.length + 1 < fuel) :
    splitArgs max fuel line = some (((words line.chars).take (max - 1)).length,
      ((words line.chars).take (max - 1)).map some ++ [none]) := by
  obtain ⟨buf, starts, hloop, htexts⟩ := splitLoop_spec fuel [] line.chars [] [] hfuel line.noNul
    ⟨.nil, fun hnil => absurd rfl hnil⟩ hmax
  rw [List.nil_append] at hloop htexts
  rw [splitArgs, ← htexts, List.length_map, List.map_map]
  exact congrArg _ hloop

end Loop

end Shell

end OsAgentLab
