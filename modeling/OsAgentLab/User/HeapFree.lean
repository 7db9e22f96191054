/-
`free` keeps the heap: the search stops at the place in front of the block, and the
block is joined with its neighbours on both sides.
-/
import OsAgentLab.User.HeapInv

namespace OsAgentLab

section Search

variable {h : UserHeap} {bp p z : Nat} {l : List Nat}

/-- Below `bp` the search goes on to the next place. -/
theorem freeFind_up (htrail : Trail h.next p l) (hsorted : (p :: l).Pairwise (· < ·))
    (hlt : ∀ x ∈ l, x < bp) (fuel : Nat) :
    freeFind h bp (fuel + l.length) p = freeFind h bp fuel (l.getLastD p) := by
  induction l generalizing p with
  | nil => rfl
  | cons x rest ih =>
      obtain ⟨hnext, htrail⟩ := htrail
      obtain ⟨hp, hsorted⟩ := List.pairwise_cons.mp hsorted
      have hpx := hp x List.mem_cons_self
      have hxb := hlt x List.mem_cons_self
      rw [List.length_cons, List.getLastD_cons, ← Nat.add_assoc, freeFind, hnext,
        if_neg (by omega), if_neg (by omega)]
      exact ih htrail hsorted fun y hy => hlt y (List.mem_cons_of_mem x hy)

/-- Above `bp` the search goes on to the end of the list. -/
theorem freeFind_down (htrail : Trail h.next p (l ++ [z])) (hsorted : (p :: l).Pairwise (· < ·))
    (hlt : ∀ x ∈ p :: l, bp < x) (hz : z < bp) (fuel : Nat) :
    freeFind h bp (fuel + l.length + 1) p = freeFind h bp fuel z := by
  have hp := hlt p List.mem_cons_self
  induction l generalizing p with
  | nil =>
      have hnext : h.next p = z := htrail.1
      rw [List.length_nil, Nat.add_zero, freeFind, hnext, if_neg (by omega), if_neg (by omega)]
  | cons x rest ih =>
      obtain ⟨hnext, htrail⟩ := htrail
      obtain ⟨hx, hsorted⟩ := List.pairwise_cons.mp hsorted
      have hpx := hx x List.mem_cons_self
      have hbx := hlt x (List.mem_cons_of_mem p List.mem_cons_self)
      rw [freeFind, hnext, if_neg (by omega), if_neg (by omega), List.length_cons,
        ← Nat.add_assoc]
      exact ih htrail hsorted (fun y hy => hlt y (List.mem_cons_of_mem p hy)) hbx

/-- In front of `bp` the search stops. -/
theorem freeFind_here (hp : p < bp) (hnext : bp < h.next p ∨ h.next p ≤ p) (fuel : Nat) :
    freeFind h bp (fuel + 1) p = some p := by
  rw [freeFind]
  by_cases hbp : bp < h.next p
  · rw [if_pos ⟨hp, hbp⟩]
  · rw [if_neg fun hboth => hbp hboth.2, if_pos ⟨hnext.resolve_left hbp, Or.inl hp⟩]

variable {e : HeapEnv} {pre post live : List Block} {b : Block}

/-- The place in front of a block. -/
def frontOf (e : HeapEnv) (pre : List Block) : Nat := (pre.map Block.start).getLastD e.base

/-- The search of `free` ends in front of the block, wherever it begins. -/
theorem HeapRep.freeFind_eq (r : HeapRep e h (pre ++ post) live) (hb : b ∈ live)
    (hpre : ∀ a ∈ pre, a.stop ≤ b.start) (hpost : ∀ c ∈ post, b.stop ≤ c.start) {fuel : Nat}
    (hfuel : pre.length + post.length + 2 ≤ fuel) :
    freeFind h b.start fuel h.freep = some (frontOf e pre) := by
  have hbase := (r.blocks.bounds (List.mem_append_right _ hb)).1
  have hpos : 0 < b.len := r.blocks.tiles.nonempty b (List.mem_append_right _ hb)
  have hlow : ∀ x ∈ e.base :: pre.map Block.start, x < b.start := by
    intro x hx
    rcases List.mem_cons.mp hx with rfl | hx
    · unfold headerSize at hbase
      omega
    · obtain ⟨a, ha, rfl⟩ := List.mem_map.mp hx
      have hle := hpre a ha
      have hlen := r.blocks.tiles.nonempty a (List.mem_append_left _ (List.mem_append_left _ ha))
      unfold Block.stop at hle
      omega
  have hhigh : ∀ x ∈ post.map Block.start, b.start < x := by
    intro x hx
    obtain ⟨c, hc, rfl⟩ := List.mem_map.mp hx
    have hle := hpost c hc
    unfold Block.stop at hle
    omega
  have hsorted := r.sorted
  have hring := r.ring
  have hfreep := r.freep
  rw [places_append] at hsorted hfreep
  rw [List.map_append, Ring, List.append_assoc, trail_append] at hring
  obtain ⟨hup, hdown⟩ := hring
  have hsortedPre : (e.base :: pre.map Block.start).Pairwise (· < ·) :=
    (List.pairwise_append.mp hsorted).1
  have hsortedPost : (post.map Block.start).Pairwise (· < ·) :=
    (List.pairwise_append.mp hsorted).2.1
  -- at the front itself
  have hhere : ∀ fuel, freeFind h b.start (fuel + 1) (frontOf e pre) = some (frontOf e pre) := by
    intro fuel
    have hmem : frontOf e pre ∈ e.base :: pre.map Block.start := getLastD_mem _ e.base
    refine freeFind_here (hlow _ hmem) ?_ fuel
    cases post with
    | nil =>
        have hnext : h.next (frontOf e pre) = e.base := hdown.1
        rw [hnext]
        rcases List.mem_cons.mp hmem with heq | hmem
        · exact Or.inr (Nat.le_of_eq heq.symm)
        · exact Or.inr (Nat.le_of_lt ((List.pairwise_cons.mp hsortedPre).1 _ hmem))
    | cons c post =>
        have hnext : h.next (frontOf e pre) = c.start := hdown.1
        rw [hnext]
        exact Or.inl (hhigh _ List.mem_cons_self)
  -- from a place in front of the block
  have hfront : ∀ fuel, pre.length + 1 ≤ fuel → ∀ p ∈ e.base :: pre.map Block.start,
      freeFind h b.start fuel p = some (frontOf e pre) := by
    intro fuel hfuel p hp
    obtain ⟨left, right, hsplit⟩ := List.append_of_mem hp
    obtain ⟨htrail, hlast⟩ := hup.suffix hsplit
    have hlen := congrArg List.length hsplit
    rw [List.length_cons, List.length_map, List.length_append, List.length_cons] at hlen
    have hmem : ∀ x ∈ p :: right, x ∈ e.base :: pre.map Block.start := fun x hx =>
      hsplit ▸ List.mem_append_right left hx
    have hsub : (p :: right).Pairwise (· < ·) :=
      (List.pairwise_append.mp (hsplit ▸ hsortedPre)).2.1
    obtain ⟨n, rfl⟩ : ∃ n, fuel = n + 1 + right.length := ⟨fuel - 1 - right.length, by omega⟩
    rw [freeFind_up htrail hsub fun x hx => hlow x (hmem x (List.mem_cons_of_mem p hx)), hlast]
    exact hhere n
  rcases List.mem_append.mp hfreep with hmem | hmem
  · exact hfront fuel (by omega) _ hmem
  · -- from a place behind it, around the end of the list
    obtain ⟨left, right, hsplit⟩ := List.append_of_mem hmem
    have hlen := congrArg List.length hsplit
    rw [List.length_map, List.length_append, List.length_cons] at hlen
    rw [hsplit, List.append_assoc, trail_append] at hdown
    have htrail : Trail h.next h.freep (right ++ [e.base]) := hdown.2.2
    have hsub : (h.freep :: right).Pairwise (· < ·) :=
      (List.pairwise_append.mp (hsplit ▸ hsortedPost)).2.1
    obtain ⟨n, rfl⟩ : ∃ n, fuel = n + right.length + 1 := ⟨fuel - 1 - right.length, by omega⟩
    rw [freeFind_down htrail hsub (fun x hx => hhigh x (hsplit ▸ List.mem_append_right left hx))
      (hlow _ List.mem_cons_self)]
    exact hfront n (by omega) _ List.mem_cons_self

end Search

section Join

variable {e : HeapEnv} {h h₁ : UserHeap} {pre post live : List Block} {b : Block}

/-- The heap between the two joins: from the block `b` the ring goes on, but nothing
leads to it yet. -/
structure HalfFree (e : HeapEnv) (h : UserHeap) (pre post live : List Block) (b : Block) :
    Prop where
  blocks : HeapBlocks e h (b :: (pre ++ post ++ live))
  front : Trail h.next e.base (pre.map Block.start)
  trail : Trail h.next b.start (post.map Block.start ++ [e.base])
  spaced : Spaced (pre ++ post)
  before : ∀ a ∈ pre, a.stop ≤ b.start
  after : ∀ c ∈ post, b.stop < c.start

theorem frontOf_mem (e : HeapEnv) (pre : List Block) : frontOf e pre ∈ e.places pre :=
  getLastD_mem _ e.base

theorem frontOf_concat (e : HeapEnv) (pre : List Block) (a : Block) :
    frontOf e (pre ++ [a]) = a.start := by
  rw [frontOf, List.map_append]
  exact List.getLastD_concat

/-- `free` puts the block in front of the rest of the ring, joined with the next block if
that begins where it ends. -/
theorem joinNext_spec (r : HeapRep e h (pre ++ post) (b :: live))
    (hpre : ∀ a ∈ pre, a.stop ≤ b.start) (hpost : ∀ c ∈ post, b.stop ≤ c.start) :
    ∃ b₁ post₁, b₁.start = b.start ∧ b.len ≤ b₁.len ∧
      HalfFree e (joinNext (frontOf e pre) b.start h) pre post₁ live b₁ ∧
      AgreeBut b.start h (joinNext (frontOf e pre) b.start h) := by
  have hblocks : HeapBlocks e h (b :: (pre ++ post ++ live)) := r.blocks.perm List.perm_middle
  have hb : b.start ∈ e.places (b :: (pre ++ post ++ live)) :=
    List.mem_cons_of_mem _ List.mem_cons_self
  have hring := r.ring
  rw [List.map_append, Ring, List.append_assoc, trail_append] at hring
  obtain ⟨hfront, htrail⟩ := hring
  -- what the header of the block may lead to changes nothing else in the ring
  have hkeep : ∀ h', AgreeBut b.start h h' → ∀ y ∈ e.places (pre ++ post),
      h'.next y = h.next y := by
    intro h' hag y hy
    have hlive : y ∈ e.places (pre ++ post ++ live) :=
      places_mono (fun c hc => List.mem_append_left live hc) hy
    exact hblocks.agree_next hag hb (places_mono (fun c hc => List.mem_cons_of_mem b hc) hlive)
      fun heq => hblocks.start_not_mem (heq ▸ hlive)
  rw [places_append] at hkeep
  have hfront' : ∀ h', AgreeBut b.start h h' → Trail h'.next e.base (pre.map Block.start) :=
    fun h' hag => hfront.congr fun y hy =>
      hkeep h' hag y (List.mem_append_left _ (List.dropLast_subset _ hy))
  have hadd := hblocks.headerAdd_eq List.mem_cons_self
  unfold joinNext
  rw [hadd]
  by_cases hmeet : b.stop = h.next (frontOf e pre)
  · cases post with
    | nil =>
        -- nothing ends where `base` begins
        have hnext : h.next (frontOf e pre) = e.base := htrail.1
        have hbound := (hblocks.bounds List.mem_cons_self).1
        rw [hnext] at hmeet
        unfold Block.stop headerSize at *
        omega
    | cons c post =>
        have hnext : h.next (frontOf e pre) = c.start := htrail.1
        have htrail : Trail h.next c.start (post.map Block.start ++ [e.base]) := htrail.2
        rw [if_pos hmeet]
        rw [hnext] at hmeet
        have hsized := AgreeBut.setSize h b.start (u64 (h.size b.start + h.size c.start))
        dsimp only
        rw [hnext, hkeep _ hsized _ (List.mem_append_left _ (frontOf_mem e pre)), hnext,
          hkeep _ hsized _ (List.mem_append_right _ List.mem_cons_self)]
        have hag := hsized.trans (AgreeBut.setNext _ b.start (h.next c.start))
        have hperm : (b :: (pre ++ c :: post ++ live)).Perm (b :: c :: (pre ++ post ++ live)) :=
          (List.perm_middle.append_right live).cons b
        refine ⟨b.join c, post, rfl, Nat.le_add_right _ _, ⟨?_, hfront' _ hag, ?_,
          r.spaced.remove, hpre, fun d hd => ?_⟩, hag⟩
        · exact ((hblocks.perm hperm).join hmeet).setNext (List.mem_cons_of_mem _ List.mem_cons_self)
        · refine htrail.from (next_setNext_self (next_lt h _)) (by simp) fun y hy => ?_
          rw [List.dropLast_concat] at hy
          exact hkeep _ hag y (List.mem_append_right _ (List.mem_cons_of_mem _ hy))
        · rw [Block.join_stop hmeet]
          exact r.spaced.after d hd
  · rw [if_neg hmeet]
    have hag := AgreeBut.setNext h b.start (h.next (frontOf e pre))
    refine ⟨b, post, rfl, Nat.le_refl _, ⟨hblocks.setNext hb, hfront' _ hag, ?_, r.spaced, hpre,
      fun c hc => ?_⟩, hag⟩
    · refine htrail.from (next_setNext_self (next_lt h _)) (by simp) fun y hy => ?_
      rw [List.dropLast_concat] at hy
      exact hkeep _ hag y (List.mem_append_right _ hy)
    · cases post with
      | nil => exact absurd hc List.not_mem_nil
      | cons d post =>
          have hnext : h.next (frontOf e pre) = d.start := htrail.1
          rw [hnext] at hmeet
          have hbd := hpost d List.mem_cons_self
          rcases List.mem_cons.mp hc with rfl | hc
          · exact Nat.lt_of_le_of_ne hbd hmeet
          · have hdc := (List.pairwise_cons.mp (List.pairwise_append.mp r.spaced).2.1).1 c hc
            unfold Block.stop at *
            omega

/-- Where the block in front ends by its header; `base` has no units. -/
theorem HalfFree.front_end (hm : HalfFree e h pre post live b) :
    (pre = [] ∧ headerAdd (frontOf e pre) (h.size (frontOf e pre)) = e.base) ∨
      ∃ rest a, pre = rest ++ [a] ∧ headerAdd (frontOf e pre) (h.size (frontOf e pre)) = a.stop := by
  rcases List.eq_nil_or_concat pre with rfl | ⟨rest, a, rfl⟩
  · refine Or.inl ⟨rfl, ?_⟩
    change headerAdd e.base (h.size e.base) = e.base
    rw [hm.blocks.baseSize]
    exact Nat.mod_eq_of_lt (HeapBlocks.base_lt e)
  · rw [List.concat_eq_append] at hm ⊢
    refine Or.inr ⟨rest, a, rfl, ?_⟩
    rw [frontOf_concat]
    exact hm.blocks.headerAdd_eq (by simp)

/-- `free` closes the ring again, and joins the block with the one in front if that ends
where it begins. -/
theorem joinPrev_spec (hm : HalfFree e h pre post live b) :
    ∃ free, (∃ c ∈ free, b.len ≤ c.len) ∧
      HeapRep e ((joinPrev (frontOf e pre) b.start h).setFreep (frontOf e pre)) free live ∧
      AgreeBut (frontOf e pre) h (joinPrev (frontOf e pre) b.start h) := by
  have hsub : ∀ c ∈ pre, c ∈ b :: (pre ++ post ++ live) := fun c hc =>
    List.mem_cons_of_mem b (List.mem_append_left live (List.mem_append_left post hc))
  have hq : frontOf e pre ∈ e.places (b :: (pre ++ post ++ live)) :=
    places_mono hsub (frontOf_mem e pre)
  have hb : b.start ∈ e.places (b :: (pre ++ post ++ live)) :=
    List.mem_cons_of_mem _ List.mem_cons_self
  have hfree : ∀ y ∈ e.places (pre ++ post), y ∈ e.places (pre ++ post ++ live) := fun y hy =>
    places_mono (fun c hc => List.mem_append_left live hc) hy
  have hrest : ∀ y ∈ e.places (pre ++ post ++ live), y ∈ e.places (b :: (pre ++ post ++ live)) :=
    fun y hy => places_mono (fun c hc => List.mem_cons_of_mem b hc) hy
  have hsorted : (e.places (pre ++ post)).Pairwise (· < ·) := hm.blocks.sorted hm.spaced
    fun c hc => List.mem_cons_of_mem b (List.mem_append_left live hc)
  have hnodup := hsorted.imp Nat.ne_of_lt
  rw [places_append] at hnodup hfree
  obtain ⟨hnodupPre, -, hdisjoint⟩ := List.nodup_append.mp hnodup
  have hqb : frontOf e pre ≠ b.start := fun heq => hm.blocks.start_not_mem
    (heq ▸ hfree _ (List.mem_append_left _ (frontOf_mem e pre)))
  -- the header in front is not one of the others in the ring
  have hfront : ∀ h', AgreeBut (frontOf e pre) h h' → Trail h'.next e.base (pre.map Block.start) := by
    intro h' hag
    refine hm.front.congr fun y hy => hm.blocks.agree_next hag hq
      (hrest y (hfree y (List.mem_append_left _ (List.dropLast_subset _ hy)))) fun heq => ?_
    subst heq
    exact getLastD_not_mem_dropLast hnodupPre hy
  have hback : ∀ h', AgreeBut (frontOf e pre) h h' → ∀ y ∈ post.map Block.start,
      h'.next y = h.next y := by
    intro h' hag y hy
    exact hm.blocks.agree_next hag hq (hrest y (hfree y (List.mem_append_right _ hy)))
      (hdisjoint _ (frontOf_mem e pre) y hy)
  unfold joinPrev
  by_cases hmeet : headerAdd (frontOf e pre) (h.size (frontOf e pre)) = b.start
  · rw [if_pos hmeet]
    rcases hm.front_end with ⟨rfl, hend⟩ | ⟨rest, a, rfl, hend⟩
    · exact absurd (hend.symm.trans hmeet) hqb
    · rw [hend] at hmeet
      rw [frontOf_concat] at *
      have hsized := AgreeBut.setSize h a.start (u64 (h.size a.start + h.size b.start))
      dsimp only
      rw [hm.blocks.agree_next hsized hq hb hqb]
      have hag := hsized.trans (AgreeBut.setNext _ a.start (h.next b.start))
      have hperm : (b :: (rest ++ [a] ++ post ++ live)).Perm (a :: b :: (rest ++ post ++ live)) := by
        rw [List.append_assoc rest]
        exact ((List.perm_middle.append_right live).cons b).trans (List.Perm.swap a b _)
      have hperm' : (a.join b :: (rest ++ post ++ live)).Perm (rest ++ a.join b :: post ++ live) :=
        (List.perm_middle.append_right live).symm
      have hblocks := (((hm.blocks.perm hperm).join hmeet).setNext (w := h.next b.start)
        (List.mem_cons_of_mem _ List.mem_cons_self)).perm hperm'
      have hring : Ring ((h.setSize a.start (u64 (h.size a.start + h.size b.start))).setNext
          a.start (h.next b.start)).next e.base ((rest ++ a.join b :: post).map Block.start) := by
        have hmap : (rest ++ a.join b :: post).map Block.start ++ [e.base] =
            (rest ++ [a]).map Block.start ++ (post.map Block.start ++ [e.base]) := by
          simp [Block.join]
        rw [Ring, hmap, trail_append]
        refine ⟨hfront _ hag, ?_⟩
        change Trail _ (frontOf e (rest ++ [a])) _
        rw [frontOf_concat]
        refine hm.trail.from (next_setNext_self (next_lt h _)) (by simp) fun y hy => ?_
        rw [List.dropLast_concat] at hy
        exact hback _ hag y hy
      have hspaced : Spaced (rest ++ post) := by
        have hall := hm.spaced
        rw [List.append_assoc] at hall
        exact hall.remove
      refine ⟨rest ++ a.join b :: post, ⟨a.join b, List.mem_append_right rest List.mem_cons_self,
        Nat.le_add_left _ _⟩, ⟨hblocks.setFreep _, hring, ?_, ?_⟩, hag⟩
      · apply List.mem_cons_of_mem
        rw [List.map_append]
        exact List.mem_append_right _ List.mem_cons_self
      · refine hspaced.insert (fun c hc => ?_) fun c hc => ?_
        · exact (List.pairwise_append.mp (List.pairwise_append.mp hm.spaced).1).2.2 c hc a
            List.mem_cons_self
        · rw [Block.join_stop hmeet]
          exact hm.after c hc
  · rw [if_neg hmeet]
    have hag := AgreeBut.setNext h (frontOf e pre) b.start
    have hbound := (hm.blocks.bounds List.mem_cons_self).2
    have hlt : b.start < 18446744073709551616 := by
      unfold Block.stop at hbound
      omega
    have hperm : (b :: (pre ++ post ++ live)).Perm (pre ++ b :: post ++ live) :=
      (List.perm_middle.append_right live).symm
    have hring : Ring (h.setNext (frontOf e pre) b.start).next e.base
        ((pre ++ b :: post).map Block.start) := by
      rw [List.map_append, Ring, List.append_assoc, trail_append]
      refine ⟨hfront _ hag, next_setNext_self hlt, ?_⟩
      refine hm.trail.congr fun y hy => ?_
      rw [← List.cons_append, List.dropLast_concat] at hy
      rcases List.mem_cons.mp hy with rfl | hy
      · exact hm.blocks.agree_next hag hq hb hqb
      · exact hback _ hag y hy
    refine ⟨pre ++ b :: post, ⟨b, List.mem_append_right pre List.mem_cons_self, Nat.le_refl _⟩,
      ⟨((hm.blocks.setNext hq).perm hperm).setFreep _, hring, ?_, ?_⟩, hag⟩
    · exact places_mono (fun c hc => List.mem_append_left _ hc) (frontOf_mem e pre)
    · refine hm.spaced.insert (fun c hc => ?_) hm.after
      rcases hm.front_end with ⟨rfl, -⟩ | ⟨rest, a, rfl, hend⟩
      · exact absurd hc List.not_mem_nil
      · rw [hend] at hmeet
        have hlast := hm.before a (List.mem_append_right rest List.mem_cons_self)
        rcases List.mem_append.mp hc with hc | hc
        · have hca := (List.pairwise_append.mp (List.pairwise_append.mp hm.spaced).1).2.2 c hc a
            List.mem_cons_self
          unfold Block.stop at *
          omega
        · rw [List.mem_singleton.mp hc]
          exact Nat.lt_of_le_of_ne hlast hmeet

/-- `free` gives the block to the free list and leaves the other blocks alone. -/
theorem heapFree_spec {free : List Block} (r : HeapRep e h free (b :: live)) :
    ∃ free' h', (∃ c ∈ free', b.len ≤ c.len) ∧ HeapRep e h' free' live ∧ KeepsBlocks live h h' ∧
      h'.granted = h.granted ∧ ∀ fuel, free.length + 2 ≤ fuel →
        heapFree e fuel (b.start + headerSize) h = some h' := by
  have hapart : ∀ c ∈ free, b.Apart c := fun c hc =>
    (r.blocks.perm List.perm_middle).tiles.apart_of_split (List.mem_append_left live hc)
  obtain ⟨pre, post, rfl, hpre, hpost⟩ := r.spaced.place hapart
  obtain ⟨b₁, post₁, hstart, hlen, hm, hnext⟩ := joinNext_spec r hpre hpost
  obtain ⟨free', ⟨c, hc, hbc⟩, hrep, hprev⟩ := joinPrev_spec hm
  rw [hstart] at hrep hprev
  refine ⟨free', _, ⟨c, hc, Nat.le_trans hlen hbc⟩, hrep, fun d hd x hx => ?_, ?_, fun fuel hfuel => ?_⟩
  · have hold : HeapBlocks e h (b :: (pre ++ post ++ live)) := r.blocks.perm List.perm_middle
    have hdold : d ∈ pre ++ post ++ live := List.mem_append_right _ hd
    have hdnew : d ∈ pre ++ post₁ ++ live := List.mem_append_right _ hd
    have hfirst := hold.agree_mem hnext (List.mem_cons_of_mem _ List.mem_cons_self)
      (List.mem_cons_of_mem b hdold) (hold.start_ne hdold) hx
    have hapart : frontOf e pre ≠ d.start := by
      have hnodup := (hm.blocks.perm List.perm_middle.symm).nodup
      rw [List.append_assoc, places_append] at hnodup
      exact (List.nodup_append.mp hnodup).2.2 _ (frontOf_mem e pre) _
        (List.mem_map_of_mem (List.mem_append_right _ (List.mem_cons_of_mem _ hd)))
    have hplace : frontOf e pre ∈ e.places (b₁ :: (pre ++ post₁ ++ live)) :=
      places_mono (fun a ha => List.mem_cons_of_mem b₁
        (List.mem_append_left live (List.mem_append_left post₁ ha))) (frontOf_mem e pre)
    rw [setFreep_mem, ← hfirst]
    exact hm.blocks.agree_mem hprev hplace (List.mem_cons_of_mem b₁ hdnew) hapart hx
  · rw [setFreep_granted, hprev.granted, hnext.granted]
  · rw [List.length_append] at hfuel
    have hfind := r.freeFind_eq List.mem_cons_self hpre hpost hfuel
    rw [heapFree, if_neg (by unfold headerSize; omega)]
    dsimp only
    rw [r.heapInit_eq, Nat.add_sub_cancel, hfind]
    rfl

end Join

end OsAgentLab
