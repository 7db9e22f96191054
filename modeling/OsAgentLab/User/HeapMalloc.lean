/-
`malloc` keeps the heap: the search goes once around the ring, the block it finds is
taken whole or cut at its end, and new memory goes through `free`.
-/
import OsAgentLab.User.HeapFree

namespace OsAgentLab

section Take

variable {e : HeapEnv} {h : UserHeap} {pre post live : List Block} {b : Block} {nunits : Nat}

/-- What a call of `malloc` has done that returned the block `c`. -/
structure BlockTaken (e : HeapEnv) (nunits : Nat) (live : List Block) (h h' : UserHeap) (res : Nat)
    (free : List Block) (c : Block) : Prop where
  res : res = c.start + headerSize
  len : c.len = headerSize * nunits
  rep : HeapRep e h' free (c :: live)
  keeps : KeepsBlocks live h h'

/-- The places behind the one in front. -/
theorem HeapRep.front_ne (r : HeapRep e h (pre ++ b :: post) live) :
    ∀ c ∈ b :: post ++ live, frontOf e pre ≠ c.start := by
  intro c hc
  have hnodup := r.blocks.nodup
  rw [List.append_assoc, places_append] at hnodup
  exact (List.nodup_append.mp hnodup).2.2 _ (frontOf_mem e pre) _ (List.mem_map_of_mem hc)

theorem frontOf_mem_append (e : HeapEnv) (pre rest : List Block) :
    frontOf e pre ∈ e.places (pre ++ rest) :=
  places_mono (fun _ hc => List.mem_append_left rest hc) (frontOf_mem e pre)

theorem takeBlock_whole (r : HeapRep e h (pre ++ b :: post) live) (hsize : h.size b.start = nunits) :
    BlockTaken e nunits live h (takeBlock nunits (frontOf e pre) b.start h).2
      (takeBlock nunits (frontOf e pre) b.start h).1 (pre ++ post) b := by
  have hb : b ∈ pre ++ b :: post ++ live :=
    List.mem_append_left _ (List.mem_append_right _ List.mem_cons_self)
  have hring := r.ring
  rw [List.map_append, Ring, List.append_assoc, trail_append] at hring
  obtain ⟨hfront, hback⟩ := hring
  have htrail : Trail h.next b.start (post.map Block.start ++ [e.base]) := hback.2
  have hperm : (pre ++ b :: post ++ live).Perm (pre ++ post ++ b :: live) := by
    rw [List.append_assoc, List.append_assoc]
    exact (List.perm_middle.symm).append_left pre
  have hq : frontOf e pre ∈ e.places (pre ++ b :: post ++ live) := by
    rw [List.append_assoc]
    exact frontOf_mem_append e pre _
  have hag := AgreeBut.setNext h (frontOf e pre) (h.next b.start)
  have hblocks := (r.blocks.setNext (w := h.next b.start) hq).perm hperm
  have hring : Ring (h.setNext (frontOf e pre) (h.next b.start)).next e.base
      ((pre ++ post).map Block.start) := by
    rw [List.map_append, Ring, List.append_assoc, trail_append]
    refine ⟨hfront.congr fun y hy => ?_, htrail.from (next_setNext_self (next_lt h _)) (by simp)
      fun y hy => ?_⟩
    · have hmem : y ∈ e.places pre := List.dropLast_subset _ hy
      refine r.blocks.agree_next hag hq ?_ fun heq => ?_
      · exact places_mono (fun c hc => List.mem_append_left _ (List.mem_append_left _ hc)) hmem
      · subst heq
        have hnodup := r.blocks.nodup
        rw [List.append_assoc, places_append] at hnodup
        exact getLastD_not_mem_dropLast (List.nodup_append.mp hnodup).1 hy
    · rw [List.dropLast_concat] at hy
      obtain ⟨c, hc, rfl⟩ := List.mem_map.mp hy
      have hc' : c ∈ b :: post ++ live :=
        List.mem_append_left _ (List.mem_cons_of_mem b hc)
      refine r.blocks.agree_next hag hq ?_ (r.front_ne c hc')
      exact List.mem_cons_of_mem _ (List.mem_map_of_mem
        (List.append_assoc pre _ live ▸ List.mem_append_right pre hc'))
  rw [takeBlock, if_pos hsize]
  refine ⟨rfl, ?_, ⟨hblocks.setFreep _, hring, frontOf_mem_append e pre post, r.spaced.remove⟩,
    fun c hc x hx => ?_⟩
  · rw [← r.blocks.sizes b hb, hsize]
  · rw [setFreep_mem]
    exact r.blocks.agree_mem hag hq (List.mem_append_right _ hc)
      (r.front_ne c (List.mem_append_right _ hc)) hx

theorem takeBlock_cut (r : HeapRep e h (pre ++ b :: post) live) (hn : 0 < nunits)
    (hsize : nunits < h.size b.start) :
    BlockTaken e nunits live h (takeBlock nunits (frontOf e pre) b.start h).2
      (takeBlock nunits (frontOf e pre) b.start h).1
      (pre ++ ⟨b.start, headerSize * (h.size b.start - nunits)⟩ :: post)
      ⟨b.start + headerSize * (h.size b.start - nunits), headerSize * nunits⟩ := by
  have hb : b ∈ pre ++ b :: post ++ live :=
    List.mem_append_left _ (List.mem_append_right _ List.mem_cons_self)
  have hlen := r.blocks.sizes b hb
  have hbound := (r.blocks.bounds hb).2
  have hrange := size_lt h b.start
  have hout : (pre ++ b :: post ++ live).Perm (b :: (pre ++ post ++ live)) :=
    List.perm_middle.append_right live
  have hold := r.blocks.perm hout
  have hcut := hold.split hn hsize
  have hshort : headerSize * (h.size b.start - nunits) < b.len := by
    unfold headerSize at *
    omega
  generalize hm : h.size b.start - nunits = m at *
  have hfirst := AgreeBut.setSize h b.start m
  have hsecond := AgreeBut.setSize (h.setSize b.start m) (b.start + headerSize * m) nunits
  have hadd : headerAdd b.start m = b.start + headerSize * m := by
    unfold Block.stop at hbound
    exact Nat.mod_eq_of_lt (by omega)
  have htake : takeBlock nunits (frontOf e pre) b.start h =
      (b.start + headerSize * m + headerSize, ((h.setSize b.start m).setSize
        (b.start + headerSize * m) nunits).setFreep (frontOf e pre)) := by
    rw [takeBlock, if_neg (Nat.ne_of_gt hsize), hm]
    dsimp only
    rw [size_setSize_self (by omega), hadd]
  -- the header of the tail is at none of the old places
  have hc : b.start + headerSize * m ∈ e.places (⟨b.start, headerSize * m⟩ ::
      ⟨b.start + headerSize * m, headerSize * nunits⟩ :: (pre ++ post ++ live)) :=
    List.mem_cons_of_mem _ (List.mem_cons_of_mem _ List.mem_cons_self)
  have hnew : b.start + headerSize * m ∉ e.places (b :: (pre ++ post ++ live)) := by
    have hnot := (hcut.perm (List.Perm.swap _ _ _)).start_not_mem
    rw [HeapEnv.places, List.map_cons] at hnot ⊢
    exact hnot
  have hnext : ∀ y ∈ e.places (b :: (pre ++ post ++ live)), ((h.setSize b.start m).setSize
      (b.start + headerSize * m) nunits).next y = h.next y := by
    intro y hy
    have hin : y ∈ e.places (⟨b.start, headerSize * m⟩ ::
        ⟨b.start + headerSize * m, headerSize * nunits⟩ :: (pre ++ post ++ live)) := by
      rcases List.mem_cons.mp hy with rfl | hy
      · exact List.mem_cons_self
      · rcases List.mem_cons.mp hy with rfl | hy
        · exact List.mem_cons_of_mem _ List.mem_cons_self
        · exact List.mem_cons_of_mem _ (List.mem_cons_of_mem _ (List.mem_cons_of_mem _ hy))
    rw [hcut.agree_next hsecond hc hin fun heq => hnew (heq ▸ hy)]
    by_cases hyb : b.start = y
    · rw [← hyb]
      exact next_setSize_self
    · exact hold.agree_next hfirst (List.mem_cons_of_mem _ List.mem_cons_self) hy hyb
  have hplaces : ∀ y ∈ e.places (pre ++ b :: post), y ∈ e.places (b :: (pre ++ post ++ live)) :=
    fun y hy => places_mono (fun c hc => hout.mem_iff.mp (List.mem_append_left live hc)) hy
  rw [htake]
  refine ⟨rfl, rfl, ⟨(hcut.perm ?_).setFreep _, ?_, ?_, ?_⟩, fun d hd x hx => ?_⟩
  · exact (List.perm_middle.symm.cons _).trans (List.perm_middle.symm.append_right (_ :: live))
  · have hmap : (pre ++ ⟨b.start, headerSize * m⟩ :: post).map Block.start =
        (pre ++ b :: post).map Block.start := by simp
    rw [hmap]
    refine Trail.congr r.ring fun y hy => hnext y (hplaces y ?_)
    rw [← List.cons_append, List.dropLast_concat] at hy
    exact hy
  · exact frontOf_mem_append e pre _
  · refine r.spaced.remove.insert r.spaced.before fun c hc => ?_
    have hafter := r.spaced.after c hc
    unfold Block.stop at *
    simp only
    omega
  · have hd' : d ∈ pre ++ post ++ live := List.mem_append_right _ hd
    rw [setFreep_mem, hcut.agree_mem hsecond hc
      (List.mem_cons_of_mem _ (List.mem_cons_of_mem _ hd')) ?_ hx]
    · exact hold.agree_mem hfirst (List.mem_cons_of_mem _ List.mem_cons_self)
        (List.mem_cons_of_mem b hd') (hold.start_ne hd') hx
    · exact fun heq => hnew (heq ▸ List.mem_cons_of_mem _ (List.mem_cons_of_mem _
        (List.mem_map_of_mem hd')))

/-- The first block that fits is taken. -/
theorem takeBlock_spec (r : HeapRep e h (pre ++ b :: post) live) (hn : 0 < nunits)
    (hfit : nunits ≤ h.size b.start) :
    ∃ free c, BlockTaken e nunits live h (takeBlock nunits (frontOf e pre) b.start h).2
      (takeBlock nunits (frontOf e pre) b.start h).1 free c := by
  rcases Nat.lt_or_eq_of_le hfit with hlt | heq
  · exact ⟨_, _, takeBlock_cut r hn hlt⟩
  · exact ⟨_, _, takeBlock_whole r heq.symm⟩

end Take

section Search

variable {e : HeapEnv} {h : UserHeap} {nunits prevp : Nat}

/-- What `malloc` does behind a search in vain. -/
def mallocMore (e : HeapEnv) (limit nunits fuel : Nat) (h : UserHeap) : Option (Nat × UserHeap) :=
  (morecore e limit nunits h).bind fun r =>
    if r.1 = 0 then some (0, r.2) else mallocLoop e limit nunits fuel r.1 (r.2.next r.1) r.2

/-- The search takes the first block of the round that is large enough. -/
theorem mallocLoop_search {seq : List Nat} (htrail : Trail h.next prevp (seq ++ [h.freep]))
    (hout : h.freep ∉ seq) :
    (∃ left x right, seq ++ [h.freep] = left ++ x :: right ∧ nunits ≤ h.size x ∧
      ∀ limit fuel, seq.length < fuel → mallocLoop e limit nunits fuel prevp (h.next prevp) h =
        some (takeBlock nunits (left.getLastD prevp) x h)) ∨
    (∀ y ∈ seq ++ [h.freep], h.size y < nunits) ∧
      ∀ limit fuel, mallocLoop e limit nunits (fuel + seq.length + 1) prevp (h.next prevp) h =
        mallocMore e limit nunits fuel h := by
  induction seq generalizing prevp with
  | nil =>
      have hnext : h.next prevp = h.freep := htrail.1
      rw [hnext]
      by_cases hfit : nunits ≤ h.size h.freep
      · refine Or.inl ⟨[], h.freep, [], rfl, hfit, fun limit fuel hfuel => ?_⟩
        obtain ⟨fuel, rfl⟩ := Nat.exists_eq_succ_of_ne_zero (Nat.ne_of_gt hfuel)
        rw [mallocLoop, if_pos hfit]
        rfl
      · refine Or.inr ⟨fun y hy => ?_, fun limit fuel => ?_⟩
        · rw [List.mem_singleton.mp hy]
          exact Nat.lt_of_not_le hfit
        · rw [List.length_nil, Nat.add_zero, mallocLoop, if_neg hfit, if_pos rfl, mallocMore]
          cases morecore e limit nunits h <;> rfl
  | cons x seq ih =>
      have hnext : h.next prevp = x := htrail.1
      have hx : x ≠ h.freep := fun heq => hout (heq ▸ List.mem_cons_self)
      rw [hnext]
      by_cases hfit : nunits ≤ h.size x
      · refine Or.inl ⟨[], x, seq ++ [h.freep], rfl, hfit, fun limit fuel hfuel => ?_⟩
        obtain ⟨fuel, rfl⟩ := Nat.exists_eq_succ_of_ne_zero (Nat.ne_of_gt (Nat.zero_lt_of_lt hfuel))
        rw [mallocLoop, if_pos hfit]
        rfl
      · have hgo : ∀ limit fuel, mallocLoop e limit nunits (fuel + 1) prevp x h =
            mallocLoop e limit nunits fuel x (h.next x) h := fun limit fuel => by
          rw [mallocLoop, if_neg hfit, if_neg hx]
        rcases ih htrail.2 fun hmem => hout (List.mem_cons_of_mem x hmem) with
          ⟨left, y, right, hsplit, hfity, hrun⟩ | ⟨hsmall, hrun⟩
        · refine Or.inl ⟨x :: left, y, right, congrArg (x :: ·) hsplit, hfity, fun limit fuel hfuel => ?_⟩
          rw [List.length_cons] at hfuel
          obtain ⟨fuel, rfl⟩ := Nat.exists_eq_succ_of_ne_zero
            (Nat.ne_of_gt (Nat.zero_lt_of_lt hfuel))
          rw [hgo, hrun limit fuel (Nat.lt_of_succ_lt_succ hfuel), List.getLastD_cons]
        · refine Or.inr ⟨fun y hy => ?_, fun limit fuel => ?_⟩
          · rcases List.mem_cons.mp hy with rfl | hy
            · exact Nat.lt_of_not_le hfit
            · exact hsmall y hy
          · rw [List.length_cons, ← Nat.add_assoc, hgo, hrun limit fuel]

variable {free live : List Block}

/-- One round of `malloc` through the free list. -/
theorem HeapRep.search (r : HeapRep e h free live) (hn : 0 < nunits) :
    (∃ h' res free' c, BlockTaken e nunits live h h' res free' c ∧ ∀ limit fuel, free.length < fuel →
      mallocLoop e limit nunits fuel h.freep (h.next h.freep) h = some (res, h')) ∨
    (∀ b ∈ free, h.size b.start < nunits) ∧ ∀ limit fuel,
      mallocLoop e limit nunits (fuel + free.length + 1) h.freep (h.next h.freep) h =
        mallocMore e limit nunits fuel h := by
  have hnodup := r.sorted.imp Nat.ne_of_lt
  obtain ⟨left, right, hplaces⟩ := List.append_of_mem r.freep
  have htrail := r.ring.rotate hplaces
  rw [hplaces] at hnodup
  have hin : ∀ y ∈ right ++ left ++ [h.freep], y ∈ e.places free := by
    intro y hy
    rw [hplaces]
    simp only [List.mem_append, List.mem_cons] at hy ⊢
    tauto
  have hlen : (right ++ left).length = free.length := by
    have hcount := congrArg List.length hplaces
    rw [HeapEnv.places, List.length_cons, List.length_map, List.length_append,
      List.length_cons] at hcount
    rw [List.length_append]
    omega
  have hout : h.freep ∉ right ++ left := by
    obtain ⟨-, hright, hapart⟩ := List.nodup_append.mp hnodup
    intro hmem
    rcases List.mem_append.mp hmem with hmem | hmem
    · exact (List.nodup_cons.mp hright).1 hmem
    · exact hapart _ hmem _ List.mem_cons_self rfl
  rcases @mallocLoop_search e h nunits h.freep _ htrail hout with
    ⟨seen, x, rest, hsplit, hfit, hrun⟩ | ⟨hsmall, hrun⟩
  · have hprev := htrail
    rw [hsplit, trail_append] at hprev
    have hnext : h.next (seen.getLastD h.freep) = x := hprev.2.1
    have hx : x ∈ e.places free := hin x (hsplit ▸ List.mem_append_right seen List.mem_cons_self)
    have hprevIn : seen.getLastD h.freep ∈ e.places free := by
      rcases List.mem_cons.mp (getLastD_mem seen h.freep) with heq | hmem
      · rw [heq]
        exact r.freep
      · exact hin _ (hsplit ▸ List.mem_append_left _ hmem)
    rcases List.mem_cons.mp hx with rfl | hx
    · -- `base` fits no request
      rw [r.blocks.baseSize] at hfit
      omega
    · obtain ⟨b, hb, rfl⟩ := List.mem_map.mp hx
      obtain ⟨pre, post, rfl⟩ := List.append_of_mem hb
      have hring := r.ring
      have hsorted := r.sorted.imp Nat.ne_of_lt
      rw [HeapEnv.places, List.map_append, List.map_cons] at hsorted hprevIn
      rw [List.map_append, List.map_cons] at hring
      have hfront : seen.getLastD h.freep = frontOf e pre :=
        hring.pred_unique hsorted hprevIn hnext
      rw [hfront] at hrun
      obtain ⟨free', c, htaken⟩ := takeBlock_spec r hn hfit
      generalize takeBlock nunits (frontOf e pre) b.start h = taken at htaken hrun
      obtain ⟨res, h'⟩ := taken
      rw [hlen] at hrun
      refine Or.inl ⟨h', res, free', c, htaken, ?_⟩
      exact hrun
  · rw [hlen] at hrun
    refine Or.inr ⟨fun b hb => hsmall b.start ?_, hrun⟩
    have hmem : b.start ∈ e.places free := List.mem_cons_of_mem _ (List.mem_map_of_mem hb)
    rw [hplaces] at hmem
    simp only [List.mem_append, List.mem_cons] at hmem ⊢
    tauto

end Search

section Morecore

variable {e : HeapEnv} {h : UserHeap} {free live : List Block} {nunits : Nat}

/-- A refused call of `sbrk` is counted. -/
def UserHeap.counted (h : UserHeap) : UserHeap := { h with calls := h.calls + 1 }

theorem HeapRep.counted (r : HeapRep e h free live) : HeapRep e h.counted free live :=
  ⟨⟨r.blocks.baseSize, r.blocks.sizes, r.blocks.tiles, r.blocks.grants, r.blocks.top⟩,
    r.ring, r.freep, r.spaced⟩

/-- A call of `sbrk` is refused or adds memory above everything returned before. -/
theorem sbrk_cases (e : HeapEnv) (bytes : Nat) (h : UserHeap) :
    sbrk e bytes h = (none, h.counted) ∨
      ∃ p, heapTop e h ≤ p ∧ p + bytes < 18446744073709551616 ∧ sbrk e bytes h =
        (some p, { h with calls := h.calls + 1, granted := (p, bytes) :: h.granted }) := by
  rw [sbrk]
  cases e.answer h.calls bytes with
  | none => exact Or.inl rfl
  | some gap =>
      by_cases hlt : heapTop e h + gap + bytes < 18446744073709551616
      · refine Or.inr ⟨heapTop e h + gap, Nat.le_add_right _ _, hlt, ?_⟩
        exact if_pos hlt
      · exact Or.inl (if_neg hlt)

/-- The memory of a successful call of `sbrk` is a block like one of `malloc`. -/
theorem HeapRep.grow {n p : Nat} (h' : UserHeap) (r : HeapRep e h free live) (hn : 0 < n)
    (htop : heapTop e h ≤ p) (hlt : p + headerSize * n < 18446744073709551616)
    (hgranted : h'.granted = (p, headerSize * n) :: h.granted) (hmem : h'.mem = h.mem)
    (hfreep : h'.freep = h.freep) :
    HeapRep e (h'.setSize p n) free (⟨p, headerSize * n⟩ :: live) ∧
      KeepsBlocks live h (h'.setSize p n) := by
  have hblocks := r.blocks.grow hn htop hlt hgranted hmem
  have hag := AgreeBut.setSize h' p n
  have hp : p ∈ e.places (⟨p, headerSize * n⟩ :: (free ++ live)) :=
    List.mem_cons_of_mem _ List.mem_cons_self
  refine ⟨⟨hblocks.perm List.perm_middle.symm, ?_, hfreep ▸ r.freep, r.spaced⟩, fun c hc x hx => ?_⟩
  · refine Trail.congr r.ring fun y hy => ?_
    rw [← List.cons_append, List.dropLast_concat] at hy
    have hy' : y ∈ e.places (free ++ live) := places_mono (fun c hc => List.mem_append_left _ hc) hy
    rw [hblocks.agree_next hag hp (places_mono (fun c hc => List.mem_cons_of_mem _ hc) hy')
      fun heq => hblocks.start_not_mem (heq ▸ hy')]
    rw [UserHeap.next, hmem]
    rfl
  · have hc' : c ∈ free ++ live := List.mem_append_right _ hc
    rw [hblocks.agree_mem hag hp (List.mem_cons_of_mem _ hc') (hblocks.start_ne hc') hx, hmem]

theorem morecore_spec (r : HeapRep e h free live) (hn : 0 < nunits)
    (hunits : headerSize * nunits < 18446744073709551616) :
    (∀ limit, morecore e limit nunits h = some (0, h.counted)) ∨
    ∃ h' free', HeapRep e h' free' live ∧ KeepsBlocks live h h' ∧
      (∃ c ∈ free', nunits ≤ h'.size c.start) ∧
      ∀ limit, free.length + 2 ≤ limit → morecore e limit nunits h = some (h'.freep, h') := by
  have hmax : headerSize * max nunits nalloc < 18446744073709551616 := by
    unfold headerSize nalloc at *
    omega
  have hpos : 0 < max nunits nalloc := Nat.lt_of_lt_of_le hn (Nat.le_max_left _ _)
  have hbytes : u64 (max nunits nalloc * headerSize) = headerSize * max nunits nalloc := by
    rw [Nat.mul_comm]
    exact Nat.mod_eq_of_lt hmax
  rcases sbrk_cases e (headerSize * max nunits nalloc) h with hrefused | ⟨p, htop, hlt, hgiven⟩
  · refine Or.inl fun limit => ?_
    rw [morecore, hbytes, hrefused]
  · obtain ⟨hgrown, hkeeps⟩ := r.grow
      { h with
        calls := h.calls + 1
        granted := (p, headerSize * max nunits nalloc) :: h.granted }
      hpos htop hlt rfl rfl rfl
    obtain ⟨free', h', ⟨c, hc, hlen⟩, hrep, hkeeps', -, hrun⟩ := heapFree_spec hgrown
    refine Or.inr ⟨h', free', hrep, hkeeps.trans hkeeps', ⟨c, hc, ?_⟩, fun limit hlimit => ?_⟩
    · have hsize := hrep.blocks.sizes c (List.mem_append_left _ hc)
      have hle : headerSize * max nunits nalloc ≤ headerSize * h'.size c.start := hsize ▸ hlen
      exact Nat.le_trans (Nat.le_max_left _ _) (Nat.le_of_mul_le_mul_left hle (by decide))
    · rw [morecore, hbytes, hgiven]
      dsimp only
      rw [hrun limit hlimit]
      rfl

/-- Behind a search in vain, the new memory is large enough. -/
theorem mallocMore_spec (r : HeapRep e h free live) (hn : 0 < nunits)
    (hunits : headerSize * nunits < 18446744073709551616) :
    (∀ limit fuel, mallocMore e limit nunits fuel h = some (0, h.counted)) ∨
    ∃ h' res free' c n, BlockTaken e nunits live h h' res free' c ∧
      ∀ limit fuel, n ≤ limit → n ≤ fuel → mallocMore e limit nunits fuel h = some (res, h') := by
  rcases morecore_spec r hn hunits with hrun | ⟨h', free', hrep, hkeeps, ⟨b, hb, hfit⟩, hrun⟩
  · refine Or.inl fun limit fuel => ?_
    rw [mallocMore, hrun limit]
    rfl
  · have hfreep := Nat.ne_of_gt hrep.freep_pos
    have hmore : ∀ limit fuel, free.length + 2 ≤ limit → mallocMore e limit nunits fuel h =
        mallocLoop e limit nunits fuel h'.freep (h'.next h'.freep) h' := fun limit fuel hlimit => by
      rw [mallocMore, hrun limit hlimit]
      exact if_neg hfreep
    rcases hrep.search hn with ⟨h'', res, free'', c, htaken, hfound⟩ | ⟨hsmall, -⟩
    · have hkept : BlockTaken e nunits live h h'' res free'' c :=
        ⟨htaken.res, htaken.len, htaken.rep, hkeeps.trans htaken.keeps⟩
      refine Or.inr ⟨h'', res, free'', c, free.length + free'.length + 2, hkept,
        fun limit fuel hlimit hfuel => ?_⟩
      rw [hmore limit fuel (by omega), hfound limit fuel (by omega)]
    · exact absurd hfit (Nat.not_le_of_lt (hsmall b hb))

end Morecore

section Malloc

variable {e : HeapEnv} {h : UserHeap} {free live : List Block} {nbytes : Nat}

/-- The units of a request hold it with its header. -/
theorem unitsFor_spec (hreq : nbytes + 15 < 18446744073709551616) :
    headerSize + nbytes ≤ headerSize * unitsFor nbytes ∧ 0 < unitsFor nbytes := by
  rw [unitsFor, u64, Nat.mod_eq_of_lt hreq]
  unfold headerSize
  omega

/-- `malloc` fails and changes nothing, or returns a new block. -/
theorem heapMalloc_spec (r : HeapRep e (heapInit e h) free live)
    (hreq : nbytes + 15 < 18446744073709551616)
    (hunits : headerSize * unitsFor nbytes < 18446744073709551616) :
    ∃ h' res n, (∀ fuel, n ≤ fuel → heapMalloc e fuel nbytes h = some (res, h')) ∧
      (res = 0 ∧ h' = (heapInit e h).counted ∨
        ∃ free' c, BlockTaken e (unitsFor nbytes) live (heapInit e h) h' res free' c) := by
  have hn := (unitsFor_spec hreq).2
  rcases r.search hn with ⟨h', res, free', c, htaken, hfound⟩ | ⟨-, hvain⟩
  · exact ⟨h', res, free.length + 1, fun fuel hfuel => hfound fuel fuel hfuel,
      Or.inr ⟨free', c, htaken⟩⟩
  · have hgo : ∀ fuel, free.length + 1 ≤ fuel → heapMalloc e fuel nbytes h =
        mallocMore e fuel (unitsFor nbytes) (fuel - free.length - 1) (heapInit e h) := by
      intro fuel hfuel
      rw [← hvain]
      have hsum : fuel - free.length - 1 + free.length + 1 = fuel := by omega
      rw [hsum]
      rfl
    rcases mallocMore_spec r hn hunits with hrun | ⟨h', res, free', c, n, htaken, hrun⟩
    · refine ⟨_, 0, free.length + 1, fun fuel hfuel => ?_, Or.inl ⟨rfl, rfl⟩⟩
      rw [hgo fuel hfuel, hrun]
    · refine ⟨h', res, free.length + 1 + n, fun fuel hfuel => ?_, Or.inr ⟨free', c, htaken⟩⟩
      rw [hgo fuel (by omega), hrun fuel _ (by omega) (by omega)]

end Malloc

end OsAgentLab
