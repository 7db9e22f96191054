/-
`realloc` keeps the heap: the data of the block is copied to a new one before the old
one is given back.
-/
import OsAgentLab.User.HeapMalloc

namespace OsAgentLab

section Copy

variable {d s count i x : Nat} {m : Nat → UInt8}

/-- The copying loop between two ranges that do not overlap. -/
theorem copyBytes_spec (hapart : d + i + count ≤ s + i ∨ s + i + count ≤ d + i) :
    copyBytes d s count i m x =
      if d + i ≤ x ∧ x < d + i + count then m (s + (x - d)) else m x := by
  induction count generalizing i m with
  | zero => rw [copyBytes, if_neg (by omega)]
  | succ count ih =>
      rw [copyBytes, ih (by omega)]
      by_cases hfirst : x = d + i
      · have hsrc : s + (x - d) = s + i := by omega
        rw [if_neg (by omega), if_pos (by omega), hfirst, Function.update_self, ← hfirst, hsrc]
      · by_cases hrest : d + (i + 1) ≤ x ∧ x < d + (i + 1) + count
        · rw [if_pos hrest, if_pos (by omega), Function.update_of_ne (by omega)]
        · rw [if_neg hrest, if_neg (by omega), Function.update_of_ne hfirst]

end Copy

section Data

variable {e : HeapEnv} {h : UserHeap} {free live : List Block} {m : Nat → UInt8}

/-- The heap reads the headers only. -/
theorem HeapRep.data (r : HeapRep e h free live)
    (hsame : ∀ p ∈ e.places (free ++ live), ∀ i < headerSize, m (p + i) = h.mem (p + i)) :
    HeapRep e { h with mem := m } free live := by
  have hnext : ∀ p ∈ e.places (free ++ live), le64 m p = h.next p := fun p hp =>
    le64_congr fun i hi => hsame p hp i (Nat.lt_trans hi (by decide))
  have hsize : ∀ p ∈ e.places (free ++ live), le64 m (p + 8) = h.size p := fun p hp => by
    refine le64_congr fun i hi => ?_
    rw [Nat.add_assoc]
    exact hsame p hp (8 + i) (by unfold headerSize; omega)
  refine ⟨⟨(hsize _ List.mem_cons_self).trans r.blocks.baseSize, fun b hb => ?_, r.blocks.tiles,
    r.blocks.grants, r.blocks.top⟩, ?_, r.freep, r.spaced⟩
  · rw [UserHeap.size, hsize _ (List.mem_cons_of_mem _ (List.mem_map_of_mem hb))]
    exact r.blocks.sizes b hb
  · refine Trail.congr r.ring fun y hy => ?_
    rw [← List.cons_append, List.dropLast_concat] at hy
    exact hnext y (places_mono (fun c hc => List.mem_append_left live hc) hy)

end Data

section Realloc

variable {e : HeapEnv} {h : UserHeap} {free live : List Block} {b : Block} {size : Nat}

/-- What a call of `realloc` has done that returned the block `c` for `b`. -/
structure BlockMoved (e : HeapEnv) (size : Nat) (b : Block) (live : List Block) (h h' : UserHeap)
    (res : Nat) (free : List Block) (c : Block) : Prop where
  place : res = c.start + headerSize
  len : headerSize + size ≤ c.len
  rep : HeapRep e h' free (c :: live)
  keeps : KeepsBlocks live h h'
  data : ∀ i < min (b.len - headerSize) size, h'.mem (res + i) = h.mem (b.start + headerSize + i)

/-- The bytes of a block behind its header, as `realloc` counts them. -/
theorem oldBytes_eq {l : List Block} (r : HeapBlocks e h l) (hb : b ∈ l) :
    u64 (u64 (h.size b.start + 18446744073709551615) * headerSize) = b.len - headerSize := by
  have hlen := r.sizes b hb
  have hheader := r.header_le hb
  have hbound := (r.bounds hb).2
  have hrange := size_lt h b.start
  unfold Block.stop headerSize u64 at *
  omega

/-- The data of the block is copied to the new one before the old one is given back. -/
theorem realloc_move {free' : List Block} {h₁ : UserHeap} {c : Block} {n res : Nat}
    (r : HeapRep e h₁ free' (c :: b :: live)) (hcount : n + headerSize ≤ b.len)
    (hroom : n + headerSize ≤ c.len) (hres : res = c.start + headerSize) :
    ∃ free'' h' m, (∀ fuel, m ≤ fuel → heapFree e fuel (b.start + headerSize)
        { h₁ with mem := copyBytes res (b.start + headerSize) n 0 h₁.mem } = some h') ∧
      HeapRep e h' free'' (c :: live) ∧ KeepsBlocks live h₁ h' ∧
      ∀ i < n, h'.mem (res + i) = h₁.mem (b.start + headerSize + i) := by
  have hblocks : HeapBlocks e h₁ (c :: (free' ++ b :: live)) := r.blocks.perm List.perm_middle
  have hb : b ∈ free' ++ b :: live := List.mem_append_right _ List.mem_cons_self
  have hcb := hblocks.tiles.apart_of_split hb
  have hcopy : ∀ x, copyBytes res (b.start + headerSize) n 0 h₁.mem x =
      if res ≤ x ∧ x < res + n then h₁.mem (b.start + headerSize + (x - res)) else h₁.mem x := by
    intro x
    apply copyBytes_spec
    unfold Block.Apart Block.stop at hcb
    omega
  generalize copyBytes res (b.start + headerSize) n 0 h₁.mem = m at hcopy ⊢
  -- the copy goes into the data of the new block only
  have hout : ∀ x, ¬ (res ≤ x ∧ x < res + n) → m x = h₁.mem x := fun x hx => by
    rw [hcopy, if_neg hx]
  have hcopied : HeapRep e { h₁ with mem := m } free' (c :: b :: live) := by
    refine r.data fun p hp k hk => hout _ fun hin => ?_
    have hc : c ∈ free' ++ c :: b :: live := List.mem_append_right _ List.mem_cons_self
    exact r.blocks.data_ne hc (by omega) (by unfold Block.stop; omega) hp
      ⟨Nat.le_add_right p k, Nat.add_lt_add_left hk p⟩
  obtain ⟨free'', h', -, hrep, hkeeps, -, hrun⟩ :=
    heapFree_spec (hcopied.perm (List.Perm.swap b c live))
  refine ⟨free'', h', free'.length + 2, hrun, hrep, fun d hd x hx => ?_, fun k hk => ?_⟩
  · rw [hkeeps d (List.mem_cons_of_mem c hd) x hx]
    refine hout x fun hin => ?_
    have hapart := hblocks.tiles.apart_of_split
      (List.mem_append_right free' (List.mem_cons_of_mem b hd))
    unfold Block.Apart Block.Holds Block.stop at *
    omega
  · have hin : c.Holds (res + k) := by
      unfold Block.Holds Block.stop
      omega
    rw [hkeeps c List.mem_cons_self _ hin]
    change m (res + k) = _
    rw [hcopy, if_pos (by omega), Nat.add_sub_cancel_left]

/-- `realloc` of a live block to a size other than 0. -/
theorem heapRealloc_spec (r : HeapRep e h free (b :: live)) (hpos : 0 < size)
    (hreq : size + 15 < 18446744073709551616)
    (hunits : headerSize * unitsFor size < 18446744073709551616) :
    ∃ h' res n, (∀ fuel, n ≤ fuel →
        heapRealloc e fuel (b.start + headerSize) size h = some (res, h')) ∧
      (res = 0 ∧ h' = h.counted ∨
        ∃ free' c, BlockMoved e size b live h h' res free' c) := by
  have hb : b ∈ free ++ b :: live := List.mem_append_right _ List.mem_cons_self
  have hheader := r.blocks.header_le hb
  have hold := oldBytes_eq r.blocks hb
  have hgo : ∀ fuel, heapRealloc e fuel (b.start + headerSize) size h =
      if size ≤ b.len - headerSize then some (b.start + headerSize, h)
      else (heapMalloc e fuel size h).bind fun g =>
        if g.1 = 0 then some (0, g.2) else
          (heapFree e fuel (b.start + headerSize) { g.2 with
            mem := copyBytes g.1 (b.start + headerSize) (min (b.len - headerSize) size) 0
              g.2.mem }).map fun h => (g.1, h) := by
    intro fuel
    rw [heapRealloc, if_neg (by unfold headerSize; omega), if_neg (Nat.ne_of_gt hpos),
      Nat.add_sub_cancel]
    dsimp only
    rw [hold]
    cases heapMalloc e fuel size h <;> rfl
  by_cases hfits : size ≤ b.len - headerSize
  · refine ⟨h, b.start + headerSize, 0, fun fuel _ => ?_, Or.inr ⟨free, b, rfl, ?_, r,
      fun _ _ _ _ => rfl, fun _ _ => rfl⟩⟩
    · rw [hgo, if_pos hfits]
    · omega
  · have hinit := r.heapInit_eq
    obtain ⟨h₁, res, n, hmalloc, hcases⟩ := heapMalloc_spec (hinit.symm ▸ r) hreq hunits
    rw [hinit] at hcases
    rcases hcases with ⟨rfl, rfl⟩ | ⟨free', c, htaken⟩
    · refine ⟨_, 0, n, fun fuel hfuel => ?_, Or.inl ⟨rfl, rfl⟩⟩
      rw [hgo, if_neg hfits, hmalloc fuel hfuel]
      rfl
    · have hlen := (unitsFor_spec hreq).1
      rw [← htaken.len] at hlen
      have hres := htaken.res
      have hmin : min (b.len - headerSize) size + headerSize ≤ b.len := by omega
      obtain ⟨free'', h', m, hfree, hrep, hkeeps, hdata⟩ :=
        realloc_move htaken.rep hmin (by omega) hres
      refine ⟨h', res, n + m, fun fuel hfuel => ?_, Or.inr ⟨free'', c, hres, hlen, hrep,
        fun d hd => ?_, fun k hk => ?_⟩⟩
      · rw [hgo, if_neg hfits, hmalloc fuel (by omega)]
        dsimp only [Option.bind]
        rw [if_neg (by unfold headerSize at hres; omega), hfree fuel (by omega)]
        rfl
      · exact (fun x hx => (hkeeps d hd x hx).trans
          (htaken.keeps d (List.mem_cons_of_mem b hd) x hx))
      · rw [hdata k hk]
        refine htaken.keeps b List.mem_cons_self _ ?_
        unfold Block.Holds Block.stop
        omega

end Realloc

end OsAgentLab
