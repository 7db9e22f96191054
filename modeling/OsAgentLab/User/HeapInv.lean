/-
The invariant of the heap: the free list is a ring through `base` in address order,
and the free and the live blocks tile the memory that `sbrk` has returned.
-/
import OsAgentLab.Blocks
import OsAgentLab.Ring
import OsAgentLab.User.Malloc

namespace OsAgentLab

/-- Memory that `sbrk` has returned. -/
def UserHeap.Granted (h : UserHeap) (x : Nat) : Prop :=
  ∃ r ∈ h.granted, r.1 ≤ x ∧ x < r.1 + r.2

/-- The places of the free list and of the live blocks: `base` and the headers. -/
def HeapEnv.places (e : HeapEnv) (l : List Block) : List Nat := e.base :: l.map Block.start

theorem places_append (e : HeapEnv) (l l' : List Block) :
    e.places (l ++ l') = e.places l ++ l'.map Block.start := by
  rw [HeapEnv.places, List.map_append, ← List.cons_append, HeapEnv.places]

theorem places_mono {e : HeapEnv} {l l' : List Block} (hsub : ∀ b ∈ l, b ∈ l') {x : Nat}
    (hx : x ∈ e.places l) : x ∈ e.places l' := by
  rcases List.mem_cons.mp hx with rfl | hx
  · exact List.mem_cons_self
  · obtain ⟨b, hb, rfl⟩ := List.mem_map.mp hx
    exact List.mem_cons_of_mem _ (List.mem_map_of_mem (hsub b hb))

/-- The blocks tile the memory that `sbrk` has returned, and each has its size in units
in its header. -/
structure HeapBlocks (e : HeapEnv) (h : UserHeap) (l : List Block) : Prop where
  baseSize : h.size e.base = 0
  sizes : ∀ b ∈ l, headerSize * h.size b.start = b.len
  tiles : Tiles h.Granted l
  grants : ∀ r ∈ h.granted, e.start ≤ r.1 ∧ r.1 + r.2 ≤ heapTop e h
  top : e.start ≤ heapTop e h ∧ heapTop e h < 18446744073709551616

/-- The blocks of the free list and of the live pointers. -/
structure HeapRep (e : HeapEnv) (h : UserHeap) (free live : List Block) : Prop where
  blocks : HeapBlocks e h (free ++ live)
  ring : Ring h.next e.base (free.map Block.start)
  freep : h.freep ∈ e.places free
  spaced : Spaced free

/-- The bytes of the blocks, their headers included, are the same in both heaps. -/
def KeepsBlocks (l : List Block) (h h' : UserHeap) : Prop :=
  ∀ b ∈ l, ∀ x, b.Holds x → h'.mem x = h.mem x

theorem KeepsBlocks.trans {l : List Block} {h h' h'' : UserHeap} (hab : KeepsBlocks l h h')
    (hbc : KeepsBlocks l h' h'') : KeepsBlocks l h h'' :=
  fun b hb x hx => (hbc b hb x hx).trans (hab b hb x hx)

section Headers

/-- Two headers do not overlap. -/
def HeaderApart (a b : Nat) : Prop := a + headerSize ≤ b ∨ b + headerSize ≤ a

variable {h : UserHeap} {a b w : Nat}

theorem HeaderApart.symm (h : HeaderApart a b) : HeaderApart b a := Or.symm h

theorem next_lt (h : UserHeap) (a : Nat) : h.next a < 18446744073709551616 := le64_lt _ _

theorem size_lt (h : UserHeap) (a : Nat) : h.size a < 18446744073709551616 := le64_lt _ _

theorem next_setNext_self (hw : w < 18446744073709551616) : (h.setNext a w).next a = w :=
  le64_put64_self hw

theorem size_setSize_self (hw : w < 18446744073709551616) : (h.setSize a w).size a = w :=
  le64_put64_self hw

theorem next_setNext (hab : HeaderApart a b) : (h.setNext a w).next b = h.next b := by
  unfold HeaderApart headerSize at hab
  exact le64_put64_of_apart (by omega)

theorem size_setNext_self : (h.setNext a w).size a = h.size a :=
  le64_put64_of_apart (by omega)

theorem size_setNext (hab : HeaderApart a b) : (h.setNext a w).size b = h.size b := by
  unfold HeaderApart headerSize at hab
  exact le64_put64_of_apart (by omega)

theorem next_setSize_self : (h.setSize a w).next a = h.next a :=
  le64_put64_of_apart (by omega)

theorem next_setSize (hab : HeaderApart a b) : (h.setSize a w).next b = h.next b := by
  unfold HeaderApart headerSize at hab
  exact le64_put64_of_apart (by omega)

theorem size_setSize (hab : HeaderApart a b) : (h.setSize a w).size b = h.size b := by
  unfold HeaderApart headerSize at hab
  exact le64_put64_of_apart (by omega)

/-- Two heaps that agree outside the header at `a`. -/
structure AgreeBut (a : Nat) (h h' : UserHeap) : Prop where
  mem : ∀ x, x < a ∨ a + headerSize ≤ x → h'.mem x = h.mem x
  freep : h'.freep = h.freep
  calls : h'.calls = h.calls
  granted : h'.granted = h.granted

theorem AgreeBut.setNext (h : UserHeap) (a w : Nat) : AgreeBut a h (h.setNext a w) := by
  refine ⟨fun x hx => put64_of_apart ?_, rfl, rfl, rfl⟩
  unfold headerSize at hx
  omega

theorem AgreeBut.setSize (h : UserHeap) (a w : Nat) : AgreeBut a h (h.setSize a w) := by
  refine ⟨fun x hx => put64_of_apart ?_, rfl, rfl, rfl⟩
  unfold headerSize at hx
  omega

@[simp] theorem setFreep_mem (h : UserHeap) (p : Nat) : (h.setFreep p).mem = h.mem := rfl

@[simp] theorem setFreep_granted (h : UserHeap) (p : Nat) :
    (h.setFreep p).granted = h.granted := rfl

variable {h' h'' : UserHeap}

theorem AgreeBut.trans (hab : AgreeBut a h h') (hbc : AgreeBut a h' h'') : AgreeBut a h h'' :=
  ⟨fun x hx => (hbc.mem x hx).trans (hab.mem x hx), hbc.freep.trans hab.freep,
    hbc.calls.trans hab.calls, hbc.granted.trans hab.granted⟩

theorem AgreeBut.next (hag : AgreeBut a h h') (hab : HeaderApart a b) : h'.next b = h.next b := by
  unfold HeaderApart headerSize at hab
  refine le64_congr fun i hi => hag.mem _ ?_
  unfold headerSize
  omega

theorem AgreeBut.size (hag : AgreeBut a h h') (hab : HeaderApart a b) : h'.size b = h.size b := by
  unfold HeaderApart headerSize at hab
  refine le64_congr fun i hi => hag.mem _ ?_
  unfold headerSize
  omega

end Headers

namespace HeapBlocks

variable {e : HeapEnv} {h h' h₁ h₂ : UserHeap} {l l' : List Block} {a b c : Block}
  {p q w x : Nat}

theorem perm (r : HeapBlocks e h l) (hp : l.Perm l') : HeapBlocks e h l' where
  baseSize := r.baseSize
  sizes b hb := r.sizes b (hp.mem_iff.mpr hb)
  tiles := r.tiles.perm hp
  grants := r.grants
  top := r.top

theorem within (r : HeapBlocks e h l) (hb : b ∈ l) : e.start ≤ b.start ∧ b.stop ≤ heapTop e h := by
  have hgranted : ∀ x, h.Granted x → e.start ≤ x ∧ x < heapTop e h := by
    rintro x ⟨g, hg, hx⟩
    have := r.grants g hg
    omega
  exact r.tiles.bounds hgranted hb

theorem bounds (r : HeapBlocks e h l) (hb : b ∈ l) :
    e.base + headerSize ≤ b.start ∧ b.stop < 18446744073709551616 := by
  have hin := r.within hb
  have hle := e.base_le
  have htop := r.top
  unfold headerSize
  omega

theorem base_lt (e : HeapEnv) : e.base < 18446744073709551616 := by
  have hle := e.base_le
  have hlt := e.start_lt
  omega

theorem header_le (r : HeapBlocks e h l) (hb : b ∈ l) : headerSize ≤ b.len := by
  have hpos := r.tiles.nonempty b hb
  have hsize := r.sizes b hb
  rcases Nat.eq_zero_or_pos (h.size b.start) with hzero | hsome
  · rw [hzero] at hsize
    omega
  · rw [← hsize]
    exact Nat.le_mul_of_pos_right headerSize hsome

/-- The end of a block by its header. -/
theorem headerAdd_eq (r : HeapBlocks e h l) (hb : b ∈ l) :
    headerAdd b.start (h.size b.start) = b.stop := by
  rw [headerAdd, r.sizes b hb]
  exact Nat.mod_eq_of_lt (r.bounds hb).2

/-- The first block of the list has a header of its own. -/
theorem start_ne (r : HeapBlocks e h (b :: l)) (hc : c ∈ l) : b.start ≠ c.start := by
  have hapart := r.tiles.apart_of_split hc
  have hb := r.header_le List.mem_cons_self
  have hc := r.header_le (List.mem_cons_of_mem b hc)
  unfold Block.Apart Block.stop headerSize at *
  omega

theorem start_not_mem (r : HeapBlocks e h (b :: l)) : b.start ∉ e.places l := by
  intro hmem
  rcases List.mem_cons.mp hmem with heq | hmem
  · have := (r.bounds List.mem_cons_self).1
    unfold headerSize at this
    omega
  · obtain ⟨c, hc, heq⟩ := List.mem_map.mp hmem
    exact r.start_ne hc heq.symm

theorem base_ne (r : HeapBlocks e h l) (hb : b ∈ l) : e.base ≠ b.start := by
  have := (r.bounds hb).1
  unfold headerSize at this
  omega

/-- No two places are the same. -/
theorem nodup (r : HeapBlocks e h l) : (e.places l).Nodup := by
  refine List.pairwise_cons.mpr ⟨fun x hx => ?_, List.pairwise_map.mpr ?_⟩
  · obtain ⟨b, hb, rfl⟩ := List.mem_map.mp hx
    exact r.base_ne hb
  · refine r.tiles.apart.imp_of_mem fun {b c} hb hc hapart => ?_
    have hlen := r.header_le hb
    have hlen' := r.header_le hc
    unfold Block.Apart Block.stop headerSize at *
    omega

/-- The headers at two different places. -/
theorem place_apart (r : HeapBlocks e h l) (hp : p ∈ e.places l) (hq : q ∈ e.places l)
    (hne : p ≠ q) : HeaderApart p q := by
  have hbase : ∀ b ∈ l, HeaderApart e.base b.start := fun b hb => Or.inl (r.bounds hb).1
  rcases List.mem_cons.mp hp with rfl | hp
  · rcases List.mem_cons.mp hq with rfl | hq
    · exact absurd rfl hne
    · obtain ⟨b, hb, rfl⟩ := List.mem_map.mp hq
      exact hbase b hb
  · obtain ⟨b, hb, rfl⟩ := List.mem_map.mp hp
    rcases List.mem_cons.mp hq with rfl | hq
    · exact (hbase b hb).symm
    · obtain ⟨c, hc, rfl⟩ := List.mem_map.mp hq
      have hlen := r.header_le hb
      have hlen' := r.header_le hc
      have hapart : b.Apart c := r.tiles.apart.forall hb hc fun heq => hne (heq ▸ rfl)
      unfold Block.Apart Block.stop at hapart
      unfold HeaderApart
      omega

/-- A header that changes leaves the other blocks alone. -/
theorem agree_mem (r : HeapBlocks e h l) (hag : AgreeBut p h₁ h₂) (hp : p ∈ e.places l)
    (hb : b ∈ l) (hne : p ≠ b.start) (hx : b.Holds x) : h₂.mem x = h₁.mem x := by
  apply hag.mem
  unfold Block.Holds at hx
  rcases List.mem_cons.mp hp with rfl | hp
  · have := (r.bounds hb).1
    omega
  · obtain ⟨c, hc, rfl⟩ := List.mem_map.mp hp
    have hlen := r.header_le hc
    have hapart : c.Apart b := r.tiles.apart.forall hc hb fun heq => hne (heq ▸ rfl)
    unfold Block.Apart Block.stop at *
    omega

theorem agree_next (r : HeapBlocks e h l) (hag : AgreeBut p h₁ h₂) (hp : p ∈ e.places l)
    (hq : q ∈ e.places l) (hne : p ≠ q) : h₂.next q = h₁.next q :=
  hag.next (r.place_apart hp hq hne)

/-- The data of a block is in no header. -/
theorem data_ne (r : HeapBlocks e h l) (hb : b ∈ l) (hlo : b.start + headerSize ≤ x)
    (hhi : x < b.stop) (hp : p ∈ e.places l) : ¬ (p ≤ x ∧ x < p + headerSize) := by
  rcases List.mem_cons.mp hp with rfl | hp
  · have := (r.bounds hb).1
    omega
  · obtain ⟨c, hc, rfl⟩ := List.mem_map.mp hp
    by_cases hcb : c = b
    · rw [hcb]
      omega
    · have hlen := r.header_le hc
      have hapart : c.Apart b := r.tiles.apart.forall hc hb hcb
      unfold Block.Apart Block.stop at *
      omega

/-- A header whose size stays may change. -/
theorem agree (r : HeapBlocks e h l) (hag : AgreeBut p h h') (hp : p ∈ e.places l)
    (hsize : h'.size p = h.size p) : HeapBlocks e h' l := by
  have hall : ∀ q ∈ e.places l, h'.size q = h.size q := by
    intro q hq
    by_cases hne : p = q
    · exact hne ▸ hsize
    · exact hag.size (r.place_apart hp hq hne)
  have htop : heapTop e h' = heapTop e h := by rw [heapTop, heapTop, hag.granted]
  refine ⟨(hall _ List.mem_cons_self).trans r.baseSize, fun b hb => ?_, ?_, ?_, ?_⟩
  · rw [hall b.start (List.mem_cons_of_mem _ (List.mem_map_of_mem hb))]
    exact r.sizes b hb
  · exact r.tiles.congr fun x => by rw [UserHeap.Granted, UserHeap.Granted, hag.granted]
  · rw [hag.granted, htop]
    exact r.grants
  · rw [htop]
    exact r.top

theorem setNext (r : HeapBlocks e h l) (hp : p ∈ e.places l) : HeapBlocks e (h.setNext p w) l :=
  r.agree (AgreeBut.setNext h p w) hp size_setNext_self

/-- Two neighbours become one block. -/
theorem join (r : HeapBlocks e h (a :: b :: l)) (hab : a.stop = b.start) :
    HeapBlocks e (h.setSize a.start (u64 (h.size a.start + h.size b.start))) (a.join b :: l) := by
  have hb : b ∈ a :: b :: l := List.mem_cons_of_mem a List.mem_cons_self
  have hsum : headerSize * (h.size a.start + h.size b.start) = a.len + b.len := by
    rw [Nat.mul_add, r.sizes a List.mem_cons_self, r.sizes b hb]
  have hstop := (r.bounds hb).2
  have hlt : h.size a.start + h.size b.start < 18446744073709551616 := by
    unfold Block.stop headerSize at *
    omega
  rw [u64, Nat.mod_eq_of_lt hlt]
  have hag := AgreeBut.setSize h a.start (h.size a.start + h.size b.start)
  have ha : a.start ∈ e.places (a :: b :: l) := List.mem_cons_of_mem _ List.mem_cons_self
  refine ⟨?_, fun c hc => ?_, r.tiles.join hab, r.grants, r.top⟩
  · rw [hag.size (r.place_apart ha List.mem_cons_self (r.base_ne List.mem_cons_self).symm)]
    exact r.baseSize
  · rcases List.mem_cons.mp hc with rfl | hc
    · change headerSize * UserHeap.size _ a.start = a.len + b.len
      rw [size_setSize_self hlt]
      exact hsum
    · have hc : c ∈ b :: l := List.mem_cons_of_mem b hc
      have hc' : c ∈ a :: b :: l := List.mem_cons_of_mem a hc
      rw [hag.size (r.place_apart ha (List.mem_cons_of_mem _ (List.mem_map_of_mem hc'))
        (r.start_ne hc))]
      exact r.sizes c hc'

/-- The tail of a block becomes a block of its own. -/
theorem split {n : Nat} (r : HeapBlocks e h (b :: l)) (hn : 0 < n) (hlt : n < h.size b.start) :
    HeapBlocks e ((h.setSize b.start (h.size b.start - n)).setSize
        (b.start + headerSize * (h.size b.start - n)) n)
      (⟨b.start, headerSize * (h.size b.start - n)⟩ ::
        ⟨b.start + headerSize * (h.size b.start - n), headerSize * n⟩ :: l) := by
  have hlen := r.sizes b List.mem_cons_self
  have hrange := size_lt h b.start
  obtain ⟨m, hm⟩ : ∃ m, h.size b.start = m + n := ⟨h.size b.start - n, by omega⟩
  rw [hm] at hlt hlen hrange ⊢
  rw [Nat.add_sub_cancel]
  have hb : b = Block.join ⟨b.start, headerSize * m⟩ ⟨b.start + headerSize * m, headerSize * n⟩ := by
    rw [Block.join, ← Nat.mul_add, hlen]
  have hheader : 16 ≤ headerSize * m := by
    unfold headerSize
    omega
  have htiles := (hb ▸ r.tiles).split rfl (show 0 < headerSize * m by omega)
    (Nat.mul_pos (by decide) hn)
  have hfirst := AgreeBut.setSize h b.start m
  have hsecond := AgreeBut.setSize (h.setSize b.start m) (b.start + headerSize * m) n
  -- the new header lies in the old block
  have hkeep : ∀ q ∈ e.places l,
      ((h.setSize b.start m).setSize (b.start + headerSize * m) n).size q = h.size q := by
    intro q hq
    have hbq : HeaderApart b.start q := r.place_apart (List.mem_cons_of_mem _ List.mem_cons_self)
      (places_mono (fun c hc => List.mem_cons_of_mem b hc) hq) fun heq => r.start_not_mem (heq ▸ hq)
    have hcq : HeaderApart (b.start + headerSize * m) q := by
      unfold HeaderApart
      rcases List.mem_cons.mp hq with rfl | hq
      · have := (r.bounds List.mem_cons_self).1
        omega
      · obtain ⟨c, hc, rfl⟩ := List.mem_map.mp hq
        have hsize := r.header_le (List.mem_cons_of_mem b hc)
        have hapart := r.tiles.apart_of_split hc
        unfold Block.Apart Block.stop headerSize at *
        omega
    rw [hsecond.size hcq, hfirst.size hbq]
  refine ⟨(hkeep _ List.mem_cons_self).trans r.baseSize, fun c hc => ?_, htiles, r.grants, r.top⟩
  rcases List.mem_cons.mp hc with rfl | hc
  · change headerSize * UserHeap.size _ b.start = headerSize * m
    rw [hsecond.size (Or.inr (by unfold headerSize; omega)), size_setSize_self (by omega)]
  · rcases List.mem_cons.mp hc with rfl | hc
    · change headerSize * UserHeap.size _ (b.start + headerSize * m) = headerSize * n
      rw [size_setSize_self (by omega)]
    · rw [hkeep _ (List.mem_cons_of_mem _ (List.mem_map_of_mem hc))]
      exact r.sizes c (List.mem_cons_of_mem b hc)

/-- New memory of `sbrk` becomes a block. -/
theorem grow {n : Nat} (r : HeapBlocks e h l) (hn : 0 < n) (htop : heapTop e h ≤ p)
    (hlt : p + headerSize * n < 18446744073709551616)
    (hgranted : h'.granted = (p, headerSize * n) :: h.granted) (hmem : h'.mem = h.mem) :
    HeapBlocks e (h'.setSize p n) (⟨p, headerSize * n⟩ :: l) := by
  have hkeep : ∀ q ∈ e.places l, (h'.setSize p n).size q = h.size q := by
    intro q hq
    have hpq : HeaderApart p q := by
      rcases List.mem_cons.mp hq with rfl | hq
      · have hbase := e.base_le
        have hstart := r.top.1
        exact Or.inr (by unfold headerSize; omega)
      · obtain ⟨c, hc, rfl⟩ := List.mem_map.mp hq
        have hlen := r.header_le hc
        have hstop := (r.within hc).2
        unfold Block.stop at hstop
        exact Or.inr (by omega)
    rw [size_setSize hpq, UserHeap.size, hmem]
    rfl
  have htop' : heapTop e (h'.setSize p n) = p + headerSize * n := by
    change h'.granted.head?.elim e.start _ = _
    rw [hgranted]
    rfl
  have hnew : ∀ x, Block.Holds ⟨p, headerSize * n⟩ x → ¬ h.Granted x := by
    rintro x hx ⟨g, hg, hin⟩
    have hle := (r.grants g hg).2
    have hpx : p ≤ x := hx.1
    omega
  refine ⟨(hkeep _ List.mem_cons_self).trans r.baseSize, fun c hc => ?_,
    (r.tiles.grow (b := ⟨p, headerSize * n⟩) (Nat.mul_pos (by decide) hn) hnew).congr fun x => ?_,
    fun g hg => ?_, ?_⟩
  · rcases List.mem_cons.mp hc with rfl | hc
    · change headerSize * UserHeap.size _ p = headerSize * n
      rw [size_setSize_self]
      unfold headerSize at hlt
      omega
    · rw [hkeep _ (List.mem_cons_of_mem _ (List.mem_map_of_mem hc))]
      exact r.sizes c hc
  · change (∃ g ∈ h'.granted, _) ↔ _
    rw [hgranted]
    simp only [List.mem_cons, exists_eq_or_imp]
    exact or_comm
  · rw [htop']
    change g ∈ h'.granted at hg
    rw [hgranted] at hg
    rcases List.mem_cons.mp hg with rfl | hg
    · exact ⟨Nat.le_trans r.top.1 htop, Nat.le_refl _⟩
    · have := r.grants g hg
      omega
  · rw [htop']
    have := r.top.1
    omega

end HeapBlocks

namespace HeapBlocks

variable {e : HeapEnv} {h : UserHeap} {l free : List Block}

theorem setFreep (r : HeapBlocks e h l) (p : Nat) : HeapBlocks e (h.setFreep p) l :=
  ⟨r.baseSize, r.sizes, r.tiles, r.grants, r.top⟩

/-- The places of a spaced list of blocks are in address order. -/
theorem sorted (r : HeapBlocks e h l) (hs : Spaced free) (hsub : ∀ b ∈ free, b ∈ l) :
    (e.places free).Pairwise (· < ·) := by
  refine List.pairwise_cons.mpr ⟨fun x hx => ?_, ?_⟩
  · obtain ⟨b, hb, rfl⟩ := List.mem_map.mp hx
    have := (r.bounds (hsub b hb)).1
    unfold headerSize at this
    omega
  · refine List.pairwise_map.mpr (hs.imp fun {a b} hab => ?_)
    unfold Block.stop at hab
    omega

end HeapBlocks

namespace HeapRep

variable {e : HeapEnv} {h : UserHeap} {free live live' : List Block}

theorem sorted (r : HeapRep e h free live) : (e.places free).Pairwise (· < ·) :=
  r.blocks.sorted r.spaced fun _ hb => List.mem_append_left live hb

theorem freep_pos (r : HeapRep e h free live) : 0 < h.freep := by
  rcases List.mem_cons.mp r.freep with heq | hmem
  · rw [heq]
    exact e.base_pos
  · exact Nat.lt_trans e.base_pos ((List.pairwise_cons.mp r.sorted).1 _ hmem)

theorem heapInit_eq (r : HeapRep e h free live) : heapInit e h = h :=
  if_neg (Nat.ne_of_gt r.freep_pos)

theorem perm (r : HeapRep e h free live) (hp : live.Perm live') : HeapRep e h free live' :=
  ⟨r.blocks.perm (hp.append_left free), r.ring, r.freep, r.spaced⟩

end HeapRep

end OsAgentLab
