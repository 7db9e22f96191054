/-
Blocks of memory: tilings of a set of addresses by blocks that do not overlap, and
lists of blocks in address order with a gap between any two.
-/
import Mathlib.Data.List.Basic
import Mathlib.Data.List.Pairwise
import Mathlib.Data.List.Perm.Basic

namespace OsAgentLab

/-- A block of `len` addresses from `start` on. -/
structure Block where
  start : Nat
  len : Nat
deriving DecidableEq, Repr

namespace Block

/-- The first address behind the block. -/
def stop (b : Block) : Nat := b.start + b.len

/-- The address `x` lies in the block. -/
def Holds (b : Block) (x : Nat) : Prop := b.start ≤ x ∧ x < b.stop

def Apart (a b : Block) : Prop := a.stop ≤ b.start ∨ b.stop ≤ a.start

/-- The block that begins with `a` and goes on with `b`. -/
def join (a b : Block) : Block := ⟨a.start, a.len + b.len⟩

variable {a b c : Block} {x : Nat}

instance : Std.Symm Apart := ⟨fun _ _ => Or.symm⟩

theorem join_stop (h : a.stop = b.start) : (a.join b).stop = b.stop := by
  unfold stop at *
  change a.start + (a.len + b.len) = b.start + b.len
  omega

theorem holds_join (h : a.stop = b.start) : (a.join b).Holds x ↔ a.Holds x ∨ b.Holds x := by
  unfold Holds stop join at *
  simp only
  omega

theorem apart_join (h : a.stop = b.start) (ha : 0 < a.len) (hb : 0 < b.len) (hc : 0 < c.len) :
    (a.join b).Apart c ↔ a.Apart c ∧ b.Apart c := by
  unfold Apart stop join at *
  simp only
  omega

end Block

/-- The blocks of the list are apart and together hold exactly the addresses in `P`. -/
structure Tiles (P : Nat → Prop) (l : List Block) : Prop where
  apart : l.Pairwise Block.Apart
  cover : ∀ x, P x ↔ ∃ b ∈ l, b.Holds x
  nonempty : ∀ b ∈ l, 0 < b.len

namespace Tiles

variable {P Q : Nat → Prop} {l l' : List Block} {a b : Block}

theorem nil : Tiles (fun _ => False) [] where
  apart := List.Pairwise.nil
  cover := fun _ => ⟨False.elim, fun ⟨_, h, _⟩ => absurd h List.not_mem_nil⟩
  nonempty := fun _ h => absurd h List.not_mem_nil

theorem perm (h : Tiles P l) (hp : l.Perm l') : Tiles P l' where
  apart := (hp.pairwise_iff fun h => Or.symm h).mp h.apart
  cover x := (h.cover x).trans ⟨fun ⟨b, hb, hx⟩ => ⟨b, hp.mem_iff.mp hb, hx⟩,
    fun ⟨b, hb, hx⟩ => ⟨b, hp.mem_iff.mpr hb, hx⟩⟩
  nonempty b hb := h.nonempty b (hp.mem_iff.mpr hb)

/-- Two neighbours become one block. -/
theorem join (h : Tiles P (a :: b :: l)) (hab : a.stop = b.start) : Tiles P (a.join b :: l) := by
  have ha : 0 < a.len := h.nonempty a List.mem_cons_self
  have hb : 0 < b.len := h.nonempty b (List.mem_cons_of_mem a List.mem_cons_self)
  have hpair := List.pairwise_cons.mp h.apart
  have hpair' := List.pairwise_cons.mp hpair.2
  refine ⟨List.pairwise_cons.mpr ⟨fun c hc => ?_, hpair'.2⟩, fun x => ?_, fun c hc => ?_⟩
  · have hc' := h.nonempty c (List.mem_cons_of_mem a (List.mem_cons_of_mem b hc))
    exact (Block.apart_join hab ha hb hc').mpr
      ⟨hpair.1 c (List.mem_cons_of_mem b hc), hpair'.1 c hc⟩
  · rw [h.cover]
    simp only [List.mem_cons, exists_eq_or_imp, Block.holds_join hab, or_assoc]
  · rcases List.mem_cons.mp hc with rfl | hc
    · exact Nat.add_pos_left ha b.len
    · exact h.nonempty c (List.mem_cons_of_mem a (List.mem_cons_of_mem b hc))

/-- One block becomes two neighbours. -/
theorem split (h : Tiles P (a.join b :: l)) (hab : a.stop = b.start) (ha : 0 < a.len)
    (hb : 0 < b.len) : Tiles P (a :: b :: l) := by
  have hpair := List.pairwise_cons.mp h.apart
  have hboth : ∀ c ∈ l, a.Apart c ∧ b.Apart c := fun c hc =>
    (Block.apart_join hab ha hb (h.nonempty c (List.mem_cons_of_mem _ hc))).mp (hpair.1 c hc)
  refine ⟨List.pairwise_cons.mpr ⟨fun c hc => ?_, List.pairwise_cons.mpr
    ⟨fun c hc => (hboth c hc).2, hpair.2⟩⟩, fun x => ?_, fun c hc => ?_⟩
  · rcases List.mem_cons.mp hc with rfl | hc
    · exact Or.inl (Nat.le_of_eq hab)
    · exact (hboth c hc).1
  · rw [h.cover]
    simp only [List.mem_cons, exists_eq_or_imp, Block.holds_join hab, or_assoc]
  · rcases List.mem_cons.mp hc with rfl | hc
    · exact ha
    · rcases List.mem_cons.mp hc with rfl | hc
      · exact hb
      · exact h.nonempty c (List.mem_cons_of_mem _ hc)

/-- A block of new addresses is added. -/
theorem grow (h : Tiles P l) (hb : 0 < b.len) (hnew : ∀ x, b.Holds x → ¬ P x) :
    Tiles (fun x => P x ∨ b.Holds x) (b :: l) := by
  refine ⟨List.pairwise_cons.mpr ⟨fun c hc => ?_, h.apart⟩, fun x => ?_, fun c hc => ?_⟩
  · -- the larger of the two starts would lie in both blocks
    by_contra hnot
    have hc' : 0 < c.len := h.nonempty c hc
    unfold Block.Apart Block.stop at hnot
    have hmax : b.Holds (max b.start c.start) := by
      unfold Block.Holds Block.stop
      omega
    refine hnew _ hmax ((h.cover _).mpr ⟨c, hc, ?_⟩)
    unfold Block.Holds Block.stop
    omega
  · rw [h.cover]
    simp only [List.mem_cons, exists_eq_or_imp]
    exact or_comm
  · rcases List.mem_cons.mp hc with rfl | hc
    · exact hb
    · exact h.nonempty c hc

theorem congr (h : Tiles P l) (hPQ : ∀ x, Q x ↔ P x) : Tiles Q l where
  apart := h.apart
  cover x := (hPQ x).trans (h.cover x)
  nonempty := h.nonempty

/-- Bounds of the addresses are bounds of the blocks. -/
theorem bounds (h : Tiles P l) {lo hi : Nat} (hP : ∀ x, P x → lo ≤ x ∧ x < hi) (hb : b ∈ l) :
    lo ≤ b.start ∧ b.stop ≤ hi := by
  have hpos := h.nonempty b hb
  have hfirst := hP b.start ((h.cover _).mpr ⟨b, hb, Nat.le_refl _, Nat.lt_add_of_pos_right hpos⟩)
  have hlast := hP (b.stop - 1) ((h.cover _).mpr ⟨b, hb, by
    unfold Block.Holds Block.stop
    omega⟩)
  unfold Block.stop at *
  omega

/-- Two blocks of a tiling that are in different places are apart. -/
theorem apart_of_split (h : Tiles P (a :: l)) (hb : b ∈ l) : a.Apart b :=
  (List.pairwise_cons.mp h.apart).1 b hb

end Tiles

/-- The blocks are in address order, and no two of them meet. -/
def Spaced (l : List Block) : Prop := l.Pairwise fun a b => a.stop < b.start

namespace Spaced

variable {pre post : List Block} {a b c : Block}

theorem insert (h : Spaced (pre ++ post)) (hpre : ∀ a ∈ pre, a.stop < b.start)
    (hpost : ∀ c ∈ post, b.stop < c.start) : Spaced (pre ++ b :: post) := by
  obtain ⟨hl, hr, hlr⟩ := List.pairwise_append.mp h
  refine List.pairwise_append.mpr ⟨hl, List.pairwise_cons.mpr ⟨hpost, hr⟩, fun a ha c hc => ?_⟩
  rcases List.mem_cons.mp hc with rfl | hc
  · exact hpre a ha
  · exact hlr a ha c hc

theorem remove (h : Spaced (pre ++ b :: post)) : Spaced (pre ++ post) := by
  obtain ⟨hl, hr, hlr⟩ := List.pairwise_append.mp h
  exact List.pairwise_append.mpr ⟨hl, (List.pairwise_cons.mp hr).2,
    fun a ha c hc => hlr a ha c (List.mem_cons_of_mem b hc)⟩

theorem before (h : Spaced (pre ++ b :: post)) : ∀ a ∈ pre, a.stop < b.start :=
  fun a ha => (List.pairwise_append.mp h).2.2 a ha b List.mem_cons_self

theorem after (h : Spaced (pre ++ b :: post)) : ∀ c ∈ post, b.stop < c.start :=
  (List.pairwise_cons.mp (List.pairwise_append.mp h).2.1).1

/-- The place of a block that is apart from all others. -/
theorem place {l : List Block} (h : Spaced l) (hapart : ∀ c ∈ l, b.Apart c) :
    ∃ pre post, l = pre ++ post ∧ (∀ a ∈ pre, a.stop ≤ b.start) ∧ ∀ c ∈ post, b.stop ≤ c.start := by
  induction l with
  | nil => exact ⟨[], [], rfl, fun _ h => absurd h List.not_mem_nil,
      fun _ h => absurd h List.not_mem_nil⟩
  | cons c rest ih =>
      obtain ⟨hc, hrest⟩ := List.pairwise_cons.mp h
      rcases hapart c List.mem_cons_self with hle | hle
      · refine ⟨[], c :: rest, rfl, fun _ h => absurd h List.not_mem_nil, fun d hd => ?_⟩
        rcases List.mem_cons.mp hd with rfl | hd
        · exact hle
        · have := hc d hd
          unfold Block.stop at *
          omega
      · obtain ⟨pre, post, rfl, hpre, hpost⟩ :=
          ih hrest fun d hd => hapart d (List.mem_cons_of_mem c hd)
        refine ⟨c :: pre, post, rfl, fun d hd => ?_, hpost⟩
        rcases List.mem_cons.mp hd with rfl | hd
        · exact hle
        · exact hpre d hd

end Spaced

end OsAgentLab
