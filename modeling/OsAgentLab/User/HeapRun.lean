/-
Programs that allocate: any sequence of calls of `malloc`, `free` and `realloc` with
live pointers, and of stores into the memory the program was given.
-/
import OsAgentLab.User.HeapCalls

namespace OsAgentLab

/-- A pointer the program holds, with the number of bytes it asked for. -/
structure HeldPtr where
  ptr : Nat
  want : Nat

inductive HeapCall
  | malloc (nbytes : Nat)
  | free (ptr : Nat)
  | realloc (ptr size : Nat)
  | store (addr : Nat) (byte : UInt8)

/-- The pointers without `ptr`. -/
def without (ptr : Nat) (live : List HeldPtr) : List HeldPtr :=
  live.eraseP fun a => a.ptr = ptr

/-- The bytes the program asked for are the same in both heaps. -/
def KeepsData (live : List HeldPtr) (h h' : UserHeap) : Prop :=
  ∀ a ∈ live, ∀ i < a.want, h'.mem (a.ptr + i) = h.mem (a.ptr + i)

namespace HeapCall

/-- The sums of a request do not wrap around. -/
def Fits (nbytes : Nat) : Prop :=
  nbytes + 15 < 18446744073709551616 ∧ headerSize * unitsFor nbytes < 18446744073709551616

/-- `free` and `realloc` get a live pointer or none, and the program stays within the
bytes it asked for. -/
def Allowed (live : List HeldPtr) : HeapCall → Prop
  | malloc nbytes => Fits nbytes
  | free ptr => ptr = 0 ∨ ∃ a ∈ live, a.ptr = ptr
  | realloc ptr size => (ptr = 0 ∨ ∃ a ∈ live, a.ptr = ptr) ∧ Fits size
  | store addr _ => ∃ a ∈ live, a.ptr ≤ addr ∧ addr < a.ptr + a.want

def exec (e : HeapEnv) (fuel : Nat) : HeapCall → UserHeap → Option (Nat × UserHeap)
  | malloc nbytes, h => heapMalloc e fuel nbytes h
  | free ptr, h => (heapFree e fuel ptr h).map fun h => (0, h)
  | realloc ptr size, h => heapRealloc e fuel ptr size h
  | store addr byte, h => some (0, { h with mem := Function.update h.mem addr byte })

/-- The loops of the call end with this result. -/
def Returns (e : HeapEnv) (c : HeapCall) (h : UserHeap) (res : Nat) (h' : UserHeap) : Prop :=
  ∃ n, ∀ fuel, n ≤ fuel → c.exec e fuel h = some (res, h')

/-- The pointers the program holds after the call. -/
def held (live : List HeldPtr) (res : Nat) : HeapCall → List HeldPtr
  | malloc nbytes => if res = 0 then live else ⟨res, nbytes⟩ :: live
  | free ptr => without ptr live
  | realloc ptr size =>
      if res ≠ 0 then ⟨res, size⟩ :: without ptr live
      else if ptr ≠ 0 ∧ size = 0 then without ptr live
      else live
  | store _ _ => live

/-- What the call promises for the data of the live pointers. -/
def Keeps (live : List HeldPtr) (h : UserHeap) (res : Nat) (h' : UserHeap) : HeapCall → Prop
  | malloc _ => KeepsData live h h'
  | free ptr => KeepsData (without ptr live) h h'
  | realloc ptr size => KeepsData (without ptr live) h h' ∧
      (res = 0 → (ptr = 0 ∨ size ≠ 0) → KeepsData live h h') ∧
      (res ≠ 0 → ∀ a ∈ live, a.ptr = ptr → ∀ i < min a.want size,
        h'.mem (res + i) = h.mem (ptr + i))
  | store _ _ => True

end HeapCall

/-- What the program can reach, and the pointers it then holds. -/
inductive HeapReach (e : HeapEnv) : UserHeap → List HeldPtr → Prop
  | start {h : UserHeap} (hfreep : h.freep = 0) (hgranted : h.granted = []) : HeapReach e h []
  | call {h h' : UserHeap} {live : List HeldPtr} {c : HeapCall} {res : Nat}
      (hreach : HeapReach e h live) (hallowed : c.Allowed live) (hret : c.Returns e h res h') :
      HeapReach e h' (c.held live res)

/-- The block of a pointer has room for the bytes asked for. -/
def HeldPtr.In (a : HeldPtr) (b : Block) : Prop :=
  a.ptr = b.start + headerSize ∧ headerSize + a.want ≤ b.len

/-- The invariant of the runs: the heap as the next call finds it, and a live block for
each pointer. -/
structure HeapSound (e : HeapEnv) (h : UserHeap) (live : List HeldPtr)
    (free blocks : List Block) : Prop where
  rep : HeapRep e (heapInit e h) free blocks
  held : List.Forall₂ HeldPtr.In live blocks
  begun : h.freep = 0 → live = []

section Pointers

variable {e : HeapEnv} {h h' : UserHeap} {live : List HeldPtr} {free blocks : List Block}
  {ptr : Nat}

theorem block_of_pointer (hheld : List.Forall₂ HeldPtr.In live blocks) {a : HeldPtr}
    (ha : a ∈ live) : ∃ b ∈ blocks, a.In b := by
  induction hheld with
  | nil => exact absurd ha List.not_mem_nil
  | cons hin _ ih =>
      rcases List.mem_cons.mp ha with rfl | ha
      · exact ⟨_, List.mem_cons_self, hin⟩
      · obtain ⟨b, hb, hin⟩ := ih ha
        exact ⟨b, List.mem_cons_of_mem _ hb, hin⟩

/-- The block of a pointer and those of the others. -/
theorem blocks_without (hheld : List.Forall₂ HeldPtr.In live blocks)
    (hptr : ∃ a ∈ live, a.ptr = ptr) :
    ∃ b rest, ptr = b.start + headerSize ∧ blocks.Perm (b :: rest) ∧
      List.Forall₂ HeldPtr.In (without ptr live) rest := by
  induction hheld with
  | nil =>
      obtain ⟨a, ha, -⟩ := hptr
      exact absurd ha List.not_mem_nil
  | @cons a b live blocks hin hrest ih =>
      by_cases heq : a.ptr = ptr
      · refine ⟨b, blocks, heq ▸ hin.1, List.Perm.refl _, ?_⟩
        rw [without, List.eraseP_cons_of_pos (by simpa using heq)]
        exact hrest
      · obtain ⟨c, hc, hcptr⟩ := hptr
        have hc : c ∈ live := by
          rcases List.mem_cons.mp hc with rfl | hc
          · exact absurd hcptr heq
          · exact hc
        obtain ⟨d, rest, hd, hperm, hothers⟩ := ih ⟨c, hc, hcptr⟩
        refine ⟨d, b :: rest, hd, (hperm.cons b).trans (List.Perm.swap d b rest), ?_⟩
        rw [without, List.eraseP_cons_of_neg (by simpa using heq)]
        exact List.Forall₂.cons hin hothers

/-- The null pointer is none of the pointers. -/
theorem without_null (hheld : List.Forall₂ HeldPtr.In live blocks) : without 0 live = live := by
  refine List.eraseP_of_forall_not fun a ha => ?_
  obtain ⟨b, -, hin⟩ := block_of_pointer hheld ha
  have hptr := hin.1
  unfold headerSize at hptr
  simp only [decide_eq_true_eq]
  omega

theorem keepsData_of_blocks (hheld : List.Forall₂ HeldPtr.In live blocks)
    (hkeeps : KeepsBlocks blocks h h') : KeepsData live h h' := by
  intro a ha i hi
  obtain ⟨b, hb, hptr, hlen⟩ := block_of_pointer hheld ha
  refine hkeeps b hb _ ?_
  unfold Block.Holds Block.stop
  omega

/-- With a live pointer the heap has begun. -/
theorem HeapSound.heapInit_eq (s : HeapSound e h live free blocks) (hlive : live ≠ []) :
    heapInit e h = h :=
  if_neg fun hfreep => hlive (s.begun hfreep)

theorem HeapRep.sound (r : HeapRep e h free blocks)
    (hheld : List.Forall₂ HeldPtr.In live blocks) : HeapSound e h live free blocks :=
  ⟨r.heapInit_eq.symm ▸ r, hheld, fun hfreep => absurd hfreep (Nat.ne_of_gt r.freep_pos)⟩

/-- The program may write to what it asked for. -/
theorem HeapSound.write {m : Nat → UInt8} (s : HeapSound e h live free blocks) {a : HeldPtr}
    (ha : a ∈ live) (hm : ∀ x, x < a.ptr ∨ a.ptr + a.want ≤ x → m x = h.mem x) :
    HeapSound e { h with mem := m } live free blocks := by
  obtain ⟨b, hb, hptr, hlen⟩ := block_of_pointer s.held ha
  have hrep := s.rep
  rw [s.heapInit_eq (List.ne_nil_of_mem ha)] at hrep
  refine HeapRep.sound (hrep.data fun p hp i hi => hm _ ?_) s.held
  by_contra hin
  have hstop : p + i < b.stop := by
    unfold Block.stop
    omega
  exact hrep.blocks.data_ne (List.mem_append_right _ hb) (hptr ▸ by omega) hstop hp
    ⟨Nat.le_add_right p i, Nat.add_lt_add_left hi p⟩

end Pointers

namespace HeapCall

variable {e : HeapEnv} {h : UserHeap} {live : List HeldPtr} {free blocks : List Block}

/-- The call returns, keeps the promise for the data and the invariant. -/
def Sound (e : HeapEnv) (c : HeapCall) (live : List HeldPtr) (h : UserHeap) : Prop :=
  ∃ res h', c.Returns e h res h' ∧ c.Keeps live h res h' ∧
    ∃ free blocks, HeapSound e h' (c.held live res) free blocks

theorem malloc_sound (s : HeapSound e h live free blocks) {nbytes : Nat} (hfits : Fits nbytes) :
    (malloc nbytes).Sound e live h := by
  obtain ⟨h', res, n, hrun, hcases⟩ := heapMalloc_spec s.rep hfits.1 hfits.2
  have hkeep : KeepsBlocks blocks (heapInit e h) h' → KeepsData live h h' := by
    intro hkeeps
    by_cases hlive : live = []
    · rw [hlive]
      exact fun a ha => absurd ha List.not_mem_nil
    · rw [s.heapInit_eq hlive] at hkeeps
      exact keepsData_of_blocks s.held hkeeps
  refine ⟨res, h', ⟨n, hrun⟩, ?_⟩
  rcases hcases with ⟨rfl, rfl⟩ | ⟨free', c, htaken⟩
  · exact ⟨hkeep fun _ _ _ _ => rfl, free, blocks, s.rep.counted.sound s.held⟩
  · have hres := htaken.res
    have hne : res ≠ 0 := by
      unfold headerSize at hres
      omega
    refine ⟨hkeep htaken.keeps, free', c :: blocks, htaken.rep.sound ?_⟩
    rw [held, if_neg hne]
    exact List.Forall₂.cons ⟨hres, htaken.len ▸ (unitsFor_spec hfits.1).1⟩ s.held

theorem free_sound (s : HeapSound e h live free blocks) {ptr : Nat}
    (hptr : ptr = 0 ∨ ∃ a ∈ live, a.ptr = ptr) : (HeapCall.free ptr).Sound e live h := by
  rcases hptr with rfl | hptr
  · refine ⟨0, h, ⟨0, fun _ _ => rfl⟩, fun _ _ _ _ => rfl, free, blocks, ?_⟩
    rw [held, without_null s.held]
    exact s
  · obtain ⟨b, rest, rfl, hperm, hothers⟩ := blocks_without s.held hptr
    obtain ⟨a, ha, -⟩ := hptr
    have hrep := s.rep
    rw [s.heapInit_eq (List.ne_nil_of_mem ha)] at hrep
    obtain ⟨free', h', -, hrep', hkeeps, -, hrun⟩ := heapFree_spec (hrep.perm hperm)
    refine ⟨0, h', ⟨free.length + 2, fun fuel hfuel => ?_⟩, keepsData_of_blocks hothers hkeeps,
      free', rest, hrep'.sound hothers⟩
    rw [exec, hrun fuel hfuel]
    rfl

theorem store_sound (s : HeapSound e h live free blocks) {addr : Nat} {byte : UInt8}
    (haddr : ∃ a ∈ live, a.ptr ≤ addr ∧ addr < a.ptr + a.want) :
    (store addr byte).Sound e live h := by
  obtain ⟨a, ha, hlo, hhi⟩ := haddr
  refine ⟨0, _, ⟨0, fun _ _ => rfl⟩, trivial, free, blocks, s.write ha fun x hx => ?_⟩
  exact Function.update_of_ne (by omega) _ _

theorem realloc_sound (s : HeapSound e h live free blocks) {ptr size : Nat}
    (hptr : ptr = 0 ∨ ∃ a ∈ live, a.ptr = ptr) (hfits : Fits size) :
    (realloc ptr size).Sound e live h := by
  rcases hptr with rfl | hptr
  · -- the call is one of `malloc`
    obtain ⟨res, h', ⟨n, hrun⟩, hkeeps, free', blocks', hsound⟩ := malloc_sound s hfits
    have hnull := without_null s.held
    refine ⟨res, h', ⟨n, fun fuel hfuel => hrun fuel hfuel⟩, ⟨hnull.symm ▸ hkeeps,
      fun _ _ => hkeeps, fun _ a ha heq => ?_⟩, free', blocks', ?_⟩
    · obtain ⟨b, -, hin⟩ := block_of_pointer s.held ha
      have hstart := hin.1
      unfold headerSize at hstart
      omega
    · rw [held, hnull, ite_not, if_neg (c := 0 ≠ 0 ∧ size = 0) fun h => h.1 rfl]
      exact hsound
  · obtain ⟨b, rest, rfl, hperm, hothers⟩ := blocks_without s.held hptr
    obtain ⟨a, ha, -⟩ := hptr
    have hrep := s.rep
    rw [s.heapInit_eq (List.ne_nil_of_mem ha)] at hrep
    have hne : b.start + headerSize ≠ 0 := by
      unfold headerSize
      omega
    rcases Nat.eq_zero_or_pos size with rfl | hpos
    · -- the call is one of `free`
      obtain ⟨free', h', -, hrep', hkeeps, -, hrun⟩ := heapFree_spec (hrep.perm hperm)
      refine ⟨0, h', ⟨free.length + 2, fun fuel hfuel => ?_⟩, ⟨keepsData_of_blocks hothers hkeeps,
        fun _ hor => ?_, fun hres => absurd rfl hres⟩, free', rest, ?_⟩
      · rw [exec, heapRealloc, if_neg hne, if_pos rfl, hrun fuel hfuel]
        rfl
      · exact absurd rfl (hor.resolve_left hne)
      · rw [held, ite_not, if_pos rfl, if_pos ⟨hne, rfl⟩]
        exact hrep'.sound hothers
    · obtain ⟨h', res, n, hrun, hcases⟩ :=
        heapRealloc_spec (hrep.perm hperm) hpos hfits.1 hfits.2
      refine ⟨res, h', ⟨n, hrun⟩, ?_⟩
      rcases hcases with ⟨rfl, rfl⟩ | ⟨free', c, hmoved⟩
      · refine ⟨⟨fun _ _ _ _ => rfl, fun _ _ _ _ _ _ => rfl, fun hres => absurd rfl hres⟩,
          free, blocks, ?_⟩
        rw [held, ite_not, if_pos rfl, if_neg fun hboth => Nat.ne_of_gt hpos hboth.2]
        exact hrep.counted.sound s.held
      · have hres := hmoved.place
        have hresNe : res ≠ 0 := by
          unfold headerSize at hres
          omega
        refine ⟨⟨keepsData_of_blocks hothers hmoved.keeps, fun hzero => absurd hzero hresNe,
          fun _ a ha hptr i hi => hmoved.data i ?_⟩, free', c :: rest, ?_⟩
        · -- the pointer has no other block
          obtain ⟨d, hd, hstart, hlen⟩ := block_of_pointer s.held ha
          have hdb : d = b := by
            rcases List.mem_cons.mp (hperm.mem_iff.mp hd) with rfl | hd
            · rfl
            · have hne := ((hrep.perm hperm).blocks.perm List.perm_middle).start_ne
                (List.mem_append_right free hd)
              omega
          rw [hdb] at hlen
          omega
        · rw [held, if_pos hresNe]
          exact hmoved.rep.sound (List.Forall₂.cons ⟨hres, hmoved.len⟩ hothers)

/-- Every allowed call. -/
theorem sound (s : HeapSound e h live free blocks) {c : HeapCall} (hallowed : c.Allowed live) :
    c.Sound e live h := by
  cases c with
  | malloc nbytes => exact malloc_sound s hallowed
  | free ptr => exact free_sound s hallowed
  | realloc ptr size => exact realloc_sound s hallowed.1 hallowed.2
  | store addr byte => exact store_sound s hallowed

theorem Returns.unique {c : HeapCall} {res res' : Nat} {h₁ h₂ : UserHeap}
    (hret : c.Returns e h res h₁) (hret' : c.Returns e h res' h₂) : res = res' ∧ h₁ = h₂ := by
  obtain ⟨n, hrun⟩ := hret
  obtain ⟨n', hrun'⟩ := hret'
  have heq := (hrun _ (Nat.le_max_left n n')).symm.trans (hrun' _ (Nat.le_max_right n n'))
  exact Prod.mk.inj (Option.some.inj heq)

end HeapCall

section Reach

variable {e : HeapEnv} {h : UserHeap} {live : List HeldPtr}

theorem heapInit_rep (hfreep : h.freep = 0) (hgranted : h.granted = []) :
    HeapRep e (heapInit e h) [] [] := by
  rw [heapInit, if_pos hfreep]
  have hbase := HeapBlocks.base_lt e
  refine ⟨⟨size_setSize_self (by decide), fun b hb => absurd hb List.not_mem_nil,
    Tiles.nil.congr fun x => ⟨?_, False.elim⟩, ?_, ?_⟩, ⟨?_, trivial⟩, List.mem_cons_self,
    List.Pairwise.nil⟩
  · rintro ⟨g, hg, -⟩
    change g ∈ h.granted at hg
    rw [hgranted] at hg
    exact absurd hg List.not_mem_nil
  · intro g hg
    change g ∈ h.granted at hg
    rw [hgranted] at hg
    exact absurd hg List.not_mem_nil
  · change e.start ≤ h.granted.head?.elim e.start _ ∧ h.granted.head?.elim e.start _ < _
    rw [hgranted]
    exact ⟨Nat.le_refl _, e.start_lt⟩
  · rw [next_setSize_self]
    exact next_setNext_self hbase

theorem HeapReach.heapSound (hreach : HeapReach e h live) :
    ∃ free blocks, HeapSound e h live free blocks := by
  induction hreach with
  | start hfreep hgranted =>
      exact ⟨[], [], heapInit_rep hfreep hgranted, List.Forall₂.nil, fun _ => rfl⟩
  | call _ hallowed hret ih =>
      obtain ⟨free, blocks, s⟩ := ih
      obtain ⟨res, h', hret', -, hsound⟩ := HeapCall.sound s hallowed
      obtain ⟨rfl, rfl⟩ := hret.unique hret'
      exact hsound

/-- In every state a program can reach, the heap is whole: the free list is a ring in
address order without neighbours that touch, and its blocks and those of the pointers
tile the memory of `sbrk`, each pointer with room for what was asked.  Every further
call returns and leaves the data alone that it is not about. -/
theorem heap_calls (hreach : HeapReach e h live) :
    (∃ free blocks, HeapSound e h live free blocks) ∧ ∀ c : HeapCall, c.Allowed live →
      ∃ res h', c.Returns e h res h' ∧ c.Keeps live h res h' := by
  obtain ⟨free, blocks, s⟩ := hreach.heapSound
  refine ⟨⟨free, blocks, s⟩, fun c hallowed => ?_⟩
  obtain ⟨res, h', hret, hkeeps, -⟩ := HeapCall.sound s hallowed
  exact ⟨res, h', hret, hkeeps⟩

/-- A program that has asked for 100 bytes. -/
theorem heap_calls_malloc : ∃ e h live, HeapReach e h live ∧
    (∃ free blocks, HeapSound e h live free blocks) ∧ ∀ c : HeapCall, c.Allowed live →
      ∃ res h', c.Returns e h res h' ∧ c.Keeps live h res h' := by
  let e : HeapEnv := ⟨65536, 131072, fun _ _ => some 0, by decide, by decide, by decide⟩
  have hstart : HeapReach e ⟨fun _ => 0, 0, 0, []⟩ [] := HeapReach.start rfl rfl
  have hfits : (HeapCall.malloc 100).Allowed [] := ⟨by decide, by decide⟩
  obtain ⟨res, h', hret, -⟩ := (heap_calls hstart).2 _ hfits
  have hreach := hstart.call hfits hret
  exact ⟨e, h', _, hreach, heap_calls hreach⟩

end Reach

end OsAgentLab
