/-
Programs that allocate, with all the calls that come down to `malloc`: which amounts go
through the sums and products of the allocator without wrapping around, and what the
program then has.
-/
import OsAgentLab.User.BreakRun

namespace OsAgentLab

namespace Brk

variable {env : Env} {s s' : State} {live : List HeldPtr} {free blocks : List Block}

section Amount

/-- The amount, in units with the header, goes onto the break without wrapping around into
the user memory. -/
def Fits (sz n : Nat) : Prop :=
  n + 15 < 18446744073709551616 ∧
    headerSize * unitsFor n + sz < 18446744073709551616 + userBase

instance (sz n : Nat) : Decidable (Fits sz n) := by
  unfold Fits
  infer_instance

variable {n : Nat}

/-- What `morecore` asks for is no wrapped product, and has room above the break. -/
theorem Ok.moreBytes (ok : Ok env s) (hfits : Fits s.sz n) :
    headerSize * unitsFor n < 18446744073709551616 ∧
      moreBytes n = headerSize * max (unitsFor n) nalloc ∧
      moreBytes n + s.sz < 18446744073709551616 + userBase := by
  obtain ⟨-, hsum⟩ := hfits
  obtain ⟨hlow, hhigh⟩ := ok.user
  have hbase : userBase = 4194304 := rfl
  have hstack : userStackBase = 20447232 := rfl
  have hunits : headerSize * unitsFor n < 18446744073709551616 := by omega
  have hmax : headerSize * max (unitsFor n) nalloc + s.sz < 18446744073709551616 + userBase := by
    unfold headerSize nalloc at *
    omega
  have hmore : Brk.moreBytes n = headerSize * max (unitsFor n) nalloc := by
    rw [Brk.moreBytes, Nat.mul_comm]
    exact u64_of_lt (by omega)
  exact ⟨hunits, hmore, hmore ▸ hmax⟩

theorem Ok.moreBytes_pos (ok : Ok env s) (hfits : Fits s.sz n) : 0 < Brk.moreBytes n := by
  rw [(ok.moreBytes hfits).2.1]
  unfold headerSize nalloc
  omega

end Amount

section Transfer

variable {bytes calls sz : Nat} {h h' : UserHeap}

/-- The invariant of the heap does not depend on the answers. -/
theorem sound_mimic (hs : HeapSound env.heapEnv h live free blocks) :
    HeapSound (mimic env bytes calls sz) h live free blocks := by
  obtain ⟨⟨hb, hr, hf, hsp⟩, hheld, hbegun⟩ := hs
  exact ⟨⟨⟨hb.1, hb.2, hb.3, hb.4, hb.5⟩, hr, hf, hsp⟩, hheld, hbegun⟩

theorem sound_of_mimic (hs : HeapSound (mimic env bytes calls sz) h live free blocks) :
    HeapSound env.heapEnv h live free blocks := by
  obtain ⟨⟨hb, hr, hf, hsp⟩, hheld, hbegun⟩ := hs
  exact ⟨⟨⟨hb.1, hb.2, hb.3, hb.4, hb.5⟩, hr, hf, hsp⟩, hheld, hbegun⟩

/-- A result of the heap is one of the process, in the state that belongs to it. -/
theorem Alike.done_lift {x : Option (Nat × State)} {res : Nat}
    (ha : Alike env bytes s x (some (res, h'))) :
    x = some (res, lift env s h') ∧ Ok env (lift env s h') := by
  cases ha with
  | done w =>
      rw [w.lift]
      exact ⟨rfl, w.ok⟩

end Transfer

section HeapCalls

/-- `free` and `realloc` get a live pointer or none, and the program stays within the
bytes it asked for. -/
def HeapPermitted (live : List HeldPtr) : HeapCall → Prop
  | .malloc _ => True
  | .free ptr => ptr = 0 ∨ ∃ a ∈ live, a.ptr = ptr
  | .realloc ptr _ => ptr = 0 ∨ ∃ a ∈ live, a.ptr = ptr
  | .store addr _ => ∃ a ∈ live, a.ptr ≤ addr ∧ addr < a.ptr + a.want

theorem HeapPermitted.allowed {c : HeapCall} (hperm : HeapPermitted live c)
    (hfits : HeapCall.Fits (heapAmount c)) : c.Allowed live := by
  cases c with
  | malloc nbytes => exact hfits
  | free ptr => exact hperm
  | realloc ptr size => exact ⟨hperm, hfits⟩
  | store addr byte => exact hperm

/-- The invariant of the runs: the heap with a live block for each pointer, and a break that
is the end of the memory of the heap. -/
structure Sound (env : Env) (s : State) (live : List HeldPtr) (free blocks : List Block) :
    Prop where
  ok : Ok env s
  heap : HeapSound env.heapEnv s.heap live free blocks

/-- The calls that ask for memory. -/
def HeapAsks : HeapCall → Prop
  | .malloc _ => True
  | .free _ => False
  | .realloc ptr size => ptr = 0 ∨ size ≠ 0
  | .store _ _ => False

/-- A call that fails leaves the heap as it was. -/
theorem HeapAsks.null {e : HeapEnv} {h h' : UserHeap} {c : HeapCall} (hasks : HeapAsks c)
    (hs : HeapSound e h live free blocks) (hallowed : c.Allowed live)
    (hret : c.Returns e h 0 h') : h' = (heapInit e h).counted := by
  have hmalloc : ∀ nbytes, HeapCall.Fits nbytes → (HeapCall.malloc nbytes).Returns e h 0 h' →
      h' = (heapInit e h).counted := by
    intro nbytes hfits hret
    obtain ⟨h₁, res, n, hrun, hcases⟩ := heapMalloc_spec hs.rep hfits.1 hfits.2
    obtain ⟨rfl, rfl⟩ := hret.unique ⟨n, hrun⟩
    rcases hcases with ⟨-, heq⟩ | ⟨free', c, htaken⟩
    · exact heq
    · have hres := htaken.res
      unfold headerSize at hres
      omega
  cases c with
  | malloc nbytes => exact hmalloc nbytes hallowed hret
  | free ptr => exact hasks.elim
  | store addr byte => exact hasks.elim
  | realloc ptr size =>
      obtain ⟨hptr, hfits⟩ := hallowed
      by_cases hnull : ptr = 0
      · obtain ⟨n, hrun⟩ := hret
        refine hmalloc size hfits ⟨n, fun fuel hfuel => ?_⟩
        have hgo := hrun fuel hfuel
        rw [HeapCall.exec, heapRealloc, if_pos hnull] at hgo
        exact hgo
      · have hpos := Nat.pos_of_ne_zero (hasks.resolve_left hnull)
        have hlive := hptr.resolve_left hnull
        obtain ⟨b, rest, rfl, hperm, -⟩ := blocks_without hs.held hlive
        obtain ⟨a, ha, -⟩ := hlive
        have hinit := hs.heapInit_eq (List.ne_nil_of_mem ha)
        have hrep := hs.rep
        rw [hinit] at hrep
        obtain ⟨h₁, res, n, hrun, hcases⟩ :=
          heapRealloc_spec (hrep.perm hperm) hpos hfits.1 hfits.2
        obtain ⟨rfl, rfl⟩ := hret.unique ⟨n, hrun⟩
        rcases hcases with ⟨-, heq⟩ | ⟨free', c, hmoved⟩
        · rw [hinit]
          exact heq
        · have hplace := hmoved.place
          unfold headerSize at hplace
          omega

/-- The heap and the break are as before, but for the first entry of the free list. -/
def Kept (env : Env) (s s' : State) : Prop :=
  s'.heap = (heapInit env.heapEnv s.heap).counted ∧ s'.sz = s.sz

/-- One call, as the heap answers it. -/
theorem Sound.exec (hs : Sound env s live free blocks) {c : HeapCall}
    (hperm : HeapPermitted live c) (hfits : Fits s.sz (heapAmount c)) :
    ∃ res s', (∃ n, ∀ fuel, n ≤ fuel → Brk.exec env fuel c s = some (res, s')) ∧
      (HeapAsks c → res = 0 → Kept env s s') ∧
      ∃ free blocks, Sound env s' (c.held live res) free blocks := by
  obtain ⟨hunits, hmore, hroom⟩ := hs.ok.moreBytes hfits
  have hpos := hs.ok.moreBytes_pos hfits
  have w := hs.ok.onTheWay hroom
  have hallowed := hperm.allowed ⟨hfits.1, hunits⟩
  obtain ⟨res, h', hret, -, free', blocks', hsound⟩ :=
    HeapCall.sound (sound_mimic hs.heap) hallowed
  have hlift : ∃ n, ∀ fuel, n ≤ fuel → Brk.exec env fuel c s = some (res, lift env s h') ∧
      Ok env (lift env s h') := by
    obtain ⟨n, hrun⟩ := hret
    refine ⟨n, fun fuel hfuel => ?_⟩
    have halike := w.exec hpos fuel
    rw [hrun fuel hfuel] at halike
    exact halike.done_lift
  obtain ⟨n, hrun⟩ := hlift
  refine ⟨res, lift env s h', ⟨n, fun fuel hfuel => (hrun fuel hfuel).1⟩, ?_, free', blocks',
    (hrun n (Nat.le_refl n)).2, sound_of_mimic hsound⟩
  rintro hasks rfl
  have heq := hasks.null (sound_mimic hs.heap) hallowed hret
  refine ⟨heq, ?_⟩
  rw [lift, heq, ← hs.ok.top, heapTop, heapTop, UserHeap.counted,
    (heapInit_calls _ s.heap).granted]

end HeapCalls

section Sound

theorem Sound.write {a : HeldPtr} {m : Nat → UInt8} (hs : Sound env s live free blocks)
    (ha : a ∈ live) (hm : ∀ x, x < a.ptr ∨ a.ptr + a.want ≤ x → m x = s.heap.mem x) :
    Sound env { s with heap := { s.heap with mem := m } } live free blocks :=
  ⟨⟨hs.ok.cur, hs.ok.user, hs.ok.top⟩, hs.heap.write ha hm⟩

/-- The blocks lie between the start of the heap and the break. -/
theorem Sound.within (hs : Sound env s live free blocks) {b : Block} (hb : b ∈ free ++ blocks) :
    env.start ≤ b.start ∧ b.stop ≤ s.sz := by
  have hin := hs.heap.rep.blocks.within hb
  have htop : heapTop env.heapEnv (heapInit env.heapEnv s.heap) = s.sz := by
    rw [← hs.ok.top, heapTop, heapTop, (heapInit_calls _ s.heap).granted]
  rw [htop] at hin
  exact hin

/-- What was asked for lies below the break. -/
theorem Sound.below (hs : Sound env s live free blocks) {a : HeldPtr} (ha : a ∈ live) :
    headerSize < a.ptr ∧ a.ptr + a.want ≤ s.sz ∧ a.want + headerSize ≤ userStackBase := by
  obtain ⟨b, hb, hptr, hlen⟩ := block_of_pointer hs.heap.held ha
  have hin := hs.within (List.mem_append_right free hb)
  have hstart := env.base_le
  have huser := hs.ok.user
  unfold Block.stop at hin
  omega

end Sound

/-- The calls of a program. -/
inductive BrkCall
  | heap (c : HeapCall)
  | calloc (nmemb size : Nat)
  | mmap (length : Nat)
  | munmap (addr : Nat)

namespace BrkCall

def exec (env : Env) (fuel : Nat) : BrkCall → State → Option (Nat × State)
  | heap c, s => Brk.exec env fuel c s
  | calloc nmemb size, s => Brk.calloc env fuel nmemb size s
  | mmap length, s => Brk.mmap env fuel length s
  | munmap addr, s => Brk.munmap env fuel addr s

/-- The loops of the call end with this result. -/
def Returns (env : Env) (c : BrkCall) (s : State) (res : Nat) (s' : State) : Prop :=
  ∃ n, ∀ fuel, n ≤ fuel → c.exec env fuel s = some (res, s')

/-- The bytes that a call asks for, as integers. -/
def amount : BrkCall → Nat
  | heap c => heapAmount c
  | calloc nmemb size => nmemb * size
  | mmap length => length + 8
  | munmap _ => 0

/-- The calls that ask for memory. -/
def Asks : BrkCall → Prop
  | heap c => HeapAsks c
  | calloc _ _ => True
  | mmap _ => True
  | munmap _ => False

/-- The result of a call that fails. -/
def failed : BrkCall → Nat
  | mmap _ => mapFailed
  | _ => 0

/-- The pointer to the data of the block: `mmap` returns the one behind its length. -/
def data (res : Nat) : BrkCall → Nat
  | mmap _ => res - 8
  | _ => res

/-- The pointers the program holds after the call. -/
def held (live : List HeldPtr) (res : Nat) : BrkCall → List HeldPtr
  | heap c => c.held live res
  | calloc nmemb size => if res = 0 then live else ⟨res, nmemb * size⟩ :: live
  | mmap length => if res = mapFailed then live else ⟨res - 8, length + 8⟩ :: live
  | munmap addr => if addr = 0 then live else without (addr - 8) live

def Permitted (live : List HeldPtr) : BrkCall → Prop
  | heap c => HeapPermitted live c
  | calloc _ _ => True
  | mmap _ => True
  | munmap addr => addr = 0 ∨ ∃ a ∈ live, a.ptr + 8 = addr

/-- What a call does: it returns, keeps the invariant, and changes nothing when it fails. -/
def Done (env : Env) (c : BrkCall) (live : List HeldPtr) (s : State) : Prop :=
  ∃ res s', c.Returns env s res s' ∧ (c.Asks → res = c.failed → Kept env s s') ∧
    ∃ free blocks, Sound env s' (c.held live res) free blocks

/-- `malloc` of the integer amount, as the calls built on it find it. -/
theorem malloc_done (hs : Sound env s live free blocks) {n : Nat} (hfits : Fits s.sz n) :
    ∃ res s', (∃ k, ∀ fuel, k ≤ fuel → Brk.malloc env fuel n s = some (res, s')) ∧
      (res = 0 → Kept env s s') ∧ ∃ free blocks,
        Sound env s' (if res = 0 then live else ⟨res, n⟩ :: live) free blocks := by
  obtain ⟨res, s', hrun, hkept, hsound⟩ := hs.exec (c := .malloc n) trivial hfits
  exact ⟨res, s', hrun, hkept trivial, hsound⟩

theorem calloc_done (hs : Sound env s live free blocks) {nmemb size : Nat}
    (hfits : Fits s.sz (nmemb * size)) : (calloc nmemb size).Done env live s := by
  obtain ⟨res, s', ⟨k, hrun⟩, hkept, free', blocks', hsound⟩ := malloc_done hs hfits
  have htotal : u64 (nmemb * size) = nmemb * size := u64_of_lt (by have := hfits.1; omega)
  have hgo : ∀ fuel, k ≤ fuel → Brk.calloc env fuel nmemb size s =
      some (if res = 0 then (0, s') else (res, zeroBytes res (nmemb * size) s')) := by
    intro fuel hfuel
    rw [Brk.calloc, htotal, hrun fuel hfuel]
    rfl
  by_cases hnull : res = 0
  · rw [if_pos hnull] at hsound
    refine ⟨0, s', ⟨k, fun fuel hfuel => ?_⟩, fun _ _ => hkept hnull, free', blocks', hsound⟩
    rw [exec, hgo fuel hfuel, if_pos hnull]
  · rw [if_neg hnull] at hsound
    refine ⟨res, zeroBytes res (nmemb * size) s', ⟨k, fun fuel hfuel => ?_⟩,
      fun _ hres => absurd hres hnull, free', blocks', ?_⟩
    · rw [exec, hgo fuel hfuel, if_neg hnull]
    · rw [held, if_neg hnull]
      refine hsound.write List.mem_cons_self fun x hx => overlay_of_not_mem ?_
      dsimp only at hx
      omega

theorem mmap_done (hs : Sound env s live free blocks) {length : Nat}
    (hfits : Fits s.sz (length + 8)) : (mmap length).Done env live s := by
  obtain ⟨res, s', ⟨k, hrun⟩, hkept, free', blocks', hsound⟩ := malloc_done hs hfits
  have htotal : u64 (length + 8) = length + 8 := u64_of_lt (by have := hfits.1; omega)
  have hgo : ∀ fuel, k ≤ fuel → Brk.mmap env fuel length s =
      some (if res = 0 then (mapFailed, s') else (res + 8, { s' with
        heap := { s'.heap with mem := put64 s'.heap.mem res length } })) := by
    intro fuel hfuel
    rw [Brk.mmap, htotal, hrun fuel hfuel]
    rfl
  by_cases hnull : res = 0
  · rw [if_pos hnull] at hsound
    refine ⟨mapFailed, s', ⟨k, fun fuel hfuel => ?_⟩, fun _ _ => hkept hnull, free', blocks', ?_⟩
    · rw [exec, hgo fuel hfuel, if_pos hnull]
    · rw [held, if_pos rfl]
      exact hsound
  · rw [if_neg hnull] at hsound
    have hne : res + 8 ≠ mapFailed := by
      obtain ⟨-, hbelow, -⟩ := hsound.below List.mem_cons_self
      have huser := hsound.ok.user
      dsimp only at hbelow
      have hstack : userStackBase = 20447232 := rfl
      unfold mapFailed
      omega
    refine ⟨res + 8, { s' with heap := { s'.heap with mem := put64 s'.heap.mem res length } },
      ⟨k, fun fuel hfuel => ?_⟩, fun _ hres => absurd hres hne, free', blocks', ?_⟩
    · rw [exec, hgo fuel hfuel, if_neg hnull]
    · rw [held, if_neg hne, Nat.add_sub_cancel]
      refine hsound.write List.mem_cons_self fun x hx => put64_of_apart ?_
      dsimp only at hx
      omega

theorem munmap_done (hs : Sound env s live free blocks) {addr : Nat}
    (hperm : (munmap addr).Permitted live) (hfits : Fits s.sz 0) :
    (munmap addr).Done env live s := by
  by_cases hnull : addr = 0
  · refine ⟨18446744073709551615, s, ⟨0, fun fuel _ => ?_⟩, False.elim, free, blocks, ?_⟩
    · rw [exec, Brk.munmap, if_pos hnull]
    · rw [held, if_pos hnull]
      exact hs
  · obtain ⟨a, ha, rfl⟩ := hperm.resolve_left hnull
    have hfree : HeapPermitted live (.free (a.ptr + 8 - 8)) :=
      Or.inr ⟨a, ha, (Nat.add_sub_cancel a.ptr 8).symm⟩
    obtain ⟨res, s', ⟨k, hrun⟩, -, free', blocks', hsound⟩ := hs.exec hfree hfits
    refine ⟨res, s', ⟨k, fun fuel hfuel => ?_⟩, False.elim, free', blocks', ?_⟩
    · rw [exec, Brk.munmap, if_neg hnull]
      exact hrun fuel hfuel
    · rw [held, if_neg hnull]
      exact hsound

/-- Every call whose amount fits. -/
theorem done (hs : Sound env s live free blocks) {c : BrkCall} (hperm : c.Permitted live)
    (hfits : Fits s.sz c.amount) : c.Done env live s := by
  cases c with
  | heap c => exact hs.exec hperm hfits
  | calloc nmemb size => exact calloc_done hs hfits
  | mmap length => exact mmap_done hs hfits
  | munmap addr => exact munmap_done hs hperm hfits

/-- The result of a call that asks for memory is a pointer that the program then holds. -/
theorem mem_held {c : BrkCall} {res : Nat} (hasks : c.Asks) (hres : res ≠ c.failed) :
    ⟨c.data res, c.amount⟩ ∈ c.held live res := by
  cases c with
  | heap c =>
      cases c with
      | malloc nbytes =>
          dsimp only [failed] at hres
          rw [held, HeapCall.held, if_neg hres]
          exact List.mem_cons_self
      | free ptr => exact hasks.elim
      | realloc ptr size =>
          dsimp only [failed] at hres
          rw [held, HeapCall.held, if_pos hres]
          exact List.mem_cons_self
      | store addr byte => exact hasks.elim
  | calloc nmemb size =>
      dsimp only [failed] at hres
      rw [held, if_neg hres]
      exact List.mem_cons_self
  | mmap length =>
      dsimp only [failed] at hres
      rw [held, if_neg hres]
      exact List.mem_cons_self
  | munmap addr => exact hasks.elim

theorem Returns.unique {c : BrkCall} {res res' : Nat} {s₁ s₂ : State}
    (hret : c.Returns env s res s₁) (hret' : c.Returns env s res' s₂) : res = res' ∧ s₁ = s₂ := by
  obtain ⟨n, hrun⟩ := hret
  obtain ⟨n', hrun'⟩ := hret'
  have heq := (hrun _ (Nat.le_max_left n n')).symm.trans (hrun' _ (Nat.le_max_right n n'))
  exact Prod.mk.inj (Option.some.inj heq)

end BrkCall

/-- What the program can reach with calls whose amounts fit, and the pointers it then holds. -/
inductive BrkReach (env : Env) : State → List HeldPtr → Prop
  | start {s : State} (hfreep : s.heap.freep = 0) (hgranted : s.heap.granted = [])
      (hcur : s.cur = 0) (hsz : s.sz = env.start) : BrkReach env s []
  | call {s s' : State} {live : List HeldPtr} {c : BrkCall} {res : Nat}
      (hreach : BrkReach env s live) (hperm : c.Permitted live) (hfits : Fits s.sz c.amount)
      (hret : c.Returns env s res s') : BrkReach env s' (c.held live res)

/-- The blocks of the heap do not overlap and lie below the break, and each pointer has one of
them with room for what was asked. -/
structure Whole (env : Env) (s : State) (live : List HeldPtr) (free blocks : List Block) :
    Prop where
  room : List.Forall₂ HeldPtr.In live blocks
  apart : (free ++ blocks).Pairwise Block.Apart
  below : ∀ b ∈ free ++ blocks, env.start ≤ b.start ∧ b.stop ≤ s.sz

section Reach

theorem Sound.whole (hs : Sound env s live free blocks) : Whole env s live free blocks where
  room := hs.heap.held
  apart := hs.heap.rep.blocks.tiles.apart
  below := fun _ hb => hs.within hb

/-- The new pointer lies below the break with all that was asked for. -/
theorem Whole.top_le {a : HeldPtr} (hw : Whole env s live free blocks) (ha : a ∈ live) :
    a.ptr + a.want ≤ s.sz := by
  obtain ⟨b, hb, hptr, hlen⟩ := block_of_pointer hw.room ha
  have hbelow := (hw.below b (List.mem_append_right free hb)).2
  unfold Block.stop at hbelow
  omega

theorem BrkReach.sound (hreach : BrkReach env s live) :
    ∃ free blocks, Sound env s live free blocks := by
  induction hreach with
  | start hfreep hgranted hcur hsz =>
      refine ⟨[], [], ⟨Or.inl hcur, hsz ▸ env.user, ?_⟩, heapInit_rep hfreep hgranted,
        List.Forall₂.nil, fun _ => rfl⟩
      rw [heapTop, hgranted, hsz]
      rfl
  | call _ hperm hfits hret ih =>
      obtain ⟨free, blocks, hs⟩ := ih
      obtain ⟨res, s', hret', -, hsound⟩ := BrkCall.done hs hperm hfits
      obtain ⟨rfl, rfl⟩ := hret.unique hret'
      exact hsound

/-- In every state that a program reaches with amounts that fit, each pointer has a block of
its own below the break, with room for the amount as an integer.  A further call whose amount
fits returns: a pointer to such a block, or a failure that changes neither the heap nor the
break, which is what happens when the user memory is too small. -/
theorem allocations (hreach : BrkReach env s live) :
    (∃ free blocks, Whole env s live free blocks) ∧
      ∀ c : BrkCall, c.Permitted live → Fits s.sz c.amount → ∃ res s', c.Returns env s res s' ∧
        (∃ free blocks, Whole env s' (c.held live res) free blocks) ∧
        (c.Asks → res ≠ c.failed → ⟨c.data res, c.amount⟩ ∈ c.held live res) ∧
        (c.Asks → res = c.failed → Kept env s s') ∧
        (c.Asks → userStackBase < c.amount + headerSize → res = c.failed) := by
  obtain ⟨free, blocks, hs⟩ := hreach.sound
  refine ⟨⟨free, blocks, hs.whole⟩, fun c hperm hfits => ?_⟩
  obtain ⟨res, s', hret, hkept, free', blocks', hs'⟩ := BrkCall.done hs hperm hfits
  refine ⟨res, s', hret, ⟨free', blocks', hs'.whole⟩, BrkCall.mem_held, hkept,
    fun hasks hlarge => ?_⟩
  by_contra hres
  have hin : ⟨c.data res, c.amount⟩ ∈ c.held live res := BrkCall.mem_held hasks hres
  have hsmall := (hs'.below hin).2.2
  dsimp only at hsmall
  omega

/-- A process whose heap begins one page above the start of the user memory. -/
def roomyEnv : Env := ⟨4194560, 4198400, fun _ _ => true, by decide, by decide, by decide⟩

def roomyStart : State := ⟨⟨fun _ => 0, 0, 0, []⟩, 0, 4198400⟩

/-- A program that has asked for 100 bytes. -/
theorem allocations_malloc : ∃ env s live, BrkReach env s live ∧
    (∃ free blocks, Whole env s live free blocks) ∧
      ∀ c : BrkCall, c.Permitted live → Fits s.sz c.amount → ∃ res s', c.Returns env s res s' ∧
        (∃ free blocks, Whole env s' (c.held live res) free blocks) ∧
        (c.Asks → res ≠ c.failed → ⟨c.data res, c.amount⟩ ∈ c.held live res) ∧
        (c.Asks → res = c.failed → Kept env s s') ∧
        (c.Asks → userStackBase < c.amount + headerSize → res = c.failed) := by
  have hstart : BrkReach roomyEnv roomyStart [] := BrkReach.start rfl rfl rfl rfl
  have hfits : Fits roomyStart.sz (BrkCall.heap (.malloc 100)).amount := by decide
  obtain ⟨res, s', hret, -⟩ := (allocations hstart).2 (.heap (.malloc 100)) trivial hfits
  have hreach := hstart.call (c := .heap (.malloc 100)) trivial hfits hret
  exact ⟨roomyEnv, s', _, hreach, allocations hreach⟩

/-- The largest request of `malloc` is rounded to one unit, the product of `calloc` is 0, and
the sum of `mmap` is 7: each returns a pointer without room for what was asked. -/
theorem wrapped_allocations : ∃ env s, BrkReach env s [] ∧
    ∀ c ∈ [BrkCall.heap (.malloc 18446744073709551615), BrkCall.calloc 4294967296 4294967296,
      BrkCall.mmap 18446744073709551615],
      ∃ res s', c.exec env 4 s = some (res, s') ∧ res ≠ c.failed ∧
        ∀ free blocks, ¬ Whole env s' (c.held [] res) free blocks := by
  refine ⟨roomyEnv, roomyStart, BrkReach.start rfl rfl rfl rfl, fun c hc => ?_⟩
  have hrun : ∃ res sz, (c.exec roomyEnv 4 roomyStart).map (fun r => (r.1, r.2.sz)) =
      some (res, sz) ∧ res ≠ c.failed ∧ c.Asks ∧ sz < c.data res + c.amount := by
    rcases List.mem_cons.mp hc with rfl | hc
    · exact ⟨4214784, 4214784, by decide +kernel, by decide, trivial, by decide⟩
    rcases List.mem_cons.mp hc with rfl | hc
    · exact ⟨4214784, 4214784, by decide +kernel, by decide, trivial, by decide⟩
    obtain rfl := List.mem_singleton.mp hc
    exact ⟨4214776, 4214784, by decide +kernel, by decide, trivial, by decide⟩
  obtain ⟨res, sz, hrun, hres, hasks, hlarge⟩ := hrun
  obtain ⟨⟨res', s'⟩, hexec, heq⟩ := Option.map_eq_some_iff.mp hrun
  obtain ⟨rfl, rfl⟩ := Prod.mk.inj heq
  refine ⟨res', s', hexec, hres, fun free blocks hwhole => ?_⟩
  have hle := hwhole.top_le (BrkCall.mem_held hasks hres)
  dsimp only at hle hlarge
  omega

end Reach

end Brk

end OsAgentLab
