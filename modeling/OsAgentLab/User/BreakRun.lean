/-
Runs of a program that allocates, with the breaks of the kernel: what `sbrk` answers is
one of the answers that the heap is prepared for, as long as no size wraps around.
-/
import OsAgentLab.User.Break

namespace OsAgentLab

namespace Brk

variable {env : Env} {s s₁ : State} {h h' : UserHeap} {bytes nunits : Nat}

section Sbrk

/-- The state between two calls. -/
structure Ok (env : Env) (s : State) : Prop where
  cur : s.cur = 0 ∨ s.cur = s.sz
  user : userBase ≤ s.sz ∧ s.sz ≤ userStackBase
  top : heapTop env.heapEnv s.heap = s.sz

/-- The kernel lets the break grow. -/
def grants (env : Env) (calls sz bytes : Nat) : Bool :=
  decide (sz + bytes ≤ userStackBase) && env.room calls (sz + bytes)

theorem Ok.startSbrk_eq (ok : Ok env s) : startSbrk env s = { s with cur := s.sz } := by
  rw [startSbrk]
  by_cases hcur : s.cur = 0
  · rw [if_pos hcur]
    rfl
  · have heq := ok.cur.resolve_left hcur
    rw [if_neg hcur]
    cases s
    dsimp only at heq ⊢
    rw [heq]

/-- Breaks outside of the user memory are refused. -/
theorem sysBrk_out {addr : Nat} (hout : addr < userBase ∨ userStackBase < addr) :
    sysBrk env addr s = (s.sz, s) := by
  rw [sysBrk]
  by_cases hzero : addr = 0
  · rw [if_pos hzero]
  · rw [if_neg hzero, if_pos hout]

/-- A break that is higher than the present one. -/
theorem sysBrk_up {addr : Nat} (hlow : userBase ≤ addr) (hhigh : addr ≤ userStackBase)
    (hup : s.sz < addr) : sysBrk env addr s =
      if env.room s.heap.calls addr then (addr, { s with sz := addr }) else (s.sz, s) := by
  have hbase : userBase = 4194304 := rfl
  rw [sysBrk, if_neg (by omega), if_neg (by omega), if_pos hup]

/-- `sbrk` of a size that does not wrap onto the memory below the break: granted at the
break, or refused. -/
theorem Ok.sbrk_eq (ok : Ok env s) (hpos : 0 < bytes)
    (hfit : bytes + s.sz < 18446744073709551616 + userBase) :
    sbrk env bytes s =
      if grants env s.heap.calls s.sz bytes then
        (some s.sz, { heap := { s.heap with calls := s.heap.calls + 1
                                            granted := (s.sz, bytes) :: s.heap.granted }
                      cur := s.sz + bytes
                      sz := s.sz + bytes })
      else (none, { s with cur := s.sz
                           heap := { s.heap with calls := s.heap.calls + 1 } }) := by
  obtain ⟨hlow, hhigh⟩ := ok.user
  have hbase : userBase = 4194304 := rfl
  have hstack : userStackBase = 20447232 := rfl
  rw [sbrk, ok.startSbrk_eq]
  dsimp only
  by_cases hin : s.sz + bytes ≤ userStackBase
  · have hsys := @sysBrk_up env { s with cur := s.sz } (s.sz + bytes) (by omega) hin
      (show s.sz < s.sz + bytes by omega)
    rw [u64_of_lt (show s.sz + bytes < 18446744073709551616 by omega), hsys]
    dsimp only
    cases hroom : env.room s.heap.calls (s.sz + bytes) with
    | true =>
        have hgrants : grants env s.heap.calls s.sz bytes = true := by
          rw [grants, hroom, Bool.and_true, decide_eq_true hin]
        rw [if_pos rfl, if_neg (not_not.mpr rfl), if_pos hgrants]
        rfl
    | false =>
        have hgrants : ¬ grants env s.heap.calls s.sz bytes = true := by
          rw [grants, hroom, Bool.and_false]
          exact Bool.false_ne_true
        rw [if_neg Bool.false_ne_true, if_pos (show s.sz ≠ s.sz + bytes by omega), if_neg hgrants]
  · have hgrants : ¬ grants env s.heap.calls s.sz bytes = true := by
      rw [grants, decide_eq_false hin, Bool.false_and]
      exact Bool.false_ne_true
    -- the new break is too high, or has wrapped round to below the user memory
    have hout : u64 (s.sz + bytes) < userBase ∨ userStackBase < u64 (s.sz + bytes) := by
      simp only [u64]
      omega
    have hne : s.sz ≠ u64 (s.sz + bytes) := by omega
    rw [sysBrk_out hout, if_pos hne, if_neg hgrants]

end Sbrk

section Mimic

/-- The break after `k` calls of `sbrk` with the same size. -/
def breakAt (env : Env) (bytes calls sz : Nat) : Nat → Nat
  | 0 => sz
  | k + 1 =>
      let sz' := breakAt env bytes calls sz k
      if grants env (calls + k) sz' bytes then sz' + bytes else sz'

/-- The heap without breaks whose `sbrk` answers as the kernel does, from a state on. -/
def mimic (env : Env) (bytes calls sz : Nat) : HeapEnv :=
  { env.heapEnv with
    answer := fun c _ =>
      if grants env c (breakAt env bytes calls sz (c - calls)) bytes then some 0 else none }

/-- The state of the process that belongs to a heap after `s`. -/
def lift (env : Env) (s : State) (h : UserHeap) : State where
  heap := h
  cur := if h.calls = s.heap.calls then s.cur else heapTop env.heapEnv h
  sz := heapTop env.heapEnv h

theorem Ok.lift_self (ok : Ok env s) : lift env s s.heap = s := by
  rw [lift, if_pos rfl, ok.top]

/-- No call of `sbrk` in between. -/
structure SameCalls (h h' : UserHeap) : Prop where
  calls : h'.calls = h.calls
  granted : h'.granted = h.granted

theorem SameCalls.lift_eq (hsame : SameCalls h h') :
    lift env s h' = { lift env s h with heap := h' } := by
  rw [lift, lift, hsame.calls, heapTop, heapTop, hsame.granted]

theorem SameCalls.refl (h : UserHeap) : SameCalls h h := ⟨rfl, rfl⟩

theorem SameCalls.setNext (hsame : SameCalls h h') (a w : Nat) : SameCalls h (h'.setNext a w) :=
  ⟨hsame.1, hsame.2⟩

theorem SameCalls.setSize (hsame : SameCalls h h') (a w : Nat) : SameCalls h (h'.setSize a w) :=
  ⟨hsame.1, hsame.2⟩

theorem SameCalls.setFreep (hsame : SameCalls h h') (a : Nat) : SameCalls h (h'.setFreep a) :=
  ⟨hsame.1, hsame.2⟩

theorem takeBlock_calls (nunits prevp p : Nat) (h : UserHeap) :
    SameCalls h (takeBlock nunits prevp p h).2 := by
  rw [takeBlock]
  by_cases hfits : h.size p = nunits
  · rw [if_pos hfits]
    exact ((SameCalls.refl h).setNext _ _).setFreep _
  · rw [if_neg hfits]
    exact (((SameCalls.refl h).setSize _ _).setSize _ _).setFreep _

theorem heapInit_calls (e : HeapEnv) (h : UserHeap) : SameCalls h (heapInit e h) := by
  rw [heapInit]
  by_cases hfreep : h.freep = 0
  · rw [if_pos hfreep]
    exact (((SameCalls.refl h).setFreep _).setNext _ _).setSize _ _
  · rw [if_neg hfreep]
    exact .refl h

theorem SameCalls.join (hsame : SameCalls h h') (p bp : Nat) :
    SameCalls h (joinPrev p bp (joinNext p bp h')) := by
  have hnext : SameCalls h (joinNext p bp h') := by
    rw [joinNext]
    by_cases heq : headerAdd bp (h'.size bp) = h'.next p
    · rw [if_pos heq]
      exact (hsame.setSize _ _).setNext _ _
    · rw [if_neg heq]
      exact hsame.setNext _ _
  rw [joinPrev]
  by_cases heq : headerAdd p ((joinNext p bp h').size p) = bp
  · rw [if_pos heq]
    exact (hnext.setSize _ _).setNext _ _
  · rw [if_neg heq]
    exact hnext.setNext _ _

theorem heapFree_calls {e : HeapEnv} {fuel ap : Nat} (hrun : heapFree e fuel ap h = some h') :
    SameCalls h h' := by
  rw [heapFree] at hrun
  by_cases hap : ap = 0
  · rw [if_pos hap] at hrun
    obtain rfl := Option.some.inj hrun
    exact ⟨rfl, rfl⟩
  · rw [if_neg hap] at hrun
    obtain ⟨p, _, rfl⟩ := Option.map_eq_some_iff.mp hrun
    exact ((heapInit_calls e h).join p (ap - headerSize)).setFreep p

/-- A state on the way of one call of `malloc`, which asks `sbrk` for the same size each
time. -/
structure OnTheWay (env : Env) (bytes : Nat) (s s₁ : State) : Prop where
  ok : Ok env s₁
  lift : lift env s s₁.heap = s₁
  calls : s.heap.calls ≤ s₁.heap.calls
  sz : s₁.sz = breakAt env bytes s.heap.calls s.sz (s₁.heap.calls - s.heap.calls)
  fit : bytes + s₁.sz < 18446744073709551616 + userBase

theorem OnTheWay.same (w : OnTheWay env bytes s s₁) (hsame : SameCalls s₁.heap h) :
    OnTheWay env bytes s { s₁ with heap := h } where
  ok := ⟨w.ok.cur, w.ok.user, by
    rw [← w.ok.top, heapTop, heapTop, hsame.granted]⟩
  lift := by
    rw [hsame.lift_eq, w.lift]
  calls := by
    rw [hsame.calls]
    exact w.calls
  sz := by
    rw [hsame.calls]
    exact w.sz
  fit := w.fit

theorem Ok.onTheWay (ok : Ok env s) (hfit : bytes + s.sz < 18446744073709551616 + userBase) :
    OnTheWay env bytes s s where
  ok := ok
  lift := ok.lift_self
  calls := Nat.le_refl _
  sz := by rw [Nat.sub_self, breakAt]
  fit := hfit

/-- Both calls of `sbrk` have the same answer. -/
theorem OnTheWay.sbrk (w : OnTheWay env bytes s s₁) (hpos : 0 < bytes) :
    ∃ s₂, OnTheWay env bytes s s₂ ∧
      Brk.sbrk env bytes s₁ =
        ((OsAgentLab.sbrk (mimic env bytes s.heap.calls s.sz) bytes s₁.heap).1, s₂) ∧
      (OsAgentLab.sbrk (mimic env bytes s.heap.calls s.sz) bytes s₁.heap).2 = s₂.heap := by
  have hcalls := w.calls
  obtain ⟨hlow, hhigh⟩ := w.ok.user
  have hstack : userStackBase = 20447232 := rfl
  have hbase : userBase = 4194304 := rfl
  have htop : heapTop (mimic env bytes s.heap.calls s.sz) s₁.heap = s₁.sz := w.ok.top
  have hnext : breakAt env bytes s.heap.calls s.sz (s₁.heap.calls + 1 - s.heap.calls) =
      if grants env s₁.heap.calls s₁.sz bytes then s₁.sz + bytes else s₁.sz := by
    rw [Nat.sub_add_comm hcalls, breakAt, ← w.sz, Nat.add_sub_cancel' hcalls]
  have hanswer : (mimic env bytes s.heap.calls s.sz).answer s₁.heap.calls bytes =
      if grants env s₁.heap.calls s₁.sz bytes then some 0 else none := by
    rw [w.sz]
    rfl
  have hne : ¬ s₁.heap.calls + 1 = s.heap.calls := by omega
  rw [w.ok.sbrk_eq hpos w.fit, OsAgentLab.sbrk, hanswer, htop]
  by_cases hgrants : grants env s₁.heap.calls s₁.sz bytes = true
  · have hle : s₁.sz + bytes ≤ userStackBase := by
      rw [grants, Bool.and_eq_true, decide_eq_true_eq] at hgrants
      exact hgrants.1
    rw [if_pos hgrants] at hnext
    have htop' : heapTop env.heapEnv { s₁.heap with
        calls := s₁.heap.calls + 1, granted := (s₁.sz, bytes) :: s₁.heap.granted } =
          s₁.sz + bytes := by
      rw [heapTop, List.head?_cons, Option.elim_some]
    rw [if_pos hgrants, if_pos hgrants, Option.elim_some]
    dsimp only
    rw [Nat.add_zero s₁.sz, if_pos (show s₁.sz + bytes < 18446744073709551616 by omega)]
    refine ⟨_, ⟨⟨Or.inr rfl, ⟨show userBase ≤ s₁.sz + bytes by omega, hle⟩, htop'⟩, ?_,
      show s.heap.calls ≤ s₁.heap.calls + 1 by omega, hnext.symm,
      show bytes + (s₁.sz + bytes) < 18446744073709551616 + userBase by omega⟩, rfl, rfl⟩
    rw [Brk.lift, if_neg hne, htop']
  · rw [if_neg hgrants] at hnext
    have htop' : heapTop env.heapEnv { s₁.heap with calls := s₁.heap.calls + 1 } = s₁.sz := w.ok.top
    rw [if_neg hgrants, if_neg hgrants, Option.elim_none]
    refine ⟨{ s₁ with cur := s₁.sz, heap := { s₁.heap with calls := s₁.heap.calls + 1 } },
      ⟨⟨Or.inr rfl, ⟨hlow, hhigh⟩, htop'⟩, ?_, show s.heap.calls ≤ s₁.heap.calls + 1 by omega,
        hnext.symm, w.fit⟩, rfl, rfl⟩
    rw [Brk.lift, if_neg hne, htop']

end Mimic

section Alike

/-- The same run on the process and on the heap: both are out of fuel, or both return the
same, and the state of the process is on the way. -/
inductive Alike (env : Env) (bytes : Nat) (s : State) :
    Option (Nat × State) → Option (Nat × UserHeap) → Prop
  | stuck : Alike env bytes s none none
  | done {res : Nat} {s₁ : State} (w : OnTheWay env bytes s s₁) :
      Alike env bytes s (some (res, s₁)) (some (res, s₁.heap))

/-- What changes the heap only, and without a call of `sbrk`. -/
theorem OnTheWay.alike (w : OnTheWay env bytes s s₁) {x : Option UserHeap} (res : UserHeap → Nat)
    (hx : ∀ h, x = some h → SameCalls s₁.heap h) :
    Alike env bytes s (x.map fun h => (res h, { s₁ with heap := h })) (x.map fun h => (res h, h)) := by
  cases x with
  | none => exact .stuck
  | some h => exact .done (w.same (hx h rfl))

theorem OnTheWay.morecore (w : OnTheWay env bytes s s₁) (hpos : 0 < bytes)
    (hbytes : u64 (max nunits nalloc * headerSize) = bytes) (fuel : Nat) :
    Alike env bytes s (Brk.morecore env fuel nunits s₁)
      (OsAgentLab.morecore (mimic env bytes s.heap.calls s.sz) fuel nunits s₁.heap) := by
  obtain ⟨s₂, w', hbrk, hheap⟩ := w.sbrk hpos
  rw [Brk.morecore, OsAgentLab.morecore, hbytes, hbrk]
  generalize OsAgentLab.sbrk (mimic env bytes s.heap.calls s.sz) bytes s₁.heap = r at hheap
  obtain ⟨answer, h⟩ := r
  obtain rfl : h = s₂.heap := hheap
  cases answer with
  | none => exact .done w'
  | some hp =>
      refine w'.alike (fun h => h.freep) fun h hrun => ?_
      have hcalls := heapFree_calls hrun
      exact ⟨hcalls.1, hcalls.2⟩

theorem OnTheWay.mallocLoop (hpos : 0 < bytes)
    (hbytes : u64 (max nunits nalloc * headerSize) = bytes) (limit : Nat) {fuel prevp p : Nat}
    (w : OnTheWay env bytes s s₁) :
    Alike env bytes s (Brk.mallocLoop env limit nunits fuel prevp p s₁)
      (OsAgentLab.mallocLoop (mimic env bytes s.heap.calls s.sz) limit nunits fuel prevp p
        s₁.heap) := by
  induction fuel generalizing prevp p s₁ with
  | zero => exact .stuck
  | succ fuel ih =>
      rw [Brk.mallocLoop, OsAgentLab.mallocLoop]
      by_cases hfits : nunits ≤ s₁.heap.size p
      · rw [if_pos hfits, if_pos hfits]
        have hsame := takeBlock_calls nunits prevp p s₁.heap
        generalize takeBlock nunits prevp p s₁.heap = r at hsame
        obtain ⟨res, h⟩ := r
        exact .done (w.same hsame)
      · rw [if_neg hfits, if_neg hfits]
        by_cases hround : p = s₁.heap.freep
        · rw [if_pos hround, if_pos hround]
          have hmore := w.morecore hpos hbytes limit
          generalize Brk.morecore env limit nunits s₁ = x at hmore
          generalize OsAgentLab.morecore _ limit nunits s₁.heap = y at hmore
          cases hmore with
          | stuck => exact .stuck
          | @done q s₂ w' =>
              dsimp only
              by_cases hnull : q = 0
              · rw [if_pos hnull, if_pos hnull]
                exact .done w'
              · rw [if_neg hnull, if_neg hnull]
                exact ih w'
        · rw [if_neg hround, if_neg hround]
          exact ih w

/-- What `morecore` asks for on a request of `n` bytes. -/
def moreBytes (n : Nat) : Nat := u64 (max (unitsFor n) nalloc * headerSize)

theorem OnTheWay.malloc {n : Nat} (hpos : 0 < moreBytes n) (w : OnTheWay env (moreBytes n) s s)
    (fuel : Nat) :
    Alike env (moreBytes n) s (Brk.malloc env fuel n s)
      (heapMalloc (mimic env (moreBytes n) s.heap.calls s.sz) fuel n s.heap) :=
  (w.same (heapInit_calls env.heapEnv s.heap)).mallocLoop hpos rfl fuel

/-- `free` of a state on the way, and what the call returns behind it. -/
theorem OnTheWay.free (w : OnTheWay env bytes s s₁) (fuel ptr res : Nat) :
    Alike env bytes s ((Brk.free env fuel ptr s₁).map fun s₂ => (res, s₂))
      ((heapFree (mimic env bytes s.heap.calls s.sz) fuel ptr s₁.heap).map fun h => (res, h)) := by
  rw [Brk.free, Option.map_map]
  exact w.alike (fun _ => res) fun h hrun => heapFree_calls hrun

theorem OnTheWay.realloc {n : Nat} (hpos : 0 < moreBytes n) (w : OnTheWay env (moreBytes n) s s)
    (fuel ptr : Nat) :
    Alike env (moreBytes n) s (Brk.realloc env fuel ptr n s)
      (heapRealloc (mimic env (moreBytes n) s.heap.calls s.sz) fuel ptr n s.heap) := by
  have hmalloc := w.malloc hpos fuel
  rw [Brk.realloc, heapRealloc]
  by_cases hptr : ptr = 0
  · rw [if_pos hptr, if_pos hptr]
    exact hmalloc
  rw [if_neg hptr, if_neg hptr]
  by_cases hzero : n = 0
  · rw [if_pos hzero, if_pos hzero]
    exact w.free fuel ptr 0
  rw [if_neg hzero, if_neg hzero]
  dsimp only
  generalize u64 (u64 (s.heap.size (ptr - headerSize) + 18446744073709551615) * headerSize) = old
  by_cases hold : n ≤ old
  · rw [if_pos hold, if_pos hold]
    exact .done w
  rw [if_neg hold, if_neg hold]
  generalize Brk.malloc env fuel n s = x at hmalloc
  generalize heapMalloc _ fuel n s.heap = y at hmalloc
  cases hmalloc with
  | stuck => exact .stuck
  | @done newp s₂ w' =>
      dsimp only
      by_cases hnull : newp = 0
      · rw [if_pos hnull, if_pos hnull]
        exact .done w'
      · rw [if_neg hnull, if_neg hnull]
        have hcopied : SameCalls s₂.heap
            { s₂.heap with mem := copyBytes newp ptr (min old n) 0 s₂.heap.mem } := ⟨rfl, rfl⟩
        exact (w'.same hcopied).free fuel ptr newp

/-- The bytes that a call asks for. -/
def heapAmount : HeapCall → Nat
  | .malloc nbytes => nbytes
  | .free _ => 0
  | .realloc _ size => size
  | .store _ _ => 0

theorem OnTheWay.exec {c : HeapCall} (hpos : 0 < moreBytes (heapAmount c))
    (w : OnTheWay env (moreBytes (heapAmount c)) s s) (fuel : Nat) :
    Alike env (moreBytes (heapAmount c)) s (Brk.exec env fuel c s)
      (c.exec (mimic env (moreBytes (heapAmount c)) s.heap.calls s.sz) fuel s.heap) := by
  cases c with
  | malloc nbytes => exact w.malloc hpos fuel
  | free ptr => exact w.free fuel ptr 0
  | realloc ptr size => exact w.realloc hpos fuel ptr
  | store addr byte => exact .done (w.same ⟨rfl, rfl⟩)

end Alike

end Brk

end OsAgentLab
