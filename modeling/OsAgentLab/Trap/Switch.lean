/-
The switch of two kernel stacks: a context that `swtch` has saved is the one that it loads, so
that the function that gave up the processor goes on where it was.
-/
import Mathlib.Logic.Relation
import OsAgentLab.Trap.RoundTrip

namespace OsAgentLab.TrapVec

open Riscv

universe u

section Context

/-- The registers of `struct context`. -/
def contextSlots : Slots :=
  [(.ra, 0), (.sp, 8), (.s0, 16), (.s1, 24), (.s2, 32), (.s3, 40), (.s4, 48), (.s5, 56),
    (.s6, 64), (.s7, 72), (.s8, 80), (.s9, 88), (.s10, 96), (.s11, 104)]

def contextSize : Nat := 112

/-- The context at `C` holds these registers. -/
def ContextAt (m : Nat → UInt8) (C : Word) (regs : Reg → Word) : Prop :=
  ∀ r o, (r, o) ∈ contextSlots → le64 m (C.toNat + o) = (regs r).toNat

/-- The context does not go round the address space. -/
def Fits (C : Word) : Prop := C.toNat + contextSize ≤ 18446744073709551616

/-- Two contexts have no byte in common. -/
def ContextsApart (C D : Word) : Prop :=
  C.toNat + contextSize ≤ D.toNat ∨ D.toNat + contextSize ≤ C.toNat

theorem contextSlots_bound {slot : Reg × Nat} (h : slot ∈ contextSlots) :
    slot.2 + 8 ≤ contextSize :=
  (by decide : ∀ slot ∈ contextSlots, slot.2 + 8 ≤ contextSize) slot h

theorem contextSlots_apart :
    contextSlots.Pairwise fun left right => left.2 + 8 ≤ right.2 ∨ right.2 + 8 ≤ left.2 := by
  decide

theorem contextSlots_nodup : (contextSlots.map Prod.fst).Nodup := by decide

theorem contextSlots_a1 {o : Nat} : (Reg.a1, o) ∉ contextSlots := by
  simp [contextSlots]

variable {m m' : Nat → UInt8} {C D : Word} {regs vals : Reg → Word} {s s' : State}
  {handler : State → Option State}

theorem ContextAt.frame (h : ContextAt m C regs)
    (hmem : ∀ x, C.toNat ≤ x → x < C.toNat + contextSize → m' x = m x) : ContextAt m' C regs :=
  fun r o hslot => by
    have hbound := contextSlots_bound hslot
    refine (le64_congr fun i hi => hmem _ ?_ ?_).trans (h r o hslot)
    · omega
    · omega

/-- What a call of `swtch` does, for the registers of the context that it loads. -/
structure Switched (vals : Reg → Word) (s s' : State) : Prop where
  pc : s'.pc = vals .ra
  regs : ∀ r o, (r, o) ∈ contextSlots → s'.regs r = vals r
  kept : ∀ r, (∀ o, (r, o) ∉ contextSlots) → s'.regs r = s.regs r
  saved : ContextAt s'.mem (s.regs .a0) s.regs
  frame : ∀ x, x < (s.regs .a0).toNat ∨ (s.regs .a0).toNat + contextSize ≤ x →
    s'.mem x = s.mem x

theorem swtch_spec (hold : Fits (s.regs .a0)) (hnew : Fits (s.regs .a1))
    (hapart : ContextsApart (s.regs .a0) (s.regs .a1))
    (hcontext : ContextAt s.mem (s.regs .a1) vals) :
    ∃ s', exec handler swtch.length swtch s = some s' ∧ Switched vals s s' := by
  let words := slotWords contextSlots (s.regs .a0) s.regs
  let u := s.setMem (putWords s.mem words)
  have hout : ∀ x, x < (s.regs .a0).toNat ∨ (s.regs .a0).toNat + contextSize ≤ x →
      u.mem x = s.mem x := fun x hx => putWords_of_apart fun word hword => by
    have hbound := mem_slotWords (fun _ => contextSlots_bound) hold hword
    omega
  have hloaded : ContextAt u.mem (s.regs .a1) vals := hcontext.frame fun x hlow hhigh => by
    refine hout x ?_
    unfold ContextsApart at hapart
    omega
  have hrestored : Restored .a1 contextSlots u ((restores .a1 contextSlots).foldl Op.apply u) :=
    foldl_restores contextSlots_nodup fun o h => absurd h contextSlots_a1
  generalize hv : (restores .a1 contextSlots).foldl Op.apply u = v at hrestored
  have hregs : ∀ r o, (r, o) ∈ contextSlots → v.regs r = vals r := fun r o hslot => by
    have hbound := contextSlots_bound hslot
    unfold Fits at hnew
    have hplace : (s.regs .a1 + BitVec.ofNat 64 o).toNat = (s.regs .a1).toNat + o :=
      slot_toNat (by omega)
    have hbase : u.regs .a1 = s.regs .a1 := rfl
    rw [hrestored.slots r o hslot, State.load, hbase, hplace, hloaded r o hslot, BitVec.ofNat_toNat,
      BitVec.setWidth_eq]
  have hlines : swtch =
      (saves .a0 contextSlots ++ restores .a1 contextSlots).map Line.op ++ [.ret] := rfl
  have hlength : swtch.length =
      (saves .a0 contextSlots ++ restores .a1 contextSlots).length + 1 := rfl
  refine ⟨{ v with pc := v.regs .ra }, ?_, hregs .ra 0 (by decide), hregs, hrestored.kept, ?_, ?_⟩
  · rw [hlength, hlines, exec_ops, exec_ret, List.foldl_append, foldl_saves]
    exact congrArg (fun v : State => some { v with pc := v.regs .ra }) hv
  · intro r o hslot
    have hmem : v.mem = putWords s.mem words := hrestored.mem
    exact (congrArg (fun m => le64 m _) hmem).trans
      (le64_slotWords (fun _ => contextSlots_bound) contextSlots_apart hold hslot)
  · intro x hx
    exact (congrFun hrestored.mem x).trans (hout x hx)

end Context

section Threads

/-- The scheduler and the processes in the kernel, each with a context of its own: who runs, and
the registers with which each of the others has called `swtch` last, or those of its fresh
context. -/
structure Threads (ι : Type u) where
  state : State
  running : ι
  left : ι → Reg → Word

variable {ι : Type u}

/-- The contexts lie in memory without a common byte. -/
structure Placed (addr : ι → Word) : Prop where
  fits : ∀ k, Fits (addr k)
  apart : ∀ j k, j ≠ k → ContextsApart (addr j) (addr k)

/-- Everybody who does not run has his registers in his context. -/
def Suspended (addr : ι → Word) (x : Threads ι) : Prop :=
  ∀ k, k ≠ x.running → ContextAt x.state.mem (addr k) (x.left k)

variable {addr : ι → Word} {x x₀ y : Threads ι} {j : ι}

/-- A switch takes up the registers of the one that it switches to. -/
theorem Suspended.swtch (h : Suspended addr x) (hplaced : Placed addr) (hne : j ≠ x.running)
    (hold : x.state.regs .a0 = addr x.running) (hnew : x.state.regs .a1 = addr j) :
    ∃ s', exec some swtch.length swtch x.state = some s' ∧ Switched (x.left j) x.state s' := by
  refine swtch_spec ?_ ?_ ?_ ?_
  · rw [hold]
    exact hplaced.fits _
  · rw [hnew]
    exact hplaced.fits _
  · rw [hold, hnew]
    exact hplaced.apart _ _ hne.symm
  · rw [hnew]
    exact h j hne

variable [DecidableEq ι]

/-- The one that runs computes, and leaves the contexts of the others alone, or it calls
`swtch`. -/
inductive Turn (addr : ι → Word) (x : Threads ι) : Threads ι → Prop
  | works (s' : State)
      (hframe : ∀ k, k ≠ x.running → ∀ a, (addr k).toNat ≤ a → a < (addr k).toNat + contextSize →
        s'.mem a = x.state.mem a) : Turn addr x { x with state := s' }
  | switches {j : ι} {s' : State} (hne : j ≠ x.running)
      (hold : x.state.regs .a0 = addr x.running) (hnew : x.state.regs .a1 = addr j)
      (hrun : exec some swtch.length swtch x.state = some s') :
      Turn addr x ⟨s', j, Function.update x.left x.running x.state.regs⟩

theorem Turn.suspended (hturn : Turn addr x y) (hplaced : Placed addr) (h : Suspended addr x) :
    Suspended addr y := by
  cases hturn with
  | works s' hframe => exact fun k hk => (h k hk).frame (hframe k hk)
  | switches hne hold hnew hrun =>
      obtain ⟨s', hrun', hswitched⟩ := h.swtch hplaced hne hold hnew
      obtain rfl := Option.some.inj (hrun.symm.trans hrun')
      intro k hk
      dsimp only at hk ⊢
      by_cases hself : k = x.running
      · rw [hself, Function.update_self, ← hold]
        exact hswitched.saved
      · rw [Function.update_of_ne hself]
        refine (h k hself).frame fun a hlow hhigh => hswitched.frame a ?_
        have hapart := hplaced.apart k x.running hself
        unfold ContextsApart at hapart
        rw [hold]
        omega

theorem Suspended.run (hplaced : Placed addr) (hfirst : Suspended addr x₀)
    (hrun : Relation.ReflTransGen (Turn addr) x₀ x) : Suspended addr x := by
  induction hrun with
  | refl => exact hfirst
  | tail _ hturn ih => exact hturn.suspended hplaced ih

/-- In whatever order the scheduler and the processes switch to each other: the one that is
switched to goes on behind its last call of `swtch`, with the registers that it had there, or
with those of its fresh context. -/
theorem switches_resume (hplaced : Placed addr) (hfirst : Suspended addr x₀)
    (hrun : Relation.ReflTransGen (Turn addr) x₀ x) (hne : j ≠ x.running)
    (hold : x.state.regs .a0 = addr x.running) (hnew : x.state.regs .a1 = addr j) :
    ∃ s', exec some swtch.length swtch x.state = some s' ∧ s'.pc = x.left j .ra ∧
      ∀ r o, (r, o) ∈ contextSlots → s'.regs r = x.left j r := by
  obtain ⟨s', hexec, hswitched⟩ := (hfirst.run hplaced hrun).swtch hplaced hne hold hnew
  exact ⟨s', hexec, hswitched.pc, hswitched.regs⟩

/-- The scheduler, `false`, calls `swtch` for the first time; the fresh context is cleared. -/
def twoThreads : Threads Bool where
  state :=
    { pc := 0x80200000
      regs := fun r => if r = .a0 then 0x80201000 else if r = .a1 then 0x80202000 else 0
      csrs := fun _ => 0
      mem := fun _ => 0 }
  running := false
  left := fun _ _ => 0

def twoContexts (k : Bool) : Word := if k then 0x80202000 else 0x80201000

theorem twoContexts_placed : Placed twoContexts where
  fits k := by
    unfold Fits contextSize
    cases k <;> decide
  apart j k h := by
    unfold ContextsApart contextSize
    cases j <;> cases k
    · exact absurd rfl h
    · decide
    · decide
    · exact absurd rfl h

theorem twoThreads_suspended : Suspended twoContexts twoThreads :=
  fun _ _ _ _ _ => le64_eq_zero fun _ _ => rfl

theorem switches_resume_two :
    ∃ s', exec some swtch.length swtch twoThreads.state = some s' ∧
      s'.pc = twoThreads.left true .ra ∧
        ∀ r o, (r, o) ∈ contextSlots → s'.regs r = twoThreads.left true r :=
  switches_resume twoContexts_placed twoThreads_suspended .refl (by decide) rfl rfl

end Threads

end OsAgentLab.TrapVec
