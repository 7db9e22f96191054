/-
RV64 assembly as trap vectors use it: operations on registers, control registers and memory,
and programs with labels, jumps and calls.  A frame is a table of registers and offsets that
is saved and restored in one sweep.
-/
import OsAgentLab.Memory
import Mathlib.Data.List.Nodup

namespace OsAgentLab.Riscv

universe u

abbrev Word := BitVec 64

/-- `x1` to `x31` under the names of the calling convention. -/
inductive Reg where
  | ra | sp | gp | tp | t0 | t1 | t2 | s0 | s1
  | a0 | a1 | a2 | a3 | a4 | a5 | a6 | a7
  | s2 | s3 | s4 | s5 | s6 | s7 | s8 | s9 | s10 | s11
  | t3 | t4 | t5 | t6
deriving DecidableEq, Repr

/-- The control registers of supervisor mode that trap handling uses. -/
inductive Csr where
  | sstatus | sepc | scause | sscratch
deriving DecidableEq, Repr

structure State where
  pc : Word
  regs : Reg → Word
  csrs : Csr → Word
  mem : Nat → UInt8

namespace State

def setReg (s : State) (r : Reg) (v : Word) : State :=
  { s with regs := Function.update s.regs r v }

def setCsr (s : State) (c : Csr) (v : Word) : State :=
  { s with csrs := Function.update s.csrs c v }

def load (s : State) (a : Word) : Word := BitVec.ofNat 64 (le64 s.mem a.toNat)

def setMem (s : State) (m : Nat → UInt8) : State := { s with mem := m }

def store (s : State) (a v : Word) : State := s.setMem (put64 s.mem a.toNat v.toNat)

/-- `sstatus` after a trap from supervisor mode: SPIE takes SIE, SIE is off, SPP is on. -/
def trapStatus (w : Word) : Word := (w &&& ~~~0x122#64) ||| ((w &&& 0x2#64) <<< 4) ||| 0x100#64

/-- `sstatus` after `sret`: SIE takes SPIE, SPIE is on, SPP is off. -/
def sretStatus (w : Word) : Word := (w &&& ~~~0x122#64) ||| ((w &&& 0x20#64) >>> 4) ||| 0x20#64

/-- What the hart does when it takes a trap in supervisor mode; it then runs the trap vector. -/
def trap (cause : Word) (s : State) : State :=
  ((s.setCsr .sepc s.pc).setCsr .scause cause).setCsr .sstatus (trapStatus (s.csrs .sstatus))

def sret (s : State) : State :=
  { s.setCsr .sstatus (sretStatus (s.csrs .sstatus)) with pc := s.csrs .sepc }

end State

/-- The operations that go on with the next line. -/
inductive Op where
  | csrrw (rd : Reg) (csr : Csr) (rs : Reg)
  | csrr (rd : Reg) (csr : Csr)
  | csrw (csr : Csr) (rs : Reg)
  | mv (rd rs : Reg)
  | addi (rd rs : Reg) (imm : Word)
  | sd (rs : Reg) (offset : Word) (base : Reg)
  | ld (rd : Reg) (offset : Word) (base : Reg)
deriving DecidableEq, Repr

def Op.apply (s : State) : Op → State
  | csrrw rd csr rs => (s.setCsr csr (s.regs rs)).setReg rd (s.csrs csr)
  | csrr rd csr => s.setReg rd (s.csrs csr)
  | csrw csr rs => s.setCsr csr (s.regs rs)
  | mv rd rs => s.setReg rd (s.regs rs)
  | addi rd rs imm => s.setReg rd (s.regs rs + imm)
  | sd rs offset base => s.store (s.regs base + offset) (s.regs rs)
  | ld rd offset base => s.setReg rd (s.load (s.regs base + offset))

/-- The lines of a program with labels and symbols in `L`. -/
inductive Line (L : Type u) where
  | label (l : L)
  | op (o : Op)
  | la (rd : Reg) (l : L)
  | bnez (rs : Reg) (l : L)
  | j (l : L)
  | call (l : L)
  | sret
deriving DecidableEq, Repr

namespace Asm

variable {L : Type u}

-- The operations as lines of a program.

abbrev csrrw (rd : Reg) (csr : Csr) (rs : Reg) : Line L := .op (.csrrw rd csr rs)
abbrev csrr (rd : Reg) (csr : Csr) : Line L := .op (.csrr rd csr)
abbrev csrw (csr : Csr) (rs : Reg) : Line L := .op (.csrw csr rs)
abbrev mv (rd rs : Reg) : Line L := .op (.mv rd rs)
abbrev addi (rd rs : Reg) (imm : Word) : Line L := .op (.addi rd rs imm)
abbrev sd (rs : Reg) (offset : Word) (base : Reg) : Line L := .op (.sd rs offset base)
abbrev ld (rd : Reg) (offset : Word) (base : Reg) : Line L := .op (.ld rd offset base)

end Asm

section Execution

variable {L : Type u} [DecidableEq L]

/-- The lines behind a label. -/
def behind (l : L) : List (Line L) → List (Line L)
  | [] => []
  | .label l' :: rest => if l' = l then rest else behind l rest
  | _ :: rest => behind l rest

/-- Run the lines, which are a part of `prog`, up to their end or to `sret`.  `symbol` has the
addresses from the linker, and `callee` what a call of a function does up to its return. -/
def exec (symbol : L → Word) (callee : L → State → Option State) (prog : List (Line L)) :
    Nat → List (Line L) → State → Option State
  | _, [], s => some s
  | 0, _ :: _, _ => none
  | fuel + 1, line :: rest, s =>
      match line with
      | .label _ => exec symbol callee prog fuel rest s
      | .op o => exec symbol callee prog fuel rest (o.apply s)
      | .la rd l => exec symbol callee prog fuel rest (s.setReg rd (symbol l))
      | .bnez rs l =>
          if s.regs rs ≠ 0 then exec symbol callee prog fuel (behind l prog) s
          else exec symbol callee prog fuel rest s
      | .j l => exec symbol callee prog fuel (behind l prog) s
      | .call l => (callee l s).bind (exec symbol callee prog fuel rest)
      | .sret => some s.sret

variable {symbol : L → Word} {callee : L → State → Option State} {prog rest : List (Line L)}
  {fuel : Nat} {s : State}

@[simp] theorem exec_nil : exec symbol callee prog fuel [] s = some s := by
  cases fuel <;> rfl

@[simp] theorem exec_label (l : L) :
    exec symbol callee prog (fuel + 1) (.label l :: rest) s =
      exec symbol callee prog fuel rest s := rfl

@[simp] theorem exec_op (o : Op) :
    exec symbol callee prog (fuel + 1) (.op o :: rest) s =
      exec symbol callee prog fuel rest (o.apply s) := rfl

@[simp] theorem exec_la (rd : Reg) (l : L) :
    exec symbol callee prog (fuel + 1) (.la rd l :: rest) s =
      exec symbol callee prog fuel rest (s.setReg rd (symbol l)) := rfl

@[simp] theorem exec_j (l : L) :
    exec symbol callee prog (fuel + 1) (.j l :: rest) s =
      exec symbol callee prog fuel (behind l prog) s := rfl

@[simp] theorem exec_call (l : L) :
    exec symbol callee prog (fuel + 1) (.call l :: rest) s =
      (callee l s).bind (exec symbol callee prog fuel rest) := rfl

@[simp] theorem exec_sret :
    exec symbol callee prog (fuel + 1) (.sret :: rest) s = some s.sret := rfl

theorem exec_bnez_taken {rs : Reg} {l : L} (h : s.regs rs ≠ 0) :
    exec symbol callee prog (fuel + 1) (.bnez rs l :: rest) s =
      exec symbol callee prog fuel (behind l prog) s := if_pos h

/-- Straight-line code is run through in one step. -/
theorem exec_ops (ops : List Op) :
    exec symbol callee prog (ops.length + fuel) (ops.map Line.op ++ rest) s =
      exec symbol callee prog fuel rest (ops.foldl Op.apply s) := by
  induction ops generalizing s with
  | nil => rw [List.length_nil, Nat.zero_add, List.map_nil, List.nil_append, List.foldl_nil]
  | cons o ops ih =>
      rw [List.length_cons, Nat.add_right_comm, List.map_cons, List.cons_append, exec_op, ih,
        List.foldl_cons]

end Execution

section Registers

variable {s : State} {r q : Reg} {c d : Csr} {v a : Word}

@[simp] theorem State.setReg_self : (s.setReg r v).regs r = v := Function.update_self ..

theorem State.setReg_of_ne (h : q ≠ r) : (s.setReg r v).regs q = s.regs q :=
  Function.update_of_ne h ..

@[simp] theorem State.setReg_csrs : (s.setReg r v).csrs = s.csrs := rfl

@[simp] theorem State.setReg_mem : (s.setReg r v).mem = s.mem := rfl

@[simp] theorem State.setReg_pc : (s.setReg r v).pc = s.pc := rfl

@[simp] theorem State.setReg_load : (s.setReg r v).load a = s.load a := rfl

@[simp] theorem State.setCsr_self : (s.setCsr c v).csrs c = v := Function.update_self ..

theorem State.setCsr_of_ne (h : d ≠ c) : (s.setCsr c v).csrs d = s.csrs d :=
  Function.update_of_ne h ..

@[simp] theorem State.setCsr_regs : (s.setCsr c v).regs = s.regs := rfl

@[simp] theorem State.setCsr_mem : (s.setCsr c v).mem = s.mem := rfl

@[simp] theorem State.setCsr_pc : (s.setCsr c v).pc = s.pc := rfl

@[simp] theorem State.setCsr_load : (s.setCsr c v).load a = s.load a := rfl

@[simp] theorem State.setMem_regs {m : Nat → UInt8} : (s.setMem m).regs = s.regs := rfl

@[simp] theorem State.setMem_csrs {m : Nat → UInt8} : (s.setMem m).csrs = s.csrs := rfl

@[simp] theorem State.setMem_mem {m : Nat → UInt8} : (s.setMem m).mem = m := rfl

@[simp] theorem State.store_regs : (s.store a v).regs = s.regs := rfl

@[simp] theorem State.store_csrs : (s.store a v).csrs = s.csrs := rfl

@[simp] theorem State.store_pc : (s.store a v).pc = s.pc := rfl

@[simp] theorem State.store_mem : (s.store a v).mem = put64 s.mem a.toNat v.toNat := rfl

theorem State.load_congr {s' : State} (h : s'.mem = s.mem) (a : Word) : s'.load a = s.load a := by
  rw [State.load, State.load, h]

theorem State.load_toNat (s : State) (a : Word) : (s.load a).toNat = le64 s.mem a.toNat := by
  rw [State.load, BitVec.toNat_ofNat, Nat.mod_eq_of_lt (le64_lt _ _)]

@[simp] theorem State.sret_pc : s.sret.pc = s.csrs .sepc := rfl

@[simp] theorem State.sret_regs : s.sret.regs = s.regs := rfl

@[simp] theorem State.sret_mem : s.sret.mem = s.mem := rfl

theorem State.sret_of_ne (h : c ≠ .sstatus) : s.sret.csrs c = s.csrs c :=
  Function.update_of_ne h ..

end Registers

section Frames

/-- Registers and where a frame keeps them. -/
abbrev Slots := List (Reg × Nat)

/-- The stores that fill the slots of the frame at `base`. -/
def saves (base : Reg) (slots : Slots) : List Op :=
  slots.map fun slot => .sd slot.1 (BitVec.ofNat 64 slot.2) base

/-- The loads that read them back. -/
def restores (base : Reg) (slots : Slots) : List Op :=
  slots.map fun slot => .ld slot.1 (BitVec.ofNat 64 slot.2) base

/-- Stores of words at addresses, in this order. -/
def putWords (m : Nat → UInt8) (words : List (Nat × Nat)) : Nat → UInt8 :=
  words.foldl (fun m word => put64 m word.1 word.2) m

/-- No two of the words have a byte in common. -/
def WordsApart (words : List (Nat × Nat)) : Prop :=
  words.Pairwise fun left right => left.1 + 8 ≤ right.1 ∨ right.1 + 8 ≤ left.1

variable {m : Nat → UInt8} {words : List (Nat × Nat)} {slots : Slots} {base r : Reg} {s : State}
  {a w x : Nat}

theorem putWords_of_apart (h : ∀ word ∈ words, x < word.1 ∨ word.1 + 8 ≤ x) :
    putWords m words x = m x := by
  induction words generalizing m with
  | nil => rfl
  | cons word words ih =>
      rw [putWords, List.foldl_cons]
      exact (ih fun other hother => h other (List.mem_cons_of_mem _ hother)).trans
        (put64_of_apart (h word List.mem_cons_self))

theorem le64_putWords_of_apart (h : ∀ word ∈ words, a + 8 ≤ word.1 ∨ word.1 + 8 ≤ a) :
    le64 (putWords m words) a = le64 m a :=
  le64_congr fun i hi => putWords_of_apart fun word hword => by
    have hword := h word hword
    omega

/-- Every word is read back. -/
theorem le64_putWords (hapart : WordsApart words) (hmem : (a, w) ∈ words)
    (hw : w < 18446744073709551616) : le64 (putWords m words) a = w := by
  induction words generalizing m with
  | nil => cases hmem
  | cons word words ih =>
      obtain ⟨hhead, htail⟩ := List.pairwise_cons.1 hapart
      rw [putWords, List.foldl_cons]
      rcases List.mem_cons.1 hmem with hword | hrest
      · have hback : le64 (putWords (put64 m word.1 word.2) words) a =
            le64 (put64 m word.1 word.2) a :=
          le64_putWords_of_apart fun other hother => by
            have hother := hhead other hother
            rw [← hword] at hother
            exact hother
        rw [← hword] at hback ⊢
        exact hback.trans (le64_put64_self hw)
      · exact ih htail hrest

/-- The stores of a frame. -/
theorem foldl_saves :
    (saves base slots).foldl Op.apply s =
      s.setMem (putWords s.mem (slots.map fun slot =>
        ((s.regs base + BitVec.ofNat 64 slot.2).toNat, (s.regs slot.1).toNat))) := by
  induction slots generalizing s with
  | nil => rfl
  | cons slot slots ih =>
      rw [saves, List.map_cons, List.foldl_cons]
      exact ih

/-- The address of a slot. -/
theorem slot_toNat {F : Word} {o : Nat} (h : F.toNat + o < 18446744073709551616) :
    (F + BitVec.ofNat 64 o).toNat = F.toNat + o := by
  rw [BitVec.toNat_add, BitVec.toNat_ofNat, Nat.mod_eq_of_lt (by omega : o < 2 ^ 64),
    Nat.mod_eq_of_lt (by omega)]

/-- The words of a frame at `F`. -/
def slotWords (slots : Slots) (F : Word) (vals : Reg → Word) : List (Nat × Nat) :=
  slots.map fun slot => ((F + BitVec.ofNat 64 slot.2).toNat, (vals slot.1).toNat)

section Words

variable {F : Word} {vals : Reg → Word} {size : Nat}

theorem mem_slotWords {word : Nat × Nat} (hbound : ∀ slot ∈ slots, slot.2 + 8 ≤ size)
    (hF : F.toNat + size ≤ 18446744073709551616) (h : word ∈ slotWords slots F vals) :
    F.toNat ≤ word.1 ∧ word.1 + 8 ≤ F.toNat + size := by
  obtain ⟨slot, hslot, rfl⟩ := List.mem_map.1 h
  have hslot := hbound slot hslot
  rw [slot_toNat (by omega)]
  exact ⟨Nat.le_add_right _ _, by omega⟩

theorem slotWords_apart (hbound : ∀ slot ∈ slots, slot.2 + 8 ≤ size)
    (hapart : slots.Pairwise fun left right => left.2 + 8 ≤ right.2 ∨ right.2 + 8 ≤ left.2)
    (hF : F.toNat + size ≤ 18446744073709551616) : WordsApart (slotWords slots F vals) := by
  refine List.pairwise_map.2 (List.pairwise_iff_forall_sublist.2 ?_)
  intro left right hsub
  have hleft := hbound left (hsub.subset List.mem_cons_self)
  have hright := hbound right (hsub.subset (List.mem_cons_of_mem _ List.mem_cons_self))
  have hapart := List.pairwise_iff_forall_sublist.1 hapart hsub
  rw [slot_toNat (by omega), slot_toNat (by omega)]
  omega

/-- A slot holds the register that was saved in it. -/
theorem le64_slotWords {o : Nat} (hbound : ∀ slot ∈ slots, slot.2 + 8 ≤ size)
    (hapart : slots.Pairwise fun left right => left.2 + 8 ≤ right.2 ∨ right.2 + 8 ≤ left.2)
    (hF : F.toNat + size ≤ 18446744073709551616) (h : (r, o) ∈ slots) :
    le64 (putWords m (slotWords slots F vals)) (F.toNat + o) = (vals r).toNat := by
  have hslot := hbound _ h
  refine le64_putWords (slotWords_apart hbound hapart hF) ?_ (BitVec.isLt _)
  refine List.mem_map.2 ⟨(r, o), h, ?_⟩
  rw [slot_toNat (by omega)]

end Words

/-- What the loads of a frame leave: the slots are in the registers, and nothing else changed. -/
structure Restored (base : Reg) (slots : Slots) (s s' : State) : Prop where
  pc : s'.pc = s.pc
  csrs : s'.csrs = s.csrs
  mem : s'.mem = s.mem
  kept : ∀ r, (∀ o, (r, o) ∉ slots) → s'.regs r = s.regs r
  slots : ∀ r o, (r, o) ∈ slots → s'.regs r = s.load (s.regs base + BitVec.ofNat 64 o)

/-- The loads of a frame that has the address of the frame itself for its base register. -/
theorem foldl_restores (hnodup : (slots.map Prod.fst).Nodup)
    (hbase : ∀ o, (base, o) ∈ slots → s.load (s.regs base + BitVec.ofNat 64 o) = s.regs base) :
    Restored base slots s ((restores base slots).foldl Op.apply s) := by
  induction slots generalizing s with
  | nil => exact ⟨rfl, rfl, rfl, fun _ _ => rfl, fun _ _ h => absurd h List.not_mem_nil⟩
  | cons slot slots ih =>
      obtain ⟨q, o⟩ := slot
      rw [List.map_cons, List.nodup_cons] at hnodup
      have hq : ∀ o', (q, o') ∉ slots := fun o' h =>
        hnodup.1 (List.mem_map.2 ⟨(q, o'), h, rfl⟩)
      rw [restores, List.map_cons, List.foldl_cons]
      let s₁ := s.setReg q (s.load (s.regs base + BitVec.ofNat 64 o))
      -- the base register does not move, even when its own slot is loaded
      have hkeep : s₁.regs base = s.regs base := by
        by_cases hb : base = q
        · subst hb
          exact State.setReg_self.trans (hbase o List.mem_cons_self)
        · exact State.setReg_of_ne hb
      have hrest : Restored base slots s₁ ((restores base slots).foldl Op.apply s₁) :=
        ih hnodup.2 fun o' h => by
          rw [hkeep]
          exact hbase o' (List.mem_cons_of_mem _ h)
      refine ⟨hrest.pc, hrest.csrs, hrest.mem, fun r h => ?_, fun r o' h => ?_⟩
      · have hr : r ≠ q := fun heq => h o (heq ▸ List.mem_cons_self)
        exact (hrest.kept r fun o' h' => h o' (List.mem_cons_of_mem _ h')).trans
          (State.setReg_of_ne hr)
      · rcases List.mem_cons.1 h with heq | h
        · obtain ⟨rfl, rfl⟩ := Prod.mk.inj heq
          exact (hrest.kept r hq).trans State.setReg_self
        · have hval := hrest.slots r o' h
          rw [hkeep] at hval
          exact hval

end Frames

end OsAgentLab.Riscv
