/-
What a timer interrupt does to the code it interrupts, one interrupt after the other: the trap
vector keeps the address of the last interrupted stack pointer in `sscratch`, and the frame that
it fills ends behind the stack pointer it started from.
-/
import OsAgentLab.MiniMax.TrapVector

namespace OsAgentLab.MiniMax

open Riscv

section Frame

/-- The registers of the frame and their offsets. -/
def trapFrame : Slots :=
  [(.ra, 0), (.sp, 8), (.gp, 16), (.tp, 24), (.t0, 32), (.t1, 40), (.t2, 48), (.s0, 56), (.s1, 64),
    (.a0, 72), (.a1, 80), (.a2, 88), (.a3, 96), (.a4, 104), (.a5, 112), (.a6, 120), (.a7, 128),
    (.s2, 136), (.s3, 144), (.s4, 152), (.s5, 160), (.s6, 168), (.s7, 176), (.s8, 184),
    (.s9, 192), (.s10, 200), (.s11, 208), (.t3, 216), (.t4, 224), (.t5, 232), (.t6, 240)]

/-- The lines at `from_kernel`. -/
def fromKernelOps : List Op := [.csrw .sscratch .t0, .mv .s0 .t0]

/-- The lines behind the registers put `sepc` and `sstatus` into the frame. -/
def saveCsrsOps : List Op :=
  [.csrr .t0 .sepc, .sd .t0 248 .sp, .csrr .t0 .sstatus, .sd .t0 256 .sp, .mv .a0 .sp]

/-- The lines at `save_context`, up to the call. -/
def saveContextOps : List Op :=
  .addi .sp .sp (-256) :: (saves .sp trapFrame ++ saveCsrsOps)

/-- The first lines at `trap_return` read them back. -/
def restoreCsrsOps : List Op :=
  [.ld .t0 256 .sp, .csrw .sstatus .t0, .ld .t0 248 .sp, .csrw .sepc .t0]

/-- The lines at `trap_return`, up to `sret`. -/
def trapReturnOps : List Op :=
  restoreCsrsOps ++ (restores .sp trapFrame ++ [.addi .sp .sp 256, .csrrw .sp .sscratch .sp])

theorem behind_fromKernel :
    behind .fromKernel kernelTrapVector =
      fromKernelOps.map Line.op ++ .label .saveContext :: (saveContextOps.map Line.op ++
        .call .kernelTrapHandler :: .label .trapReturn ::
          (trapReturnOps.map Line.op ++ [.sret])) := rfl

theorem trapFrame_nodup : (trapFrame.map Prod.fst).Nodup := by decide

theorem mem_trapFrame (r : Reg) : r ∈ trapFrame.map Prod.fst := by
  cases r <;> decide

theorem trapFrame_bound {slot : Reg × Nat} (h : slot ∈ trapFrame) : slot.2 + 8 ≤ 248 :=
  (by decide : ∀ slot ∈ trapFrame, slot.2 + 8 ≤ 248) slot h

theorem trapFrame_apart :
    trapFrame.Pairwise fun left right => left.2 + 8 ≤ right.2 ∨ right.2 + 8 ≤ left.2 := by
  decide

/-- The frame at the stack pointer holds registers and a program counter. -/
structure Saved (vals : Reg → Word) (pc : Word) (t : State) : Prop where
  base : t.regs .sp = vals .sp
  slots : ∀ r o, (r, o) ∈ trapFrame → le64 t.mem ((vals .sp).toNat + o) = (vals r).toNat
  sepc : le64 t.mem ((vals .sp).toNat + 248) = pc.toNat

variable {s : State} {F : Word} {o : Nat}

theorem frame_toNat (h : 256 ≤ (s.regs .sp).toNat) :
    (s.regs .sp + (-256)).toNat + 256 = (s.regs .sp).toNat := by
  bv_omega

/-- The words of the frame at `F`. -/
def frameWords (F : Word) (vals : Reg → Word) : List (Nat × Nat) :=
  trapFrame.map fun slot => ((F + BitVec.ofNat 64 slot.2).toNat, (vals slot.1).toNat)

theorem saveCsrs_mem :
    (saveCsrsOps.foldl Op.apply s).mem =
      put64 (put64 s.mem (s.regs .sp + 248).toNat (s.csrs .sepc).toNat)
        (s.regs .sp + 256).toNat (s.csrs .sstatus).toNat := by
  have hsp : Reg.sp ≠ Reg.t0 := by decide
  simp only [saveCsrsOps, List.foldl_cons, List.foldl_nil, Op.apply, State.setReg_mem,
    State.store_mem, State.setReg_self, State.setReg_csrs, State.store_csrs, State.store_regs,
    State.setReg_of_ne hsp]

theorem saveCsrs_csrs : (saveCsrsOps.foldl Op.apply s).csrs = s.csrs := rfl

theorem saveCsrs_sp : (saveCsrsOps.foldl Op.apply s).regs .sp = s.regs .sp := rfl

theorem saveContext_eq :
    saveContextOps.foldl Op.apply s =
      saveCsrsOps.foldl Op.apply ((s.setReg .sp (s.regs .sp + (-256))).setMem
        (putWords s.mem (frameWords (s.regs .sp + (-256))
          (Function.update s.regs .sp (s.regs .sp + (-256)))))) := by
  rw [saveContextOps, List.foldl_cons, List.foldl_append, foldl_saves]
  rfl

theorem saveContext_csrs : (saveContextOps.foldl Op.apply s).csrs = s.csrs := by
  rw [saveContext_eq, saveCsrs_csrs, State.setMem_csrs, State.setReg_csrs]

variable {vals : Reg → Word}

theorem mem_frameWords {word : Nat × Nat} (hF : F.toNat + 248 ≤ 18446744073709551616)
    (h : word ∈ frameWords F vals) : F.toNat ≤ word.1 ∧ word.1 + 8 ≤ F.toNat + 248 :=
  mem_slotWords (fun _ => trapFrame_bound) hF h

/-- `save_context` saves every register, with the stack pointer at the frame, and `sepc`. -/
theorem saveContext_saved (hlow : 256 ≤ (s.regs .sp).toNat)
    (hhigh : (s.regs .sp).toNat + 8 ≤ 18446744073709551616) :
    Saved (Function.update s.regs .sp (s.regs .sp + (-256))) (s.csrs .sepc)
      (saveContextOps.foldl Op.apply s) := by
  have hF := frame_toNat hlow
  generalize hbase : s.regs .sp + (-256) = F at hF
  have hsepc : (F + 248).toNat = F.toNat + 248 := @slot_toNat F 248 (by omega)
  have hstatus : (F + 256).toNat = F.toNat + 256 := @slot_toNat F 256 (by omega)
  rw [saveContext_eq, hbase]
  refine ⟨?_, fun r o h => ?_, ?_⟩
  · rw [saveCsrs_sp, Function.update_self, State.setMem_regs, State.setReg_self]
  · have hbound := trapFrame_bound h
    rw [saveCsrs_mem, State.setMem_regs, State.setReg_self, hsepc, hstatus, Function.update_self,
      le64_put64_of_apart (by omega), le64_put64_of_apart (by omega), State.setMem_mem]
    exact le64_slotWords (fun _ => trapFrame_bound) trapFrame_apart (by omega) h
  · rw [saveCsrs_mem, State.setMem_regs, State.setReg_self, hsepc, hstatus, Function.update_self,
      le64_put64_of_apart (by omega), le64_put64_self (BitVec.isLt _)]
    rfl

/-- The word of `sstatus` lies behind the frame, at the stack pointer from before. -/
theorem saveContext_above (hlow : 256 ≤ (s.regs .sp).toNat)
    (hhigh : (s.regs .sp).toNat + 8 ≤ 18446744073709551616) {x : Nat}
    (hx : (s.regs .sp).toNat ≤ x) :
    (saveContextOps.foldl Op.apply s).mem x =
      if x < (s.regs .sp).toNat + 8 then
        byteOf (s.csrs .sstatus).toNat (x - (s.regs .sp).toNat) else s.mem x := by
  have hF := frame_toNat hlow
  generalize hbase : s.regs .sp + (-256) = F at hF
  have hsepc : (F + 248).toNat = F.toNat + 248 := @slot_toNat F 248 (by omega)
  have hstatus : (F + 256).toNat = F.toNat + 256 := @slot_toNat F 256 (by omega)
  rw [saveContext_eq, hbase, saveCsrs_mem, State.setMem_regs, State.setReg_self, hsepc, hstatus]
  by_cases hword : x < (s.regs .sp).toNat + 8
  · have hoff : x - (F.toNat + 256) = x - (s.regs .sp).toNat := by omega
    rw [if_pos hword, put64, overlay_of_mem (by omega), hoff, State.setMem_csrs,
      State.setReg_csrs]
  · rw [if_neg hword, put64_of_apart (by omega), put64_of_apart (by omega), State.setMem_mem]
    refine putWords_of_apart fun word hmem => ?_
    have hbound := mem_frameWords (by omega) hmem
    omega

variable {pc : Word}

theorem Saved.load (h : Saved vals pc s) (hroom : (vals .sp).toNat + 256 ≤ 18446744073709551616)
    {r : Reg} (hslot : (r, o) ∈ trapFrame) :
    s.load (s.regs .sp + BitVec.ofNat 64 o) = vals r := by
  have hbound := trapFrame_bound hslot
  rw [h.base, State.load, slot_toNat (by omega), h.slots r o hslot, BitVec.ofNat_toNat,
    BitVec.setWidth_eq]

theorem Saved.load_sepc (h : Saved vals pc s)
    (hroom : (vals .sp).toNat + 256 ≤ 18446744073709551616) :
    s.load (s.regs .sp + 248) = pc := by
  have hsepc : (vals .sp + 248).toNat = (vals .sp).toNat + 248 := @slot_toNat _ 248 (by omega)
  rw [h.base, State.load, hsepc, h.sepc, BitVec.ofNat_toNat, BitVec.setWidth_eq]

theorem restoreCsrs_load {a : Word} :
    (restoreCsrsOps.foldl Op.apply s).load a = s.load a := rfl

theorem restoreCsrs_mem : (restoreCsrsOps.foldl Op.apply s).mem = s.mem := rfl

theorem restoreCsrs_sp : (restoreCsrsOps.foldl Op.apply s).regs .sp = s.regs .sp := rfl

theorem restoreCsrs_sepc :
    (restoreCsrsOps.foldl Op.apply s).csrs .sepc = s.load (s.regs .sp + 248) := rfl

theorem restoreCsrs_sscratch :
    (restoreCsrsOps.foldl Op.apply s).csrs .sscratch = s.csrs .sscratch := rfl

/-- `trap_return` restores what the frame holds, except that the stack pointer is exchanged with
`sscratch`. -/
structure Returned (vals : Reg → Word) (pc : Word) (s s' : State) : Prop where
  regs : s'.regs = Function.update vals .sp (s.csrs .sscratch)
  sepc : s'.csrs .sepc = pc
  sscratch : s'.csrs .sscratch = vals .sp + 256
  mem : s'.mem = s.mem

theorem Saved.returned (h : Saved vals pc s)
    (hroom : (vals .sp).toNat + 256 ≤ 18446744073709551616) :
    Returned vals pc s (trapReturnOps.foldl Op.apply s) := by
  let u := restoreCsrsOps.foldl Op.apply s
  have hsp : u.regs .sp = vals .sp := h.base
  have hload : ∀ r o, (r, o) ∈ trapFrame → u.load (u.regs .sp + BitVec.ofNat 64 o) = vals r :=
    fun r o hslot => h.load hroom hslot
  have hrestored : Restored .sp trapFrame u ((restores .sp trapFrame).foldl Op.apply u) :=
    foldl_restores trapFrame_nodup fun o hslot => (hload _ o hslot).trans hsp.symm
  rw [trapReturnOps, List.foldl_append, List.foldl_append]
  generalize (restores .sp trapFrame).foldl Op.apply u = w at hrestored
  have hregs : w.regs = vals := funext fun r => by
    obtain ⟨slot, hslot, rfl⟩ := List.mem_map.1 (mem_trapFrame r)
    exact (hrestored.slots _ _ hslot).trans (hload _ _ hslot)
  have hcsr : ∀ c, w.csrs c = u.csrs c := fun c => congrFun hrestored.csrs c
  have hmem : w.mem = s.mem := hrestored.mem.trans restoreCsrs_mem
  rw [List.foldl_cons, List.foldl_cons, List.foldl_nil, Op.apply, Op.apply]
  refine ⟨funext fun r => ?_, ?_, ?_, ?_⟩
  · by_cases hr : r = .sp
    · rw [hr, State.setReg_self, Function.update_self, State.setReg_csrs, hcsr,
        restoreCsrs_sscratch]
    · rw [State.setReg_of_ne hr, State.setCsr_regs, State.setReg_of_ne hr,
        Function.update_of_ne hr, hregs]
  · have hne : Csr.sepc ≠ Csr.sscratch := by decide
    rw [State.setReg_csrs, State.setCsr_of_ne hne, State.setReg_csrs, hcsr, restoreCsrs_sepc,
      h.load_sepc hroom]
  · rw [State.setReg_csrs, State.setCsr_self, State.setReg_self, hregs]
  · rw [State.setReg_mem, State.setCsr_mem, State.setReg_mem, hmem]

end Frame

section Vector

variable {img : Image} {code : Compiled} {s : State}

/-- The state at `save_context` when `sscratch` was not zero. -/
def entered (s : State) : State :=
  fromKernelOps.foldl Op.apply ((Op.csrrw .t0 .sscratch .sp).apply (s.trap timerCause))

theorem entered_mem : (entered s).mem = s.mem := rfl

theorem entered_sepc : (entered s).csrs .sepc = s.pc := rfl

theorem entered_scause : (entered s).csrs .scause = timerCause := rfl

theorem entered_sstatus : (entered s).csrs .sstatus = State.trapStatus (s.csrs .sstatus) := rfl

theorem entered_sscratch : (entered s).csrs .sscratch = s.csrs .sscratch := rfl

/-- `t0` and `s0` are lost before they are saved. -/
theorem entered_regs :
    (entered s).regs =
      Function.update (Function.update s.regs .t0 (s.csrs .sscratch)) .s0 (s.csrs .sscratch) := rfl

theorem interrupt_eq (hscratch : s.csrs .sscratch ≠ 0) :
    interrupt img code s =
      (kernelTrapHandler code (saveContextOps.foldl Op.apply (entered s))).bind fun t =>
        some (trapReturnOps.foldl Op.apply t).sret := by
  -- the way through `from_kernel` leaves out three lines
  have hfuel : kernelTrapVector.length = fromKernelOps.length +
      (saveContextOps.length + (trapReturnOps.length + 5 + 1 + 1) + 1) + 1 + 1 := by decide
  have htaken : ∀ fuel,
      exec img.symbol (callee code) kernelTrapVector (fuel + 1 + 1) kernelTrapVector
          (s.trap timerCause) =
        exec img.symbol (callee code) kernelTrapVector fuel (behind .fromKernel kernelTrapVector)
          ((Op.csrrw .t0 .sscratch .sp).apply (s.trap timerCause)) :=
    fun _ => exec_bnez_taken hscratch
  rw [interrupt, hfuel, htaken, behind_fromKernel, exec_ops, exec_label, exec_ops, exec_call]
  refine congrArg _ (funext fun t => ?_)
  rw [exec_label, exec_ops, exec_sret]

theorem entered_sp : (entered s).regs .sp = s.regs .sp := rfl

/-- What an interrupt does to the code that it interrupts. -/
structure Interrupted (img : Image) (s s' : State) : Prop where
  pc : s'.pc = s.pc
  regs : s'.regs =
    Function.update (Function.update (Function.update s.regs .t0 (s.csrs .sscratch)) .s0
      (s.csrs .sscratch)) .sp (s.csrs .sscratch)
  sscratch : s'.csrs .sscratch = s.regs .sp
  stack : ∀ x, (s.regs .sp).toNat ≤ x → x < img.kernelStackTop →
    s'.mem x = if x < (s.regs .sp).toNat + 8 then
      byteOf (State.trapStatus (s.csrs .sstatus)).toNat (x - (s.regs .sp).toNat) else s.mem x

/-- A function of the calling convention leaves the frame of its caller alone. -/
theorem Saved.call {vals : Reg → Word} {pc : Word} {f : State → State} (hf : Conforms img f)
    (h : Saved vals pc s) (hlow : img.bootStack ≤ (vals .sp).toNat)
    (hhigh : (vals .sp).toNat + 256 ≤ img.kernelStackTop) : Saved vals pc (f s) := by
  have hword : ∀ o, o + 8 ≤ 256 →
      le64 (f s).mem ((vals .sp).toNat + o) = le64 s.mem ((vals .sp).toNat + o) :=
    fun o ho => le64_congr fun i hi => hf.stack s _ (by rw [h.base]; exact hlow)
      (by rw [h.base]; omega) (by omega)
  refine ⟨(hf.regs s .sp (by decide)).trans h.base, fun r o hslot => ?_, ?_⟩
  · have hbound := trapFrame_bound hslot
    rw [hword o (by omega), h.slots r o hslot]
  · rw [hword 248 (by omega), h.sepc]

/-- An interrupt comes back, with the stack pointer that `sscratch` held. -/
theorem interrupt_spec (hcode : Conforms img code.timerHandle) (hsp : img.Holds (s.regs .sp))
    (hscratch : img.Holds (s.csrs .sscratch)) :
    ∃ s', interrupt img code s = some s' ∧ Interrupted img s s' := by
  obtain ⟨hlow, hhigh⟩ := hsp.bounds
  have hbase := img.base
  let t := saveContextOps.foldl Op.apply (entered s)
  let vals := Function.update (entered s).regs .sp ((entered s).regs .sp + (-256))
  have hvals : vals .sp = s.regs .sp + (-256) := Function.update_self ..
  have hframe : (vals .sp).toNat + 256 = (s.regs .sp).toNat := by
    rw [hvals]
    exact frame_toNat (by omega)
  have hsaved : Saved vals s.pc t := saveContext_saved (by rw [entered_sp]; omega) hhigh
  have hcall : kernelTrapHandler code t = some (code.timerHandle t) := by
    have hcause : t.csrs .scause = timerCause := by rw [saveContext_csrs, entered_scause]
    rw [kernelTrapHandler, hcause, trapPath_timer]
  have hback : Returned vals s.pc (code.timerHandle t)
      (trapReturnOps.foldl Op.apply (code.timerHandle t)) :=
    (hsaved.call hcode (by omega) (by have htop := hsp.2; omega)).returned (by omega)
  refine ⟨_, by rw [interrupt_eq hscratch.ne_zero, hcall, Option.bind_some], ?_⟩
  have hkept : (code.timerHandle t).csrs .sscratch = s.csrs .sscratch := by
    rw [hcode.csrs, saveContext_csrs, entered_sscratch]
  refine ⟨hback.sepc, ?_, ?_, fun x hx htop => ?_⟩
  · rw [State.sret_regs, hback.regs, hkept, Function.update_idem, entered_regs]
  · have hne : Csr.sscratch ≠ Csr.sstatus := by decide
    rw [State.sret_of_ne hne, hback.sscratch, hvals]
    bv_omega
  · have hmem : (code.timerHandle t).mem x = t.mem x :=
      hcode.stack t x (by rw [hsaved.base]; omega) (by rw [hsaved.base]; omega) htop
    have habove := saveContext_above (s := entered s) (by rw [entered_sp]; omega) hhigh hx
    rw [entered_sp, entered_sstatus, entered_mem] at habove
    rw [State.sret_mem, hback.mem, hmem, habove]

end Vector

section Runs

/-- The states in which an instruction of `kernel_main` is to run. -/
inductive Reached (img : Image) (code : Compiled) : State → Prop where
  /-- The boot code calls `kernel_main`. -/
  | boot (s s' : State) :
      exec img.symbol (callee code) kernelBoot kernelBoot.length kernelBoot s = some s' →
      Reached img code s'
  /-- `kernel_main` runs, and does not write `sscratch`. -/
  | main (s s' : State) : Reached img code s → s'.csrs .sscratch = s.csrs .sscratch →
      Reached img code s'
  | interrupt (s s' : State) : Reached img code s → img.Holds (s.regs .sp) →
      interrupt img code s = some s' → Reached img code s'

/-- The interrupted code goes on as if nothing had happened: the program counter, the registers,
and the kernel stack from the stack pointer on. -/
structure Transparent (img : Image) (s s' : State) : Prop where
  pc : s'.pc = s.pc
  regs : ∀ r, s'.regs r = s.regs r
  stack : ∀ x, (s.regs .sp).toNat ≤ x → x < img.kernelStackTop → s'.mem x = s.mem x

/-- The interrupt comes when there is nothing to lose: the stack pointer, `t0` and `s0` agree with
`sscratch`, and the next word of the stack, if there is one, has the bytes of `sstatus`. -/
structure Unharmed (img : Image) (s : State) : Prop where
  sp : s.regs .sp = s.csrs .sscratch
  t0 : s.regs .t0 = s.csrs .sscratch
  s0 : s.regs .s0 = s.csrs .sscratch
  word : ∀ i, i < 8 → (s.regs .sp).toNat + i < img.kernelStackTop →
    s.mem ((s.regs .sp).toNat + i) = byteOf (State.trapStatus (s.csrs .sstatus)).toNat i

variable {img : Image} {code : Compiled} {s s' : State}

theorem boot_sscratch
    (h : exec img.symbol (callee code) kernelBoot kernelBoot.length kernelBoot s = some s') :
    s'.csrs .sscratch = BitVec.ofNat 64 img.kernelStackTop := by
  obtain rfl := Option.some.inj h
  rfl

/-- `sscratch` is the stack pointer from the boot code, or one that was interrupted. -/
theorem Reached.sscratch (hcode : Conforms img code.timerHandle) (h : Reached img code s) :
    img.Holds (s.csrs .sscratch) := by
  induction h with
  | boot s s' hboot =>
      have htop : img.kernelStackTop % 2 ^ 64 = img.kernelStackTop :=
        Nat.mod_eq_of_lt (by have hlt := img.top_lt; omega)
      rw [boot_sscratch hboot, Image.Holds, BitVec.toNat_ofNat, htop]
      exact ⟨Nat.le_add_right _ _, Nat.le_refl _⟩
  | main s s' _ hkeep ih => rwa [hkeep]
  | interrupt s s' _ hsp hrun ih =>
      obtain ⟨s₁, hspec, hint⟩ := interrupt_spec hcode hsp ih
      obtain rfl := Option.some.inj (hspec.symm.trans hrun)
      rwa [hint.sscratch]

theorem Interrupted.transparent_iff (h : Interrupted img s s') :
    Transparent img s s' ↔ Unharmed img s := by
  have hsp : s'.regs .sp = s.csrs .sscratch := by rw [h.regs, Function.update_self]
  have hs0 : s'.regs .s0 = s.csrs .sscratch := by
    rw [h.regs, Function.update_of_ne (by decide), Function.update_self]
  have ht0 : s'.regs .t0 = s.csrs .sscratch := by
    rw [h.regs, Function.update_of_ne (by decide), Function.update_of_ne (by decide),
      Function.update_self]
  constructor
  · intro htrans
    refine ⟨?_, ?_, ?_, fun i hi htop => ?_⟩
    · rw [← htrans.regs, hsp]
    · rw [← htrans.regs, ht0]
    · rw [← htrans.regs, hs0]
    · have hword := h.stack _ (Nat.le_add_right _ i) htop
      rw [if_pos (Nat.add_lt_add_left hi _), Nat.add_sub_cancel_left] at hword
      rw [← htrans.stack _ (Nat.le_add_right _ i) htop, hword]
  · intro hun
    refine ⟨h.pc, fun r => ?_, fun x hx htop => ?_⟩
    · by_cases hr : r = .sp
      · rw [hr, hsp, hun.sp]
      by_cases hr' : r = .s0
      · rw [hr', hs0, hun.s0]
      by_cases hr'' : r = .t0
      · rw [hr'', ht0, hun.t0]
      rw [h.regs, Function.update_of_ne hr, Function.update_of_ne hr', Function.update_of_ne hr'']
    · rw [h.stack x hx htop]
      by_cases hword : x < (s.regs .sp).toNat + 8
      · have hx' : (s.regs .sp).toNat + (x - (s.regs .sp).toNat) = x := by omega
        have hbyte := hun.word (x - (s.regs .sp).toNat) (by omega) (by rw [hx']; exact htop)
        rw [if_pos hword, ← hbyte, hx']
      · rw [if_neg hword]

/-- Every interrupt of a run comes back, and it is transparent exactly when there was nothing to
lose. -/
theorem interrupt_transparent (hcode : Conforms img code.timerHandle) (h : Reached img code s)
    (hsp : img.Holds (s.regs .sp)) :
    ∃ s', interrupt img code s = some s' ∧ (Transparent img s s' ↔ Unharmed img s) := by
  obtain ⟨s', hrun, hint⟩ := interrupt_spec hcode hsp (h.sscratch hcode)
  exact ⟨s', hrun, hint.transparent_iff⟩

end Runs

section Example

/-- The stacks behind the first page of the kernel. -/
def lowImage : Image where
  bootStack := 0x80201000
  code := fun _ => 0x80200000
  aligned := by decide
  base := by decide
  fits := by decide

/-- Functions that return at once. -/
def quickCode : Compiled := ⟨id, id, id⟩

theorem quickCode_conforms : Conforms lowImage quickCode.timerHandle :=
  ⟨fun _ _ _ => rfl, fun _ => rfl, fun _ _ _ _ _ => rfl⟩

/-- `kernel_main` with 64 bytes on the stack, after the boot code and with interrupts on. -/
def waiting : State where
  pc := 0x80200100
  regs := fun r => if r = .sp then 0x80208FC0 else 0
  csrs := fun c => if c = .sscratch then 0x80209000 else if c = .sstatus then 2 else 0
  mem := fun _ => 0

theorem waiting_reached : Reached lowImage quickCode waiting :=
  .main _ _ (.boot waiting _ rfl) rfl

theorem waiting_holds : lowImage.Holds (waiting.regs .sp) := ⟨by decide, by decide⟩

theorem interrupt_transparent_waiting :
    ∃ s', interrupt lowImage quickCode waiting = some s' ∧
      (Transparent lowImage waiting s' ↔ Unharmed lowImage waiting) :=
  interrupt_transparent quickCode_conforms waiting_reached waiting_holds

/-- The first interrupt of `kernel_main` puts the stack pointer back to the top. -/
theorem interrupt_not_transparent :
    ¬ ∀ (img : Image) (code : Compiled), Conforms img code.timerHandle →
      ∀ s, Reached img code s → img.Holds (s.regs .sp) →
        ∃ s', interrupt img code s = some s' ∧ Transparent img s s' := by
  intro hall
  obtain ⟨s', hrun, htrans⟩ := hall _ _ quickCode_conforms _ waiting_reached waiting_holds
  obtain ⟨s₁, hspec, hint⟩ := interrupt_spec quickCode_conforms waiting_holds
    (waiting_reached.sscratch quickCode_conforms)
  obtain rfl := Option.some.inj (hspec.symm.trans hrun)
  have hsp := (hint.transparent_iff.1 htrans).sp
  exact absurd hsp (by decide)

end Example

end OsAgentLab.MiniMax
