/-
From user mode into the kernel and back: which registers a program gets back after a trap.
-/
import OsAgentLab.Trap.Vector

namespace OsAgentLab.TrapVec

open Riscv

section Frame

/-- The registers of the trapframe and their offsets; the stack pointer lies behind them. -/
def savedSlots : Slots :=
  [(.ra, 0), (.gp, 8), (.tp, 16), (.t0, 24), (.t1, 32), (.t2, 40), (.t3, 48), (.t4, 56), (.t5, 64),
    (.t6, 72), (.s0, 80), (.s1, 88), (.s2, 96), (.s3, 104), (.s4, 112), (.s5, 120), (.s6, 128),
    (.s7, 136), (.s8, 144), (.s9, 152), (.s10, 160), (.s11, 168), (.a0, 176), (.a1, 184),
    (.a2, 192), (.a3, 200), (.a4, 208), (.a5, 216), (.a6, 224), (.a7, 232)]

/-- Those that are restored before the last branch, and behind it. -/
def earlySlots : Slots :=
  [(.ra, 0), (.gp, 8), (.tp, 16), (.t4, 56), (.t5, 64), (.t6, 72), (.s0, 80), (.s1, 88), (.s2, 96),
    (.s3, 104), (.s4, 112), (.s5, 120), (.s6, 128), (.s7, 136), (.s8, 144), (.s9, 152),
    (.s10, 160), (.s11, 168), (.a0, 176), (.a1, 184), (.a2, 192), (.a3, 200), (.a4, 208),
    (.a5, 216), (.a6, 224), (.a7, 232)]

def lateSlots : Slots := [(.t0, 24), (.t1, 32), (.t2, 40), (.t3, 48)]

/-- A trapframe. -/
structure Frame where
  regs : Reg → Word
  sepc : Word
  sstatus : Word
  usp : Word

/-- The trapframe at `F` in memory. -/
structure Frame.At (f : Frame) (m : Nat → UInt8) (F : Nat) : Prop where
  slots : ∀ r o, (r, o) ∈ savedSlots → le64 m (F + o) = (f.regs r).toNat
  sepc : le64 m (F + 240) = f.sepc.toNat
  sstatus : le64 m (F + 248) = f.sstatus.toNat
  usp : le64 m (F + 256) = f.usp.toNat

theorem savedSlots_bound {slot : Reg × Nat} (h : slot ∈ savedSlots) : slot.2 + 8 ≤ 240 :=
  (by decide : ∀ slot ∈ savedSlots, slot.2 + 8 ≤ 240) slot h

theorem savedSlots_apart :
    savedSlots.Pairwise fun left right => left.2 + 8 ≤ right.2 ∨ right.2 + 8 ≤ left.2 := by
  decide

theorem savedSlots_sp {o : Nat} : (Reg.sp, o) ∉ savedSlots := by
  simp [savedSlots]

theorem earlySlots_saved {slot : Reg × Nat} (h : slot ∈ earlySlots) : slot ∈ savedSlots :=
  (by decide : ∀ slot ∈ earlySlots, slot ∈ savedSlots) slot h

theorem lateSlots_saved {slot : Reg × Nat} (h : slot ∈ lateSlots) : slot ∈ savedSlots :=
  (by decide : ∀ slot ∈ lateSlots, slot ∈ savedSlots) slot h

theorem earlySlots_nodup : (earlySlots.map Prod.fst).Nodup := by decide

theorem lateSlots_nodup : (lateSlots.map Prod.fst).Nodup := by decide

/-- The loads do not move the stack pointer. -/
theorem earlySlots_restored (s : State) :
    Restored .sp earlySlots s ((restores .sp earlySlots).foldl Op.apply s) :=
  foldl_restores earlySlots_nodup fun _ h => absurd (earlySlots_saved h) savedSlots_sp

theorem lateSlots_restored (s : State) :
    Restored .sp lateSlots s ((restores .sp lateSlots).foldl Op.apply s) :=
  foldl_restores lateSlots_nodup fun _ h => absurd (lateSlots_saved h) savedSlots_sp

/-- The last loads of the registers other than the stack pointer. -/
theorem restored_cases (r : Reg) :
    r = .sp ∨ r ∈ lateSlots.map Prod.fst ∨
      r ∈ earlySlots.map Prod.fst ∧ r ∉ lateSlots.map Prod.fst := by
  cases r <;> decide

variable {s : State} {f : Frame} {F : Word} {o : Nat} {r : Reg}

theorem Frame.At.load (h : f.At s.mem F.toNat) (hroom : F.toNat + 264 ≤ 18446744073709551616)
    (hslot : (r, o) ∈ savedSlots) : s.load (F + BitVec.ofNat 64 o) = f.regs r := by
  have hbound := savedSlots_bound hslot
  rw [State.load, slot_toNat (by omega), h.slots r o hslot, BitVec.ofNat_toNat,
    BitVec.setWidth_eq]

theorem Frame.At.load_sepc (h : f.At s.mem F.toNat)
    (hroom : F.toNat + 264 ≤ 18446744073709551616) : s.load (F + 240) = f.sepc := by
  have hplace : (F + 240).toNat = F.toNat + 240 := @slot_toNat F 240 (by omega)
  rw [State.load, hplace, h.sepc, BitVec.ofNat_toNat, BitVec.setWidth_eq]

theorem Frame.At.load_sstatus (h : f.At s.mem F.toNat)
    (hroom : F.toNat + 264 ≤ 18446744073709551616) : s.load (F + 248) = f.sstatus := by
  have hplace : (F + 248).toNat = F.toNat + 248 := @slot_toNat F 248 (by omega)
  rw [State.load, hplace, h.sstatus, BitVec.ofNat_toNat, BitVec.setWidth_eq]

theorem Frame.At.load_usp (h : f.At s.mem F.toNat)
    (hroom : F.toNat + 264 ≤ 18446744073709551616) : s.load (F + 256) = f.usp := by
  have hplace : (F + 256).toNat = F.toNat + 256 := @slot_toNat F 256 (by omega)
  rw [State.load, hplace, h.usp, BitVec.ofNat_toNat, BitVec.setWidth_eq]

end Frame

section Entry

/-- The lines behind the registers put `sepc`, `sstatus` and the stack pointer of the program
into the frame. -/
def saveCsrs : List Op :=
  [.csrr .t0 .sepc, .sd .t0 240 .sp, .csrr .t0 .sstatus, .sd .t0 248 .sp, .csrr .t0 .sscratch,
    .sd .t0 256 .sp, .mv .a0 .sp]

/-- The lines behind the label `2:`, up to the call. -/
def saveOps : List Op := .addi .sp .sp (-264) :: (saves .sp savedSlots ++ saveCsrs)

variable {s : State} {F : Word} {cause : Word}

/-- The state at the label `2:`. -/
def entered (cause : Word) (s : State) : State :=
  let u := (Op.csrr .t0 .sstatus).apply (userTrap cause s)
  (Op.csrrw .sp .sscratch .sp).apply (u.setReg .t1 (u.regs .t0 &&& 0x100))

/-- `t0` and `t1` are lost before they are saved. -/
theorem entered_regs :
    (entered cause s).regs = Function.update (Function.update (Function.update s.regs .t0
      (userStatus (s.csrs .sstatus))) .t1 0) .sp (s.csrs .sscratch) := by
  have hregs : (entered cause s).regs = Function.update (Function.update (Function.update s.regs
      .t0 (userStatus (s.csrs .sstatus))) .t1 (userStatus (s.csrs .sstatus) &&& 0x100)) .sp
        (s.csrs .sscratch) := rfl
  rw [hregs, userStatus_spp]

theorem entered_mem : (entered cause s).mem = s.mem := rfl

theorem entered_sepc : (entered cause s).csrs .sepc = s.pc := rfl

theorem entered_scause : (entered cause s).csrs .scause = cause := rfl

theorem entered_sstatus : (entered cause s).csrs .sstatus = userStatus (s.csrs .sstatus) := rfl

theorem entered_sscratch : (entered cause s).csrs .sscratch = s.regs .sp := rfl

theorem saveCsrs_mem :
    (saveCsrs.foldl Op.apply s).mem =
      put64 (put64 (put64 s.mem (s.regs .sp + 240).toNat (s.csrs .sepc).toNat)
        (s.regs .sp + 248).toNat (s.csrs .sstatus).toNat)
        (s.regs .sp + 256).toNat (s.csrs .sscratch).toNat := by
  have hsp : Reg.sp ≠ Reg.t0 := by decide
  simp only [saveCsrs, List.foldl_cons, List.foldl_nil, Op.apply, State.setReg_mem,
    State.store_mem, State.setReg_self, State.setReg_csrs, State.store_csrs, State.store_regs,
    State.setReg_of_ne hsp]

theorem saveOps_eq :
    saveOps.foldl Op.apply s = saveCsrs.foldl Op.apply
      ((s.setReg .sp (s.regs .sp + (-264))).setMem (putWords s.mem (slotWords savedSlots
        (s.regs .sp + (-264)) (Function.update s.regs .sp (s.regs .sp + (-264)))))) := by
  rw [saveOps, List.foldl_cons, List.foldl_append, foldl_saves]
  rfl

theorem saveOps_csrs : (saveOps.foldl Op.apply s).csrs = s.csrs := by
  rw [saveOps_eq]
  rfl

theorem saveOps_sp : (saveOps.foldl Op.apply s).regs .sp = s.regs .sp + (-264) := by
  rw [saveOps_eq]
  rfl

theorem base_toNat (h : 264 ≤ (s.regs .sp).toNat) :
    (s.regs .sp + (-264)).toNat + 264 = (s.regs .sp).toNat := by
  bv_omega

/-- The frame that the trap vector fills in. -/
theorem saveOps_frame (hlow : 264 ≤ (s.regs .sp).toNat) :
    Frame.At ⟨s.regs, s.csrs .sepc, s.csrs .sstatus, s.csrs .sscratch⟩
      (saveOps.foldl Op.apply s).mem (s.regs .sp + (-264)).toNat := by
  have hF := base_toNat hlow
  have htop := (s.regs .sp).isLt
  generalize hbase : s.regs .sp + (-264) = F at hF
  have h1 : (F + 240).toNat = F.toNat + 240 := @slot_toNat F 240 (by omega)
  have h2 : (F + 248).toNat = F.toNat + 248 := @slot_toNat F 248 (by omega)
  have h3 : (F + 256).toNat = F.toNat + 256 := @slot_toNat F 256 (by omega)
  rw [saveOps_eq, hbase, saveCsrs_mem, State.setMem_regs, State.setReg_self, h1, h2, h3]
  refine ⟨fun r o h => ?_, ?_, ?_, ?_⟩
  · have hbound := savedSlots_bound h
    have hr : r ≠ .sp := fun heq => savedSlots_sp (heq ▸ h)
    rw [le64_put64_of_apart (by omega), le64_put64_of_apart (by omega),
      le64_put64_of_apart (by omega), State.setMem_mem]
    refine (le64_slotWords (fun _ => savedSlots_bound) savedSlots_apart (by omega) h).trans ?_
    rw [Function.update_of_ne hr]
  · rw [le64_put64_of_apart (by omega), le64_put64_of_apart (by omega),
      le64_put64_self (BitVec.isLt _)]
    rfl
  · rw [le64_put64_of_apart (by omega), le64_put64_self (BitVec.isLt _)]
    rfl
  · rw [le64_put64_self (BitVec.isLt _)]
    rfl

end Entry

section Return

/-- The lines behind the call, up to the last branch, and behind it. -/
def loadCsrs : List Op := [.ld .t0 248 .sp, .ld .t1 240 .sp]

def writeCsrs : List Op := [.csrw .sstatus .t0, .csrw .sepc .t1]

def earlyOps : List Op := writeCsrs ++ restores .sp earlySlots

/-- The two lines that bring the stack pointer of the program back to `sscratch`. -/
def userSp : List Op := [.ld .t2 256 .sp, .csrw .sscratch .t2]

/-- The two lines before `sret`. -/
def leave : List Op := [.addi .sp .sp 264, .csrrw .sp .sscratch .sp]

def lateOps : List Op := userSp ++ (restores .sp lateSlots ++ leave)

/-- The lines at the label `3:`, for a trap from the kernel itself. -/
def kernelOps : List Op := restores .sp lateSlots ++ [.addi .sp .sp 264]

/-- The lines behind the call. -/
def returnLines : List Line :=
  loadCsrs.map Line.op ++ .andi .t3 .t0 0x100 :: (earlyOps.map Line.op ++
    .bnez .t3 .three :: (lateOps.map Line.op ++ .sret :: .label .three ::
      (kernelOps.map Line.op ++ [.sret])))

theorem kernelTrapVector_eq :
    kernelTrapVector = .csrr .t0 .sstatus :: .andi .t1 .t0 0x100 :: .beqz .t1 .one :: .j .two ::
      .label .one :: .csrrw .sp .sscratch .sp :: .label .two ::
        (saveOps.map Line.op ++ .call :: returnLines) := rfl

variable {s t : State} {f : Frame} {F cause : Word} {handler : State → Option State}

/-- What a program finds when it goes on with the values of a trapframe. -/
structure Resumed (f : Frame) (top : Word) (s s' : State) : Prop where
  pc : s'.pc = f.sepc
  regs : ∀ r, r ≠ .sp → s'.regs r = f.regs r
  sp : s'.regs .sp = f.usp
  sstatus : s'.csrs .sstatus = State.sretStatus f.sstatus
  sscratch : s'.csrs .sscratch = top
  mem : s'.mem = s.mem

/-- The state behind the stores into `sstatus` and `sepc`. -/
def rearmed (s : State) : State :=
  writeCsrs.foldl Op.apply ((loadCsrs.foldl Op.apply s).setReg .t3
    ((loadCsrs.foldl Op.apply s).regs .t0 &&& 0x100))

theorem rearmed_sp : (rearmed s).regs .sp = s.regs .sp := rfl

theorem rearmed_mem : (rearmed s).mem = s.mem := rfl

theorem rearmed_t3 : (rearmed s).regs .t3 = s.load (s.regs .sp + 248) &&& 0x100 := rfl

theorem rearmed_sstatus : (rearmed s).csrs .sstatus = s.load (s.regs .sp + 248) := rfl

theorem rearmed_sepc : (rearmed s).csrs .sepc = s.load (s.regs .sp + 240) := rfl

theorem userSp_of_ne {r : Reg} (h : r ≠ .t2) : (userSp.foldl Op.apply s).regs r = s.regs r := by
  rw [userSp, List.foldl_cons, List.foldl_cons, List.foldl_nil, Op.apply, Op.apply,
    State.setCsr_regs, State.setReg_of_ne h]

theorem userSp_mem : (userSp.foldl Op.apply s).mem = s.mem := rfl

theorem userSp_csr {c : Csr} (h : c ≠ .sscratch) :
    (userSp.foldl Op.apply s).csrs c = s.csrs c :=
  State.setCsr_of_ne h

theorem userSp_sscratch :
    (userSp.foldl Op.apply s).csrs .sscratch = s.load (s.regs .sp + 256) := rfl

theorem leave_of_ne {r : Reg} (h : r ≠ .sp) : (leave.foldl Op.apply s).regs r = s.regs r := by
  rw [leave, List.foldl_cons, List.foldl_cons, List.foldl_nil, Op.apply, Op.apply,
    State.setReg_of_ne h, State.setCsr_regs, State.setReg_of_ne h]

theorem leave_sp : (leave.foldl Op.apply s).regs .sp = s.csrs .sscratch := rfl

theorem leave_mem : (leave.foldl Op.apply s).mem = s.mem := rfl

theorem leave_csr {c : Csr} (h : c ≠ .sscratch) :
    (leave.foldl Op.apply s).csrs c = s.csrs c :=
  State.setCsr_of_ne h

theorem leave_sscratch : (leave.foldl Op.apply s).csrs .sscratch = s.regs .sp + 264 := rfl

theorem exec_return {fuel : Nat} (hspp : s.load (s.regs .sp + 248) &&& 0x100 = 0) :
    exec handler (fuel + returnLines.length) returnLines s =
      some (lateOps.foldl Op.apply
        ((restores .sp earlySlots).foldl Op.apply (rearmed s))).sret := by
  have hfuel : fuel + returnLines.length = loadCsrs.length +
      ((earlyOps.length + ((lateOps.length + (fuel + 7 + 1)) + 1)) + 1) := by
    have hlength : returnLines.length = loadCsrs.length +
      ((earlyOps.length + ((lateOps.length + 8) + 1)) + 1) := by decide
    omega
  have ht3 : ((restores .sp earlySlots).foldl Op.apply (rearmed s)).regs .t3 = 0 := by
    have hnot : ∀ o, (Reg.t3, o) ∉ earlySlots := by
      intro o h
      exact absurd (List.mem_map.2 ⟨_, h, rfl⟩) (by decide : Reg.t3 ∉ earlySlots.map Prod.fst)
    rw [(earlySlots_restored (rearmed s)).kept _ hnot, rearmed_t3, hspp]
  have hearly : ∀ u : State, earlyOps.foldl Op.apply u =
      (restores .sp earlySlots).foldl Op.apply (writeCsrs.foldl Op.apply u) := fun u => by
    rw [earlyOps, List.foldl_append]
  rw [hfuel, returnLines, exec_ops, exec_andi, exec_ops, hearly, ← rearmed,
    exec_bnez_not ht3, exec_ops, exec_sret]

/-- The program goes on with the values in the frame. -/
theorem return_resumed (hframe : f.At s.mem (s.regs .sp).toNat)
    (hroom : (s.regs .sp).toNat + 264 ≤ 18446744073709551616) :
    Resumed f (s.regs .sp + 264) s
      (lateOps.foldl Op.apply ((restores .sp earlySlots).foldl Op.apply (rearmed s))).sret := by
  have hv := earlySlots_restored (rearmed s)
  generalize (restores .sp earlySlots).foldl Op.apply (rearmed s) = v at hv
  have hx := lateSlots_restored (userSp.foldl Op.apply v)
  rw [lateOps, List.foldl_append, List.foldl_append]
  generalize (restores .sp lateSlots).foldl Op.apply (userSp.foldl Op.apply v) = x at hx
  have hsp : Reg.sp ≠ Reg.t2 := by decide
  have hvmem : v.mem = s.mem := hv.mem.trans rearmed_mem
  have hvsp : v.regs .sp = s.regs .sp :=
    (hv.kept _ fun o h => savedSlots_sp (earlySlots_saved h)).trans rearmed_sp
  have hwsp : (userSp.foldl Op.apply v).regs .sp = s.regs .sp := (userSp_of_ne hsp).trans hvsp
  have hxmem : x.mem = s.mem := hx.mem.trans (userSp_mem.trans hvmem)
  have hxsp : x.regs .sp = s.regs .sp :=
    (hx.kept _ fun o h => savedSlots_sp (lateSlots_saved h)).trans hwsp
  have hcsr : ∀ c, c ≠ .sscratch → x.csrs c = (rearmed s).csrs c := fun c hc => by
    rw [hx.csrs, userSp_csr hc, hv.csrs]
  have hstatus : (leave.foldl Op.apply x).csrs .sstatus = f.sstatus := by
    rw [leave_csr (by decide), hcsr _ (by decide), rearmed_sstatus, hframe.load_sstatus hroom]
  refine ⟨?_, fun r hr => ?_, ?_, ?_, ?_, ?_⟩
  · rw [State.sret_pc, leave_csr (by decide), hcsr _ (by decide), rearmed_sepc,
      hframe.load_sepc hroom]
  · rw [State.sret_regs, leave_of_ne hr]
    rcases restored_cases r with hsp | hlate | ⟨hearly, hlate⟩
    · exact absurd hsp hr
    · obtain ⟨⟨_, o⟩, hslot, rfl⟩ := List.mem_map.1 hlate
      rw [hx.slots _ o hslot, State.load_congr (userSp_mem.trans hvmem), hwsp,
        hframe.load hroom (lateSlots_saved hslot)]
    · obtain ⟨⟨q, o⟩, hslot, hq⟩ := List.mem_map.1 hearly
      obtain rfl : q = r := hq
      have hnot : ∀ o', (q, o') ∉ lateSlots := fun o' h => hlate (List.mem_map.2 ⟨(q, o'), h, rfl⟩)
      have ht2 : q ≠ .t2 := by
        rintro rfl
        exact hlate (by decide)
      rw [hx.kept _ hnot, userSp_of_ne ht2, hv.slots _ o hslot, rearmed_sp, State.load_congr rearmed_mem,
        hframe.load hroom (earlySlots_saved hslot)]
  · rw [State.sret_regs, leave_sp, hx.csrs, userSp_sscratch, State.load_congr hvmem, hvsp,
      hframe.load_usp hroom]
  · rw [← hstatus]
    rfl
  · rw [State.sret_of_ne (by decide), leave_sscratch, hxsp]
  · rw [State.sret_mem, leave_mem, hxmem]

end Return

section Userret

/-- The registers that `userret` loads, without its base register and the stack pointer. -/
def userretSlots : Slots :=
  [(.ra, 0), (.gp, 8), (.tp, 16), (.t0, 24), (.t1, 32), (.t2, 40), (.t3, 48), (.t4, 56), (.t5, 64),
    (.t6, 72), (.s0, 80), (.s1, 88), (.s2, 96), (.s3, 104), (.s4, 112), (.s5, 120), (.s6, 128),
    (.s7, 136), (.s8, 144), (.s9, 152), (.s10, 160), (.s11, 168), (.a1, 184), (.a2, 192),
    (.a3, 200), (.a4, 208), (.a5, 216), (.a6, 224), (.a7, 232)]

/-- The first lines of `userret` fill the control registers. -/
def userretCsrs : List Op :=
  [.csrw .sscratch .a1, .ld .t0 248 .a0, .ld .t1 240 .a0, .csrw .sstatus .t0, .csrw .sepc .t1]

/-- The last two lines before `sret`. -/
def userretLast : List Op := [.ld .sp 256 .a0, .ld .a0 176 .a0]

def userretOps : List Op := userretCsrs ++ (restores .a0 userretSlots ++ userretLast)

theorem userret_eq : userret = userretOps.map Line.op ++ [.sret] := rfl

theorem userretSlots_nodup : (userretSlots.map Prod.fst).Nodup := by decide

theorem userretSlots_saved {slot : Reg × Nat} (h : slot ∈ userretSlots) : slot ∈ savedSlots :=
  (by decide : ∀ slot ∈ userretSlots, slot ∈ savedSlots) slot h

theorem userretSlots_a0 {o : Nat} : (Reg.a0, o) ∉ userretSlots := by
  simp [userretSlots]

theorem userret_cases (r : Reg) : r = .sp ∨ r = .a0 ∨ r ∈ userretSlots.map Prod.fst := by
  cases r <;> decide

variable {s : State} {f : Frame} {handler : State → Option State}

theorem userretCsrs_a0 : (userretCsrs.foldl Op.apply s).regs .a0 = s.regs .a0 := rfl

theorem userretCsrs_mem : (userretCsrs.foldl Op.apply s).mem = s.mem := rfl

theorem userretCsrs_sepc :
    (userretCsrs.foldl Op.apply s).csrs .sepc = s.load (s.regs .a0 + 240) := rfl

theorem userretCsrs_sstatus :
    (userretCsrs.foldl Op.apply s).csrs .sstatus = s.load (s.regs .a0 + 248) := rfl

theorem userretCsrs_sscratch :
    (userretCsrs.foldl Op.apply s).csrs .sscratch = s.regs .a1 := rfl

theorem userretLast_a0 :
    (userretLast.foldl Op.apply s).regs .a0 = s.load (s.regs .a0 + 176) := rfl

theorem userretLast_sp :
    (userretLast.foldl Op.apply s).regs .sp = s.load (s.regs .a0 + 256) := rfl

theorem userretLast_of_ne {r : Reg} (hsp : r ≠ .sp) (ha0 : r ≠ .a0) :
    (userretLast.foldl Op.apply s).regs r = s.regs r := by
  rw [userretLast, List.foldl_cons, List.foldl_cons, List.foldl_nil, Op.apply, Op.apply,
    State.setReg_of_ne ha0, State.setReg_of_ne hsp]

theorem userretLast_csrs : (userretLast.foldl Op.apply s).csrs = s.csrs := rfl

theorem userretLast_mem : (userretLast.foldl Op.apply s).mem = s.mem := rfl

/-- A process enters user mode with the values of its trapframe, and with the top of its kernel
stack in `sscratch`. -/
theorem userret_resumed (hframe : f.At s.mem (s.regs .a0).toNat)
    (hroom : (s.regs .a0).toNat + 264 ≤ 18446744073709551616) :
    ∃ s', exec handler userret.length userret s = some s' ∧ Resumed f (s.regs .a1) s s' := by
  have hv : Restored .a0 userretSlots (userretCsrs.foldl Op.apply s)
      ((restores .a0 userretSlots).foldl Op.apply (userretCsrs.foldl Op.apply s)) :=
    foldl_restores userretSlots_nodup fun o h => absurd h userretSlots_a0
  have hlength : userret.length = userretOps.length + 1 := rfl
  rw [hlength, userret_eq, exec_ops, exec_sret, userretOps, List.foldl_append, List.foldl_append]
  generalize (restores .a0 userretSlots).foldl Op.apply (userretCsrs.foldl Op.apply s) = v at hv
  have hmem : v.mem = s.mem := hv.mem.trans userretCsrs_mem
  have hbase : v.regs .a0 = s.regs .a0 :=
    (hv.kept _ fun o h => userretSlots_a0 h).trans userretCsrs_a0
  have hstatus : (userretLast.foldl Op.apply v).csrs .sstatus = f.sstatus := by
    rw [userretLast_csrs, hv.csrs, userretCsrs_sstatus, hframe.load_sstatus hroom]
  refine ⟨_, rfl, ?_, fun r hr => ?_, ?_, ?_, ?_, ?_⟩
  · rw [State.sret_pc, userretLast_csrs, hv.csrs, userretCsrs_sepc, hframe.load_sepc hroom]
  · rw [State.sret_regs]
    rcases userret_cases r with hsp | ha0 | hslots
    · exact absurd hsp hr
    · rw [ha0, userretLast_a0, State.load_congr hmem, hbase]
      exact hframe.load hroom (o := 176) (by decide)
    · obtain ⟨⟨q, o⟩, hslot, hq⟩ := List.mem_map.1 hslots
      obtain rfl : q = r := hq
      have hne : q ≠ .a0 := fun heq => userretSlots_a0 (heq ▸ hslot)
      rw [userretLast_of_ne hr hne, hv.slots _ o hslot, userretCsrs_a0, State.load_congr userretCsrs_mem,
        hframe.load hroom (userretSlots_saved hslot)]
  · rw [State.sret_regs, userretLast_sp, State.load_congr hmem, hbase, hframe.load_usp hroom]
  · rw [← hstatus]
    rfl
  · rw [State.sret_of_ne (by decide), userretLast_csrs, hv.csrs, userretCsrs_sscratch]
  · rw [State.sret_mem, userretLast_mem, hmem]

end Userret

section Trap

variable {s t t' : State} {f : Frame} {cause v skip : Word} {handler : State → Option State}

/-- What `kernel_trap_handler` leaves behind: the stack pointer, and the trapframe except for
`a0` and `sepc`. -/
structure Serves (t t' : State) (v skip : Word) : Prop where
  sp : t'.regs .sp = t.regs .sp
  a0 : t'.load (t.regs .sp + 176) = v
  sepc : t'.load (t.regs .sp + 240) = t.load (t.regs .sp + 240) + skip
  rest : ∀ x, x < 264 → (x < 176 ∨ 184 ≤ x ∧ x < 240 ∨ 248 ≤ x) →
    t'.mem ((t.regs .sp).toNat + x) = t.mem ((t.regs .sp).toNat + x)

theorem Serves.frame (h : Serves t t' v skip) (hframe : f.At t.mem (t.regs .sp).toNat)
    (hroom : (t.regs .sp).toNat + 264 ≤ 18446744073709551616) :
    Frame.At { f with regs := Function.update f.regs .a0 v, sepc := f.sepc + skip } t'.mem
      (t.regs .sp).toNat := by
  have hplace : ∀ o, o < 264 → (t.regs .sp + BitVec.ofNat 64 o).toNat = (t.regs .sp).toNat + o :=
    fun o ho => slot_toNat (by omega)
  have hword : ∀ o, o + 8 ≤ 264 → (o + 8 ≤ 176 ∨ 184 ≤ o ∧ o + 8 ≤ 240 ∨ 248 ≤ o) →
      le64 t'.mem ((t.regs .sp).toNat + o) = le64 t.mem ((t.regs .sp).toNat + o) :=
    fun o ho hother => le64_congr fun i hi => by
      rw [Nat.add_assoc]
      exact h.rest (o + i) (by omega) (by omega)
  refine ⟨fun r o hslot => ?_, ?_, ?_, ?_⟩
  · by_cases hr : r = .a0
    · have ho : o = 176 :=
        (by decide : ∀ slot ∈ savedSlots, slot.1 = .a0 → slot.2 = 176) _ hslot hr
      have haddr : (t.regs .sp + 176).toNat = (t.regs .sp).toNat + 176 := hplace 176 (by decide)
      rw [ho, hr, ← haddr, ← State.load_toNat, h.a0]
      dsimp only
      rw [Function.update_self]
    · have hother : o + 8 ≤ 176 ∨ 184 ≤ o ∧ o + 8 ≤ 240 :=
        (by decide : ∀ slot ∈ savedSlots, slot.1 ≠ .a0 →
          slot.2 + 8 ≤ 176 ∨ 184 ≤ slot.2 ∧ slot.2 + 8 ≤ 240) _ hslot hr
      rw [hword o (by omega) (by omega), hframe.slots r o hslot]
      dsimp only
      rw [Function.update_of_ne hr]
  · have haddr : (t.regs .sp + 240).toNat = (t.regs .sp).toNat + 240 := hplace 240 (by decide)
    rw [← haddr, ← State.load_toNat, h.sepc, hframe.load_sepc hroom]
  · rw [hword 248 (by omega) (by omega), hframe.sstatus]
  · rw [hword 256 (by omega) (by omega), hframe.usp]

/-- The state in which `kernel_trap_handler` is called. -/
def calling (cause : Word) (s : State) : State := saveOps.foldl Op.apply (entered cause s)

theorem calling_scause : (calling cause s).csrs .scause = cause := by
  rw [calling, saveOps_csrs, entered_scause]

theorem calling_sp : (calling cause s).regs .sp = s.csrs .sscratch + (-264) := by
  rw [calling, saveOps_sp, entered_regs, Function.update_self]

theorem trapped_eq : trapped handler cause s =
    (handler (calling cause s)).bind (exec handler (2 + returnLines.length) returnLines) := by
  have hfuel : kernelTrapVector.length =
      saveOps.length + (2 + returnLines.length + 1) + 1 + 1 + 1 + 1 + 1 := by decide
  let u := (Op.csrr .t0 .sstatus).apply (userTrap cause s)
  have htaken : (u.setReg .t1 (u.regs .t0 &&& 0x100)).regs .t1 = 0 := userStatus_spp _
  have hbehind : ∀ rest, behind .one (.j .two :: .label .one :: rest) = rest := fun _ => rfl
  rw [trapped, hfuel, kernelTrapVector_eq, exec_op, exec_andi, exec_beqz_taken htaken, hbehind,
    exec_op, exec_label]
  exact (exec_ops saveOps).trans exec_call

/-- The frame that the handler is called with ends at the top of the kernel stack. -/
theorem calling_frame (hstack : 264 ≤ (s.csrs .sscratch).toNat) :
    ((calling cause s).regs .sp).toNat + 264 = (s.csrs .sscratch).toNat ∧
      Frame.At ⟨(entered cause s).regs, s.pc, userStatus (s.csrs .sstatus), s.regs .sp⟩
        (calling cause s).mem ((calling cause s).regs .sp).toNat := by
  have hsp : (entered cause s).regs .sp = s.csrs .sscratch := by
    rw [entered_regs, Function.update_self]
  have hframe := saveOps_frame (s := entered cause s) (by rw [hsp]; exact hstack)
  have hroom := base_toNat (s := entered cause s) (by rw [hsp]; exact hstack)
  rw [hsp, entered_sepc, entered_sstatus, entered_sscratch] at hframe
  rw [hsp] at hroom
  rw [← @calling_sp s cause] at hframe hroom
  exact ⟨hroom, hframe⟩

/-- Whatever the handler leaves in the frame, the program goes on with it. -/
theorem trap_resumed (hstack : 264 ≤ (s.csrs .sscratch).toNat)
    (hrun : handler (calling cause s) = some t')
    (hsp : t'.regs .sp = (calling cause s).regs .sp) (hframe : f.At t'.mem (t'.regs .sp).toNat)
    (huser : f.sstatus &&& 0x100 = 0) :
    ∃ s', trapped handler cause s = some s' ∧ Resumed f (s.csrs .sscratch) t' s' := by
  have hroom := (@calling_frame s cause hstack).1
  have htop := (s.csrs .sscratch).isLt
  rw [← hsp] at hroom
  have hspp : t'.load (t'.regs .sp + 248) &&& 0x100 = 0 := by
    rw [hframe.load_sstatus (by omega)]
    exact huser
  have hback := return_resumed hframe (by omega)
  have hstart : t'.regs .sp + 264 = s.csrs .sscratch := by
    rw [hsp, calling_sp]
    bv_omega
  rw [hstart] at hback
  exact ⟨_, by rw [trapped_eq, hrun, Option.bind_some, exec_return hspp], hback⟩

/-- What a program finds after a trap. -/
structure CameBack (s s' : State) (v pc : Word) : Prop where
  pc : s'.pc = pc
  a0 : s'.regs .a0 = v
  t0 : s'.regs .t0 = userStatus (s.csrs .sstatus)
  t1 : s'.regs .t1 = 0
  regs : ∀ r, r ≠ .a0 → r ≠ .t0 → r ≠ .t1 → s'.regs r = s.regs r
  sscratch : s'.csrs .sscratch = s.csrs .sscratch

/-- A trap that is served comes back, with the kernel's values in `t0` and `t1`. -/
theorem trap_cameBack (hstack : 264 ≤ (s.csrs .sscratch).toNat)
    (hrun : handler (calling cause s) = some t') (hserves : Serves (calling cause s) t' v skip) :
    ∃ s', trapped handler cause s = some s' ∧ CameBack s s' v (s.pc + skip) := by
  obtain ⟨hroom, hframe⟩ := @calling_frame s cause hstack
  have htop := (s.csrs .sscratch).isLt
  have hframe' := hserves.frame hframe (by omega)
  rw [← hserves.sp] at hframe'
  obtain ⟨s', htrapped, hback⟩ :=
    trap_resumed hstack hrun hserves.sp hframe' (userStatus_spp _)
  refine ⟨s', htrapped, ?_⟩
  have hregs := hback.regs
  dsimp only at hregs
  have hentered : ∀ r, r ≠ .sp → r ≠ .t0 → r ≠ .t1 → (entered cause s).regs r = s.regs r := by
    intro r h h0 h1
    rw [entered_regs, Function.update_of_ne h, Function.update_of_ne h1, Function.update_of_ne h0]
  refine ⟨hback.pc, ?_, ?_, ?_, fun r ha h0 h1 => ?_, hback.sscratch⟩
  · rw [hregs _ (by decide), Function.update_self]
  · rw [hregs _ (by decide), Function.update_of_ne (by decide), entered_regs]
    rfl
  · rw [hregs _ (by decide), Function.update_of_ne (by decide), entered_regs]
    rfl
  · by_cases hr : r = .sp
    · rw [hr, hback.sp]
    · rw [hregs r hr, Function.update_of_ne ha, hentered r hr h0 h1]

end Trap

section Programs

/-- `scause` of a timer interrupt, and of an `ecall` in user mode. -/
def timerCause : Word := 0x8000000000000005

def ecallCause : Word := 8

/-- The value of `a0` that the trap vector has put into the frame. -/
def savedA0 (t : State) : Word := t.load (t.regs .sp + 176)

/-- The compiled handler comes back from a timer interrupt, and leaves the frame as it is. -/
def ServesTimer (handler : State → Option State) : Prop :=
  ∀ t, t.csrs .scause = timerCause → ∃ t', handler t = some t' ∧ Serves t t' (savedA0 t) 0

/-- The states of a process in user mode, whose kernel stack ends at `top`.  Programs do not
write `sscratch`, and a system call leaves a frame for user mode, such as that of a program
that `execve` has loaded. -/
inductive InUser (handler : State → Option State) (top : Word) : State → Prop
  | starts {s s' : State} {f : Frame} (hframe : f.At s.mem (s.regs .a0).toNat)
      (hroom : (s.regs .a0).toNat + 264 ≤ 18446744073709551616) (htop : s.regs .a1 = top)
      (hrun : exec handler userret.length userret s = some s') : InUser handler top s'
  | computes {s s' : State} (h : InUser handler top s)
      (hscratch : s'.csrs .sscratch = s.csrs .sscratch) : InUser handler top s'
  | interrupted {s s' : State} (h : InUser handler top s)
      (hrun : trapped handler timerCause s = some s') : InUser handler top s'
  | asks {s s' t' : State} {f : Frame} (h : InUser handler top s)
      (hcall : handler (calling ecallCause s) = some t')
      (hsp : t'.regs .sp = (calling ecallCause s).regs .sp)
      (hframe : f.At t'.mem (t'.regs .sp).toNat) (huser : f.sstatus &&& 0x100 = 0)
      (hrun : trapped handler ecallCause s = some s') : InUser handler top s'

variable {s : State} {top : Word} {handler : State → Option State}

theorem interrupt_cameBack (hhandler : ServesTimer handler)
    (hstack : 264 ≤ (s.csrs .sscratch).toNat) :
    ∃ s', trapped handler timerCause s = some s' ∧
      CameBack s s' (savedA0 (calling timerCause s)) (s.pc + 0) := by
  obtain ⟨t', hrun, hserves⟩ := hhandler (calling timerCause s) calling_scause
  exact trap_cameBack hstack hrun hserves

/-- Every trap finds the kernel stack empty. -/
theorem InUser.sscratch (hhandler : ServesTimer handler) (htop : 264 ≤ top.toNat)
    (h : InUser handler top s) : s.csrs .sscratch = top := by
  induction h with
  | starts hframe hroom hstack hrun =>
      obtain ⟨s₁, hrun₁, hresumed⟩ := @userret_resumed _ _ handler hframe hroom
      obtain rfl := Option.some.inj (hrun.symm.trans hrun₁)
      exact hresumed.sscratch.trans hstack
  | computes _ hscratch ih => exact hscratch.trans ih
  | interrupted _ hrun ih =>
      obtain ⟨s₁, hrun₁, hback⟩ := interrupt_cameBack hhandler (by rw [ih]; exact htop)
      obtain rfl := Option.some.inj (hrun.symm.trans hrun₁)
      exact hback.sscratch.trans ih
  | asks _ hcall hsp hframe huser hrun ih =>
      obtain ⟨s₁, hrun₁, hresumed⟩ :=
        trap_resumed (by rw [ih]; exact htop) hcall hsp hframe huser
      obtain rfl := Option.some.inj (hrun.symm.trans hrun₁)
      exact hresumed.sscratch.trans ih

theorem calling_savedA0 {cause : Word} (hstack : 264 ≤ (s.csrs .sscratch).toNat) :
    savedA0 (calling cause s) = s.regs .a0 := by
  obtain ⟨hroom, hframe⟩ := @calling_frame s cause hstack
  have htop := (s.csrs .sscratch).isLt
  have hload := hframe.load (o := 176) (r := .a0) (by omega) (by decide)
  refine hload.trans ?_
  change (entered cause s).regs .a0 = _
  rw [entered_regs]
  rfl

/-- In every run, and whatever else ran in the meantime: after a timer interrupt a program goes
on at the same instruction with all of its registers but `t0` and `t1`, and it notices nothing
exactly when these two held the values of the kernel before. -/
theorem interrupt_transparent_iff (hhandler : ServesTimer handler) (htop : 264 ≤ top.toNat)
    (h : InUser handler top s) :
    ∃ s', trapped handler timerCause s = some s' ∧ s'.pc = s.pc ∧
      (∀ r, r ≠ .t0 → r ≠ .t1 → s'.regs r = s.regs r) ∧
        ((∀ r, s'.regs r = s.regs r) ↔
          s.regs .t0 = userStatus (s.csrs .sstatus) ∧ s.regs .t1 = 0) := by
  have hstack : 264 ≤ (s.csrs .sscratch).toNat := by
    rw [h.sscratch hhandler htop]
    exact htop
  obtain ⟨s', hrun, hback⟩ := interrupt_cameBack hhandler hstack
  have hothers : ∀ r, r ≠ .t0 → r ≠ .t1 → s'.regs r = s.regs r := fun r h0 h1 => by
    by_cases hr : r = .a0
    · rw [hr, hback.a0, calling_savedA0 hstack]
    · exact hback.regs r hr h0 h1
  refine ⟨s', hrun, hback.pc.trans (BitVec.add_zero _), hothers, ?_, ?_⟩
  · intro hall
    exact ⟨by rw [← hall, hback.t0], by rw [← hall, hback.t1]⟩
  · rintro ⟨h0, h1⟩ r
    by_cases hr : r = .t0
    · rw [hr, hback.t0, h0]
    by_cases hr' : r = .t1
    · rw [hr', hback.t1, h1]
    · exact hothers r hr hr'

theorem some_servesTimer : ServesTimer some := fun t _ =>
  ⟨t, rfl, rfl, rfl, (BitVec.add_zero _).symm, fun _ _ _ => rfl⟩

/-- A process that enters user mode for the first time. -/
def newborn : State where
  pc := 0x80200000
  regs := fun r => if r = .a0 then 0x80204000 else if r = .a1 then 0x80203000 else 0
  csrs := fun _ => 0
  mem := fun _ => 0

theorem newborn_inUser : ∃ s, InUser some 0x80203000 s := by
  have hframe : Frame.At ⟨fun _ => 0, 0, 0, 0⟩ newborn.mem (newborn.regs .a0).toNat := by
    have hzero : ∀ a, le64 newborn.mem a = 0 := fun a => le64_eq_zero fun _ _ => rfl
    exact ⟨fun _ _ _ => hzero _, hzero _, hzero _, hzero _⟩
  obtain ⟨s, hrun, _⟩ := @userret_resumed newborn _ some hframe (by decide)
  exact ⟨s, .starts hframe (by decide) rfl hrun⟩

theorem interrupt_transparent_newborn :
    ∃ s s', trapped some timerCause s = some s' ∧ s'.pc = s.pc ∧
      (∀ r, r ≠ .t0 → r ≠ .t1 → s'.regs r = s.regs r) ∧
        ((∀ r, s'.regs r = s.regs r) ↔
          s.regs .t0 = userStatus (s.csrs .sstatus) ∧ s.regs .t1 = 0) := by
  obtain ⟨s, h⟩ := newborn_inUser
  exact ⟨s, interrupt_transparent_iff some_servesTimer (by decide) h⟩

end Programs

end OsAgentLab.TrapVec
