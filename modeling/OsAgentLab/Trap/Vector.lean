/-
The entry of the kernel from user mode and the way back, line by line: `trapvec.S`,
`userret.S` and `swtch.S`.
-/
import OsAgentLab.Riscv

namespace OsAgentLab.TrapVec

open Riscv

/-- The labels `1:`, `2:` and `3:` of `trapvec.S`. -/
inductive Label where
  | one | two | three
deriving DecidableEq, Repr

/-- The lines of the three files; the only function that is called is `kernel_trap_handler`. -/
inductive Line where
  | label (l : Label)
  | op (o : Op)
  | andi (rd rs : Reg) (imm : Word)
  | beqz (rs : Reg) (l : Label)
  | bnez (rs : Reg) (l : Label)
  | j (l : Label)
  | call
  | sret
  | ret
deriving DecidableEq, Repr

namespace Line

abbrev csrrw (rd : Reg) (csr : Csr) (rs : Reg) : Line := op (.csrrw rd csr rs)
abbrev csrr (rd : Reg) (csr : Csr) : Line := op (.csrr rd csr)
abbrev csrw (csr : Csr) (rs : Reg) : Line := op (.csrw csr rs)
abbrev mv (rd rs : Reg) : Line := op (.mv rd rs)
abbrev addi (rd rs : Reg) (imm : Word) : Line := op (.addi rd rs imm)
abbrev sd (rs : Reg) (offset : Word) (base : Reg) : Line := op (.sd rs offset base)
abbrev ld (rd : Reg) (offset : Word) (base : Reg) : Line := op (.ld rd offset base)

end Line

section Execution

/-- The lines behind a label; the labels are used forwards only. -/
def behind (l : Label) : List Line → List Line
  | [] => []
  | .label l' :: rest => if l' = l then rest else behind l rest
  | _ :: rest => behind l rest

/-- Run the lines up to `sret`, `ret` or their end.  `handler` is what the call of
`kernel_trap_handler` does up to its return. -/
def exec (handler : State → Option State) : Nat → List Line → State → Option State
  | _, [], s => some s
  | 0, _ :: _, _ => none
  | fuel + 1, line :: rest, s =>
      match line with
      | .label _ => exec handler fuel rest s
      | .op o => exec handler fuel rest (o.apply s)
      | .andi rd rs imm => exec handler fuel rest (s.setReg rd (s.regs rs &&& imm))
      | .beqz rs l =>
          if s.regs rs = 0 then exec handler fuel (behind l rest) s
          else exec handler fuel rest s
      | .bnez rs l =>
          if s.regs rs ≠ 0 then exec handler fuel (behind l rest) s
          else exec handler fuel rest s
      | .j l => exec handler fuel (behind l rest) s
      | .call => (handler s).bind (exec handler fuel rest)
      | .sret => some s.sret
      | .ret => some { s with pc := s.regs .ra }

variable {handler : State → Option State} {rest : List Line} {fuel : Nat} {s : State}

@[simp] theorem exec_label (l : Label) :
    exec handler (fuel + 1) (.label l :: rest) s = exec handler fuel rest s := rfl

@[simp] theorem exec_op (o : Op) :
    exec handler (fuel + 1) (.op o :: rest) s = exec handler fuel rest (o.apply s) := rfl

@[simp] theorem exec_andi (rd rs : Reg) (imm : Word) :
    exec handler (fuel + 1) (.andi rd rs imm :: rest) s =
      exec handler fuel rest (s.setReg rd (s.regs rs &&& imm)) := rfl

@[simp] theorem exec_call :
    exec handler (fuel + 1) (.call :: rest) s = (handler s).bind (exec handler fuel rest) := rfl

@[simp] theorem exec_sret : exec handler (fuel + 1) (.sret :: rest) s = some s.sret := rfl

@[simp] theorem exec_ret :
    exec handler (fuel + 1) (.ret :: rest) s = some { s with pc := s.regs .ra } := rfl

theorem exec_beqz_taken {rs : Reg} {l : Label} (h : s.regs rs = 0) :
    exec handler (fuel + 1) (.beqz rs l :: rest) s = exec handler fuel (behind l rest) s :=
  if_pos h

theorem exec_bnez_not {rs : Reg} {l : Label} (h : s.regs rs = 0) :
    exec handler (fuel + 1) (.bnez rs l :: rest) s = exec handler fuel rest s :=
  if_neg (not_not.mpr h)

/-- Straight-line code is run through in one step. -/
theorem exec_ops (ops : List Op) :
    exec handler (ops.length + fuel) (ops.map Line.op ++ rest) s =
      exec handler fuel rest (ops.foldl Op.apply s) := by
  induction ops generalizing s with
  | nil => rw [List.length_nil, Nat.zero_add, List.map_nil, List.nil_append, List.foldl_nil]
  | cons o ops ih =>
      rw [List.length_cons, Nat.add_right_comm, List.map_cons, List.cons_append, exec_op, ih,
        List.foldl_cons]

end Execution

section Assembly

open Reg Csr Line Label

def kernelTrapVector : List Line :=
  [ csrr t0 sstatus,
    andi t1 t0 0x100,
    beqz t1 one,
    j two,
    label one,
    csrrw sp sscratch sp,
    label two,
    addi sp sp (-264),
    sd ra 0 sp,
    sd gp 8 sp,
    sd tp 16 sp,
    sd t0 24 sp,
    sd t1 32 sp,
    sd t2 40 sp,
    sd t3 48 sp,
    sd t4 56 sp,
    sd t5 64 sp,
    sd t6 72 sp,
    sd s0 80 sp,
    sd s1 88 sp,
    sd s2 96 sp,
    sd s3 104 sp,
    sd s4 112 sp,
    sd s5 120 sp,
    sd s6 128 sp,
    sd s7 136 sp,
    sd s8 144 sp,
    sd s9 152 sp,
    sd s10 160 sp,
    sd s11 168 sp,
    sd a0 176 sp,
    sd a1 184 sp,
    sd a2 192 sp,
    sd a3 200 sp,
    sd a4 208 sp,
    sd a5 216 sp,
    sd a6 224 sp,
    sd a7 232 sp,

    csrr t0 sepc,
    sd t0 240 sp,
    csrr t0 sstatus,
    sd t0 248 sp,
    csrr t0 sscratch,
    sd t0 256 sp,

    mv a0 sp,
    call,

    ld t0 248 sp,
    ld t1 240 sp,
    andi t3 t0 0x100,
    csrw sstatus t0,
    csrw sepc t1,

    ld ra 0 sp,
    ld gp 8 sp,
    ld tp 16 sp,
    ld t4 56 sp,
    ld t5 64 sp,
    ld t6 72 sp,
    ld s0 80 sp,
    ld s1 88 sp,
    ld s2 96 sp,
    ld s3 104 sp,
    ld s4 112 sp,
    ld s5 120 sp,
    ld s6 128 sp,
    ld s7 136 sp,
    ld s8 144 sp,
    ld s9 152 sp,
    ld s10 160 sp,
    ld s11 168 sp,
    ld a0 176 sp,
    ld a1 184 sp,
    ld a2 192 sp,
    ld a3 200 sp,
    ld a4 208 sp,
    ld a5 216 sp,
    ld a6 224 sp,
    ld a7 232 sp,

    bnez t3 three,
    ld t2 256 sp,
    csrw sscratch t2,
    ld t0 24 sp,
    ld t1 32 sp,
    ld t2 40 sp,
    ld t3 48 sp,
    addi sp sp 264,
    csrrw sp sscratch sp,
    sret,
    label three,
    ld t0 24 sp,
    ld t1 32 sp,
    ld t2 40 sp,
    ld t3 48 sp,
    addi sp sp 264,
    sret ]

def userret : List Line :=
  [ csrw sscratch a1,

    ld t0 248 a0,
    ld t1 240 a0,
    csrw sstatus t0,
    csrw sepc t1,

    ld ra 0 a0,
    ld gp 8 a0,
    ld tp 16 a0,
    ld t0 24 a0,
    ld t1 32 a0,
    ld t2 40 a0,
    ld t3 48 a0,
    ld t4 56 a0,
    ld t5 64 a0,
    ld t6 72 a0,
    ld s0 80 a0,
    ld s1 88 a0,
    ld s2 96 a0,
    ld s3 104 a0,
    ld s4 112 a0,
    ld s5 120 a0,
    ld s6 128 a0,
    ld s7 136 a0,
    ld s8 144 a0,
    ld s9 152 a0,
    ld s10 160 a0,
    ld s11 168 a0,
    ld a1 184 a0,
    ld a2 192 a0,
    ld a3 200 a0,
    ld a4 208 a0,
    ld a5 216 a0,
    ld a6 224 a0,
    ld a7 232 a0,
    ld sp 256 a0,
    ld a0 176 a0,
    sret ]

def swtch : List Line :=
  [ sd ra 0 a0,
    sd sp 8 a0,
    sd s0 16 a0,
    sd s1 24 a0,
    sd s2 32 a0,
    sd s3 40 a0,
    sd s4 48 a0,
    sd s5 56 a0,
    sd s6 64 a0,
    sd s7 72 a0,
    sd s8 80 a0,
    sd s9 88 a0,
    sd s10 96 a0,
    sd s11 104 a0,

    ld ra 0 a1,
    ld sp 8 a1,
    ld s0 16 a1,
    ld s1 24 a1,
    ld s2 32 a1,
    ld s3 40 a1,
    ld s4 48 a1,
    ld s5 56 a1,
    ld s6 64 a1,
    ld s7 72 a1,
    ld s8 80 a1,
    ld s9 88 a1,
    ld s10 96 a1,
    ld s11 104 a1,
    ret ]

end Assembly

section Hart

/-- `sstatus` after a trap from user mode: SPIE takes SIE, SIE and SPP are off. -/
def userStatus (w : Word) : Word := (w &&& ~~~0x122#64) ||| ((w &&& 0x2#64) <<< 4)

/-- What the hart does when it takes a trap in user mode; it then runs the trap vector. -/
def userTrap (cause : Word) (s : State) : State :=
  ((s.setCsr .sepc s.pc).setCsr .scause cause).setCsr .sstatus (userStatus (s.csrs .sstatus))

/-- A trap in user mode, up to the return from it. -/
def trapped (handler : State → Option State) (cause : Word) (s : State) : Option State :=
  exec handler kernelTrapVector.length kernelTrapVector (userTrap cause s)

theorem userStatus_spp (w : Word) : userStatus w &&& 0x100 = 0 := by
  rw [userStatus, BitVec.and_or_distrib_right, BitVec.shiftLeft_and_distrib, BitVec.and_assoc,
    BitVec.and_assoc, show (~~~0x122#64 &&& 0x100 : Word) = 0#64 from by decide,
    show (0x2#64 <<< 4 &&& 0x100 : Word) = 0#64 from by decide, BitVec.and_zero, BitVec.and_zero,
    BitVec.or_zero]
  rfl

end Hart

end OsAgentLab.TrapVec
