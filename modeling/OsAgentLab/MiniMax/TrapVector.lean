/-
The boot code, the trap vector and the trap handler of the MiniMax-2.1 kernel, line by line.
-/
import OsAgentLab.Riscv

namespace OsAgentLab.MiniMax

open Riscv

/-- The labels and functions of the assembly files. -/
inductive LinkSymbol where
  | bootStackTop | kernelStackTop | clearBss
  | fromKernel | saveContext | trapReturn | kernelTrapHandler
deriving DecidableEq, Repr

/-- What the linker decides: where the stacks of `stack.S` lie, one behind the other and aligned
to pages, and the addresses of the code. -/
structure Image where
  bootStack : Nat
  code : LinkSymbol → Word
  aligned : bootStack % 4096 = 0
  base : 0x80200000 ≤ bootStack
  fits : bootStack + 32768 < 18446744073709551616

namespace Image

def bootStackTop (img : Image) : Nat := img.bootStack + 16384

def kernelStack (img : Image) : Nat := img.bootStackTop

def kernelStackTop (img : Image) : Nat := img.kernelStack + 16384

def symbol (img : Image) : LinkSymbol → Word
  | .bootStackTop => BitVec.ofNat 64 img.bootStackTop
  | .kernelStackTop => BitVec.ofNat 64 img.kernelStackTop
  | l => img.code l

/-- A stack pointer into the kernel stack. -/
def Holds (img : Image) (sp : Word) : Prop :=
  img.kernelStack ≤ sp.toNat ∧ sp.toNat ≤ img.kernelStackTop

variable {img : Image} {sp : Word}

theorem top_lt (img : Image) : img.kernelStackTop < 18446744073709551616 := by
  have hfits := img.fits
  have htop : img.kernelStackTop = img.bootStack + 16384 + 16384 := rfl
  omega

theorem Holds.bounds (h : img.Holds sp) :
    img.bootStack + 16384 ≤ sp.toNat ∧ sp.toNat + 8 ≤ 18446744073709551616 := by
  have hfits := img.fits
  have haligned := img.aligned
  simp only [Holds, kernelStackTop, kernelStack, bootStackTop] at h
  omega

theorem Holds.ne_zero (h : img.Holds sp) : sp ≠ 0 := by
  rintro rfl
  have hzero : (0 : Word).toNat = 0 := rfl
  have hbounds := h.bounds
  omega

end Image

section Assembly

open Reg Csr Asm Line LinkSymbol

/-- `kernel_boot` up to its call of `kernel_main`. -/
def kernelBoot : List (Line LinkSymbol) :=
  [ csrrw a0 sscratch a0,
    mv s0 a0,
    la sp bootStackTop,

    call clearBss,

    la sp kernelStackTop,
    csrw sscratch sp,
    mv a0 s0 ]

def kernelTrapVector : List (Line LinkSymbol) :=
  [ csrrw t0 sscratch sp,
    bnez t0 fromKernel,

    csrrw sp sscratch sp,
    la ra trapReturn,
    j saveContext,

    label fromKernel,
    csrw sscratch t0,
    mv s0 t0,

    label saveContext,
    addi sp sp (-256),

    sd ra 0 sp,
    sd sp 8 sp,
    sd gp 16 sp,
    sd tp 24 sp,
    sd t0 32 sp,
    sd t1 40 sp,
    sd t2 48 sp,
    sd s0 56 sp,
    sd s1 64 sp,
    sd a0 72 sp,
    sd a1 80 sp,
    sd a2 88 sp,
    sd a3 96 sp,
    sd a4 104 sp,
    sd a5 112 sp,
    sd a6 120 sp,
    sd a7 128 sp,
    sd s2 136 sp,
    sd s3 144 sp,
    sd s4 152 sp,
    sd s5 160 sp,
    sd s6 168 sp,
    sd s7 176 sp,
    sd s8 184 sp,
    sd s9 192 sp,
    sd s10 200 sp,
    sd s11 208 sp,
    sd t3 216 sp,
    sd t4 224 sp,
    sd t5 232 sp,
    sd t6 240 sp,

    csrr t0 sepc,
    sd t0 248 sp,

    csrr t0 sstatus,
    sd t0 256 sp,

    mv a0 sp,
    call kernelTrapHandler,

    label trapReturn,
    ld t0 256 sp,
    csrw sstatus t0,

    ld t0 248 sp,
    csrw sepc t0,

    ld ra 0 sp,
    ld sp 8 sp,
    ld gp 16 sp,
    ld tp 24 sp,
    ld t0 32 sp,
    ld t1 40 sp,
    ld t2 48 sp,
    ld s0 56 sp,
    ld s1 64 sp,
    ld a0 72 sp,
    ld a1 80 sp,
    ld a2 88 sp,
    ld a3 96 sp,
    ld a4 104 sp,
    ld a5 112 sp,
    ld a6 120 sp,
    ld a7 128 sp,
    ld s2 136 sp,
    ld s3 144 sp,
    ld s4 152 sp,
    ld s5 160 sp,
    ld s6 168 sp,
    ld s7 176 sp,
    ld s8 184 sp,
    ld s9 192 sp,
    ld s10 200 sp,
    ld s11 208 sp,
    ld t3 216 sp,
    ld t4 224 sp,
    ld t5 232 sp,
    ld t6 240 sp,

    addi sp sp 256,

    csrrw sp sscratch sp,
    sret ]

end Assembly

section Handler

/-- The ways through `kernel_trap_handler`. -/
inductive TrapPath where
  | timer
  | ecall
  | panics (msg : String)
deriving DecidableEq, Repr

def trapPath (scause : Word) : TrapPath :=
  if (scause >>> 63) &&& 1 ≠ 0 then
    if scause &&& 0x7FFFFFFFFFFFFFFF = 5 then .timer else .panics "unhandled trap"
  else if scause = 2 then .panics "illegal instruction"
  else if scause = 5 then .panics "load access fault"
  else if scause = 7 then .panics "store/amo access fault"
  else if scause = 8 then .ecall
  else .panics "unknown exception"

/-- The compiled C functions that return: the handler around `timer_handle`, and around the
messages for an `ecall`; and the loop of `clear_bss`. -/
structure Compiled where
  timerHandle : State → State
  ecallMessages : State → State
  clearBss : State → State

/-- `kernel_trap_handler`; `none` when `panic_trap` shuts the machine down. -/
def kernelTrapHandler (code : Compiled) (s : State) : Option State :=
  match trapPath (s.csrs .scause) with
  | .timer => some (code.timerHandle s)
  | .ecall => some ((code.ecallMessages s).setCsr .sepc (s.csrs .sepc + 4))
  | .panics _ => none

def callee (code : Compiled) : LinkSymbol → State → Option State
  | .kernelTrapHandler, s => kernelTrapHandler code s
  | .clearBss, s => some (code.clearBss s)
  | _, _ => none

/-- The registers that a function of the calling convention leaves as they are. -/
def calleeSaved : List Reg :=
  [.sp, .gp, .tp, .s0, .s1, .s2, .s3, .s4, .s5, .s6, .s7, .s8, .s9, .s10, .s11]

/-- Compiled code follows the calling convention: what lies on the stacks at the stack pointer or
above is the caller's, and none of it writes a control register. -/
structure Conforms (img : Image) (f : State → State) : Prop where
  regs : ∀ s, ∀ r ∈ calleeSaved, (f s).regs r = s.regs r
  csrs : ∀ s, (f s).csrs = s.csrs
  stack : ∀ s a, img.bootStack ≤ (s.regs .sp).toNat → (s.regs .sp).toNat ≤ a →
    a < img.kernelStackTop → (f s).mem a = s.mem a

/-- `scause` of a timer interrupt. -/
def timerCause : Word := 0x8000000000000005

theorem trapPath_timer : trapPath timerCause = .timer := rfl

end Handler

/-- A timer interrupt in supervisor mode, up to the return from it. -/
def interrupt (img : Image) (code : Compiled) (s : State) : Option State :=
  exec img.symbol (callee code) kernelTrapVector kernelTrapVector.length kernelTrapVector
    (s.trap timerCause)

end OsAgentLab.MiniMax
