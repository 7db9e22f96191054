/-
The timer of one hart: the comparator and the pending bit that firmware and
kernel share, the firmware's trap handler, and the kernel's timer code.
-/
import OsAgentLab.Bytes

namespace OsAgentLab

/-- The value `~0ULL`. -/
def allOnes : Nat := 18446744073709551615

/-- `mtime`, `mtimecmp` and the bit STIP of `mip`. -/
structure Hart where
  mtime : Nat
  mtimecmp : Nat
  stip : Bool
deriving DecidableEq, Repr

/-- `struct mtrap_frame`, the fields that the timer calls use. -/
structure MtrapFrame where
  a0 : Nat
  a1 : Nat
  a6 : Nat
  a7 : Nat
  mepc : Nat
  mcause : Nat
deriving DecidableEq, Repr

section Firmware

/-- `SBI_EXT_TIME`, `SBI_EXT_SRST` and `SBI_ERR_NOT_SUPPORTED`. -/
def sbiExtTime : Nat := 0x54494D45
def sbiExtSrst : Nat := 0x53525354
def sbiErrNotSupported : Nat := 18446744073709551614

/-- `sbi_set_timer` of the firmware. -/
def fwSetTimer (h : Hart) (stime : Nat) : Hart := { h with mtimecmp := stime, stip := false }

/-- `mtrap_handler`; `none` when it does not return.  `sbi_system_reset` writes
to a device that is not part of the state. -/
def mtrapHandler (h : Hart) (tf : MtrapFrame) : Option (Hart × MtrapFrame) :=
  if tf.mcause / 2 ^ 63 ≠ 0 then
    if tf.mcause % 4096 = 7 then some ({ h with mtimecmp := allOnes, stip := true }, tf) else none
  else if tf.mcause = 9 then
    if tf.a7 = sbiExtTime ∧ tf.a6 = 0 then
      some (fwSetTimer h tf.a0, { tf with a0 := 0, a1 := 0, mepc := u64 (tf.mepc + 4) })
    else if tf.a7 = sbiExtSrst then
      some (h, { tf with a0 := 0, a1 := 0, mepc := u64 (tf.mepc + 4) })
    else if tf.a7 = 0 then
      some (fwSetTimer h tf.a0, { tf with a0 := 0, mepc := u64 (tf.mepc + 4) })
    else some (h, { tf with a0 := sbiErrNotSupported, a1 := 0, mepc := u64 (tf.mepc + 4) })
  else none

/-- `mcause` of a machine timer interrupt. -/
def machineTimer : Nat := 2 ^ 63 + 7

end Firmware

section Kernel

/-- The frame of the `ecall` in the kernel's `sbi_set_timer`. -/
def setTimerFrame (stime : Nat) : MtrapFrame where
  a0 := stime
  a1 := 0
  a6 := 0
  a7 := sbiExtTime
  mepc := 0
  mcause := 9

/-- `sbi_set_timer` of the kernel: one run of the firmware's handler. -/
def sbiSetTimer (h : Hart) (stime : Nat) : Option Hart :=
  (mtrapHandler h (setTimerFrame stime)).map Prod.fst

/-- The variables of `timer.c`; the time base is only reported. -/
structure TimerVars where
  interval : Nat
  tickHz : Nat
  ticks : Nat
  nextDeadline : Nat
deriving DecidableEq, Repr

/-- Where the kernel is in `timer_handle`. -/
inductive TimerPhase where
  | outside
  | entered
  | counted
  | advanced
  | armed
deriving DecidableEq, Repr

/-- Hart and kernel.  `log` remembers each increment of `g_ticks`: when it
happened, and the deadline it was for. -/
structure TimerState where
  hart : Hart
  vars : TimerVars
  phase : TimerPhase
  log : List (Nat × Nat)
deriving DecidableEq, Repr

/-- `timebase_hz` and `tick_hz` of `timer_init`; the boot information may be
missing. -/
def timerRates (bi : Option (Nat × Nat)) : Nat × Nat :=
  match bi with
  | none => (10000000, 100)
  | some (timebase, hz) => (if timebase ≠ 0 then timebase else 10000000,
      if hz ≠ 0 then hz else 100)

/-- `g_timer_interval`. -/
def timerInterval (rates : Nat × Nat) : Nat :=
  if rates.1 / rates.2 = 0 then 1 else rates.1 / rates.2

/-- `timer_init`; `delay` is the time between `read_time` and the end of the
call of the firmware. -/
def timerInit (bi : Option (Nat × Nat)) (delay : Nat) (h : Hart) : Option TimerState :=
  let rates := timerRates bi
  let interval := timerInterval rates
  let deadline := u64 (h.mtime + interval)
  (sbiSetTimer { h with mtime := h.mtime + delay } deadline).map fun h =>
    { hart := h, vars := ⟨interval, rates.2, 0, deadline⟩, phase := .outside, log := [] }

end Kernel

section Steps

/-- One step: time passes, one of the two timer interrupts is taken, or
`timer_handle` goes on.  Machine interrupts are taken in every phase, those of
the supervisor outside of the handler. -/
inductive TimerStep (s : TimerState) : TimerState → Prop
  | time {t : Nat} (hle : s.hart.mtime ≤ t) (hlt : t < 2 ^ 64) :
      TimerStep s { s with hart := { s.hart with mtime := t } }
  | machine {tf tf' : MtrapFrame} {h : Hart} (hdue : s.hart.mtimecmp ≤ s.hart.mtime)
      (hcause : tf.mcause = machineTimer) (hrun : mtrapHandler s.hart tf = some (h, tf')) :
      TimerStep s { s with hart := h }
  | supervisor (hphase : s.phase = .outside) (hpending : s.hart.stip = true) :
      TimerStep s { s with phase := .entered }
  /-- `g_ticks++`. -/
  | count (hphase : s.phase = .entered) :
      TimerStep s
        { s with
          phase := .counted
          vars := { s.vars with ticks := u64 (s.vars.ticks + 1) }
          log := s.log ++ [(s.hart.mtime, s.vars.nextDeadline)] }
  /-- `g_next_deadline += g_timer_interval`; the sum is still a 64-bit number. -/
  | advance (hphase : s.phase = .counted)
      (hwrap : s.vars.nextDeadline + s.vars.interval < 2 ^ 64) :
      TimerStep s
        { s with
          phase := .advanced
          vars := { s.vars with nextDeadline := u64 (s.vars.nextDeadline + s.vars.interval) } }
  /-- `sbi_set_timer(g_next_deadline)`. -/
  | arm {h : Hart} (hphase : s.phase = .advanced)
      (hrun : sbiSetTimer s.hart s.vars.nextDeadline = some h) :
      TimerStep s { s with phase := .armed, hart := h }
  | leave (hphase : s.phase = .armed) : TimerStep s { s with phase := .outside }

/-- Any number of steps. -/
inductive TimerSteps : TimerState → TimerState → Prop
  | refl (s : TimerState) : TimerSteps s s
  | tail {s s' s'' : TimerState} : TimerSteps s s' → TimerStep s' s'' → TimerSteps s s''

end Steps

end OsAgentLab
