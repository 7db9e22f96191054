/-
What `proc_exec` and `proc_exec_on` do to the pages of the processes: the process gets a new
address space in place of its old one, or keeps what it has.
-/
import OsAgentLab.Proc.ExecSpace

namespace OsAgentLab

variable {kt : Nat} {own : Nat → Prop} {s u : Sys} {t t' : Tenants (Option Nat)}
  {l l' : List Nat} {i newpt vn p entry sstatus va argc : Nat} {m m' : Mm} {sp : Space}

section Frame

/-- The trapframe with which a program starts: at `entry`, with the stack pointer `va` and
`argc` and `va` as arguments; every other register is zero. -/
structure FreshFrame (b : Nat → UInt8) (entry sstatus va argc : Nat) : Prop where
  sepc : le64 b 240 = entry
  sstatus : le64 b 248 = sstatus
  usp : le64 b 256 = va
  a0 : le64 b 176 = argc
  a1 : le64 b 184 = va
  others : ∀ x, x < 264 → ¬ (176 ≤ x ∧ x < 192) → ¬ (240 ≤ x ∧ x < 264) → b x = 0

theorem le64_shift (m : Nat → UInt8) (p o : Nat) : le64 (fun x => m (p + x)) o = le64 m (p + o) :=
  le64_congr fun x _ => by rw [Nat.add_assoc]

/-- The stores of `execTrapframe`. -/
theorem FreshFrame.stored {m m' : Nat → UInt8} (hentry : entry < 18446744073709551616)
    (hsstatus : sstatus < 18446744073709551616) (hva : va < 18446744073709551616)
    (hargc : argc < 18446744073709551616)
    (hm : m = put64 (put64 (put64 (put64 (put64 (put64 (overlay m' p 264 fun _ => 0) (p + 240) entry)
      (p + 248) sstatus) (p + 256) va) (p + 176) argc) (p + 184) va) (p + 192) 0) :
    FreshFrame (fun x => m (p + x)) entry sstatus va argc where
  sepc := by
    rw [le64_shift, hm, le64_put64_of_apart (by omega), le64_put64_of_apart (by omega),
      le64_put64_of_apart (by omega), le64_put64_of_apart (by omega),
      le64_put64_of_apart (by omega), le64_put64_self hentry]
  sstatus := by
    rw [le64_shift, hm, le64_put64_of_apart (by omega), le64_put64_of_apart (by omega),
      le64_put64_of_apart (by omega), le64_put64_of_apart (by omega), le64_put64_self hsstatus]
  usp := by
    rw [le64_shift, hm, le64_put64_of_apart (by omega), le64_put64_of_apart (by omega),
      le64_put64_of_apart (by omega), le64_put64_self hva]
  a0 := by
    rw [le64_shift, hm, le64_put64_of_apart (by omega), le64_put64_of_apart (by omega),
      le64_put64_self hargc]
  a1 := by
    rw [le64_shift, hm, le64_put64_of_apart (by omega), le64_put64_self hva]
  others x hx h₁ h₂ := by
    have hzero : ∀ m' : Nat → UInt8, m' (p + x) = 0 → put64 m' (p + 192) 0 (p + x) = 0 := by
      intro m' hm'
      by_cases hin : 192 ≤ x ∧ x < 200
      · rw [put64, overlay_of_mem (by omega)]
        simp [byteOf]
      · rw [put64_of_apart (by omega), hm']
    rw [hm]
    refine hzero _ ?_
    rw [put64_of_apart (by omega), put64_of_apart (by omega), put64_of_apart (by omega),
      put64_of_apart (by omega), put64_of_apart (by omega), overlay_of_mem (by omega)]

theorem execSstatus_lt (n : Nat) : execSstatus n < 18446744073709551616 := by
  have hand : n &&& 0xfffffffffffffefd < 2 ^ 64 :=
    Nat.lt_of_le_of_lt Nat.and_le_right (by decide)
  exact Nat.or_lt_two_pow hand (by decide)

/-- The new trapframe of a process. -/
theorem execTrapframe_spec {k : Option Nat} {b : Nat → UInt8} (h : Estate kt own m t l)
    (hk : t.frame k = some (p, b))
    (hentry : entry < 18446744073709551616) (hsstatus : sstatus < 18446744073709551616)
    (hva : va < 18446744073709551616) (hargc : argc < 18446744073709551616) :
    ∃ m' b', execTrapframe p entry sstatus va argc m = (.ok (), m') ∧ m'.satp = m.satp ∧
      EstateStep kt own m t l m' (t.withFrame k (some (p, b'))) l ∧
      FreshFrame b' entry sstatus va argc := by
  obtain ⟨m', hm'⟩ : ∃ m' : Mm, m' = { m with
      mem := put64 (put64 (put64 (put64 (put64 (put64 (overlay m.mem p 264 fun _ => 0) (p + 240) entry)
        (p + 248) sstatus) (p + 256) va) (p + 176) argc) (p + 184) va) (p + 192) 0 } := ⟨_, rfl⟩
  have hmem : m'.mem = put64 (put64 (put64 (put64 (put64 (put64 (overlay m.mem p 264 fun _ => 0)
      (p + 240) entry) (p + 248) sstatus) (p + 256) va) (p + 176) argc) (p + 184) va) (p + 192) 0 := by
    rw [hm']
  have hhead : m'.freelist = m.freelist := by rw [hm']
  refine ⟨m', _, hm' ▸ rfl, by rw [hm'], h.writeFrame hk hhead fun x hx => ?_,
    .stored hentry hsstatus hva hargc hmem⟩
  unfold InPage at hx
  rw [hmem, put64_of_apart (by omega), put64_of_apart (by omega), put64_of_apart (by omega),
    put64_of_apart (by omega), put64_of_apart (by omega), put64_of_apart (by omega),
    overlay_of_not_mem (by omega)]

end Frame

section Commit

/-- The bounds under which the new trapframe holds what `execCommit` is given. -/
structure CommitBounds (info stack : Nat × Nat) : Prop where
  entry : info.1 < 18446744073709551616
  size : info.2 ≤ userLimit
  argc : stack.1 < 18446744073709551616
  va : stack.2 < 18446744073709551616

theorem pgRoundUp_le_userLimit {n : Nat} (h : n ≤ userLimit) : pgRoundUp n ≤ userLimit := by
  rw [(pgRoundUp_div h).1]
  unfold userLimit at h ⊢
  omega

theorem execSatp_run (i newpt : Nat) (u : Sys) : execSatp i newpt u = (.ok (), { u with
    mm := { u.mm with satp := if u.current = some i then newpt else u.mm.satp } }) := by
  by_cases hcur : u.current = some i
  · rw [execSatp, Prog.modify_apply, if_pos hcur, if_pos hcur]
  · rw [execSatp, Prog.modify_apply, if_neg hcur, if_neg hcur]

/-- `execCommit` from the runs of its parts. -/
theorem execCommit_run {info stack : Nat × Nat} {m₁ m₃ : Mm}
    (hframe : execTrapframe (u.procs i).tf info.1 (execSstatus u.sstatus) stack.2 stack.1 u.mm =
      (.ok (), m₁))
    (hfree : uvmFree (u.procs i).pagetable
      { m₁ with satp := if u.current = some i then newpt else m₁.satp } = (.ok (), m₃)) :
    execCommit i newpt info stack u = (.ok 0, { u.setProc i
      { u.procs i with pagetable := newpt, sz := pgRoundUp info.2 } with mm := m₃ }) := by
  let u₁ := u.setProc i { u.procs i with pagetable := newpt, sz := pgRoundUp info.2 }
  have hframe₁ : onMm (execTrapframe (u.procs i).tf info.1 (execSstatus u.sstatus) stack.2 stack.1)
      u₁ = (.ok (), { u₁ with mm := m₁ }) := onMm_run hframe
  have hfree₁ : onMm (uvmFree (u.procs i).pagetable) { u₁ with
      mm := { m₁ with satp := if u.current = some i then newpt else m₁.satp } } =
      (.ok (), { u₁ with mm := m₃ }) :=
    onMm_run (s := { u₁ with
      mm := { m₁ with satp := if u.current = some i then newpt else m₁.satp } }) hfree
  rw [execCommit, Prog.get_bind, Prog.modify_bind]
  refine (Prog.bind_ok hframe₁ _).trans ((Prog.bind_ok (execSatp_run i newpt _) _).trans ?_)
  exact Prog.bind_ok hfree₁ _

/-- The tenants after `proc_exec`: the one in slot `i` has the trapframe `b` at `p`, and the
address space `sp`. -/
def Tenants.settle (t : Tenants (Option Nat)) (i p : Nat) (b : Nat → UInt8) (newpt : Nat)
    (sp : Space) : Tenants (Option Nat) :=
  (t.withFrame (some i) (some (p, b))).withSpace (some i) (some (newpt, sp))

/-- The address space that was built moves from the tenant `none` to the process. -/
theorem Tenants.moved {v : Option (Nat × Space)} (h : t.space none = none) :
    (((t.withSpace none v).withSpace (some i) none).withSpace (some i) v).withSpace none none =
      t.withSpace (some i) v := by
  rw [Tenants.withSpace_twice]
  refine congrArg (Tenants.mk t.frame) (funext fun k => ?_)
  by_cases hnone : k = none
  · rw [hnone, Function.update_self, Function.update_of_ne (by simp), h]
  · rw [Function.update_of_ne hnone]
    by_cases hk : k = some i
    · rw [hk, Function.update_self, Tenants.withSpace_self]
    · rw [Function.update_of_ne hk, Tenants.withSpace_of_ne hk, Tenants.withSpace_of_ne hnone]

/-- The process switches to the address space that was built, and its old one is freed. -/
theorem execCommit_housed {info stack : Nat × Nat} (h : Housed kt own s t l) (hkt : IsPage kt)
    (hused : (s.procs i).state ≠ .unused) (hsame : u = { s with fs := u.fs, mm := u.mm })
    (hstep : EstateStep kt own s.mm t l u.mm (t.withSpace none (some (newpt, sp))) l')
    (hsatp : u.mm.satp = s.mm.satp) (hbounds : CommitBounds info stack) :
    ∃ u' b l'', execCommit i newpt info stack u = (.ok 0, u') ∧
      Housed kt own u' (t.settle i (s.procs i).tf b newpt sp) l'' ∧
      EstateStep kt own s.mm t l u'.mm (t.settle i (s.procs i).tf b newpt sp) l'' ∧
      u'.mm.satp = (if s.current = some i then newpt else s.mm.satp) ∧
      u'.procs = Function.update s.procs i
        { s.procs i with pagetable := newpt, sz := pgRoundUp info.2 } ∧
      FreshFrame b info.1 (execSstatus s.sstatus) stack.2 stack.1 := by
  obtain ⟨f, m₀, rfl⟩ : ∃ f m₀, u = { s with fs := f, mm := m₀ } := ⟨_, _, hsame⟩
  obtain ⟨⟨_, hframe⟩, ⟨old, hspace⟩, _, hkstack⟩ := h.tenant hused
  obtain ⟨m₁, b, hrun₁, hsatp₁, hstep₁, hfresh⟩ := execTrapframe_spec (k := some i) hstep.estate
    hframe hbounds.entry (execSstatus_lt s.sstatus) hbounds.va hbounds.argc
  rw [Tenants.withSpace_withFrame] at hstep₁
  obtain ⟨m₂, hm₂⟩ : ∃ m₂ : Mm, m₂ = { m₁ with
      satp := if s.current = some i then newpt else m₁.satp } := ⟨_, rfl⟩
  have hstep₂ := hstep₁.estate.registers (show m₂.mem = m₁.mem by rw [hm₂])
    (show m₂.freelist = m₁.freelist by rw [hm₂])
  obtain ⟨m₃, l₃, hrun₃, hsatp₃, hstep₃, _⟩ := hstep₂.estate.vacate (k := some i)
    ((Tenants.withSpace_of_ne (by simp) _).trans hspace) hkt
  have hstep₄ := hstep₃.estate.handOver (j := some i) (k := none) (v := some (newpt, sp))
    ((Tenants.withSpace_of_ne (by simp) _).trans (Tenants.withSpace_self _))
    (Tenants.withSpace_self _)
  rw [Tenants.moved (t := t.withFrame (some i) (some ((s.procs i).tf, b))) h.spareSpace] at hstep₄
  have hall := (((hstep.trans hstep₁).trans hstep₂).trans hstep₃).trans hstep₄
  let q := { s.procs i with pagetable := newpt, sz := pgRoundUp info.2 }
  refine ⟨{ ({ s with fs := f, mm := m₀ } : Sys).setProc i q with mm := m₃ }, b, l₃, ?_, ?_, hall, ?_,
    rfl, hfresh⟩
  · rw [hm₂] at hrun₃
    exact execCommit_run hrun₁ hrun₃
  · exact h.setSlot (q := q) hall.estate (fun k hk => Tenants.withFrame_of_ne hk _)
      (fun k hk => Tenants.withSpace_of_ne hk _)
      (.tenant hused (Tenants.withFrame_self _) (Tenants.withSpace_self _)
        (pgRoundUp_le_userLimit hbounds.size) hkstack) rfl rfl rfl
  · rw [hsatp₃, hm₂, hsatp₁, hsatp]

end Commit

section Exec

/-- The arguments that a program is started with: those of the call, or those for the
interpreter of a script. -/
inductive ExecArgs (path : CName) (argv : Option (List CName)) : List CName → Prop
  | program : ExecArgs path argv ((argv.getD []).take maxArg)
  | script (interp arg : CName) :
      ExecArgs path argv ((scriptArgv interp arg path argv).take maxArg)

/-- How `proc_exec` ends for the process in slot `i`. -/
inductive ExecEnds (kt : Nat) (own : Nat → Prop) (s : Sys) (t : Tenants (Option Nat))
    (l : List Nat) (i : Nat) (A : List CName → Prop) :
    Outcome Errno Int → Sys → Tenants (Option Nat) → List Nat → Prop
  /-- The process has a new address space and a new trapframe; no page is lost. -/
  | replaced {u : Sys} {newpt sz entry va vn : Nat} {b : Nat → UInt8} {sp : Space}
      {args : List CName} {l' : List Nat} (hargs : A args)
      (hstep : EstateStep kt own s.mm t l u.mm (t.settle i (s.procs i).tf b newpt sp) l')
      (hprocs : u.procs = Function.update s.procs i { s.procs i with pagetable := newpt, sz := sz })
      (hladen : Laden args va sp) (hentry : EntryPoint s.fs vn entry)
      (hframe : FreshFrame b entry (execSstatus s.sstatus) va args.length)
      (hsatp : u.mm.satp = if s.current = some i then newpt else s.mm.satp) :
      ExecEnds kt own s t l i A (.ok 0) u (t.settle i (s.procs i).tf b newpt sp) l'
  /-- The process has what it had. -/
  | kept {r : Outcome Errno Int} {u : Sys} {l' : List Nat} (hr : ∀ v, r ≠ .ok v)
      (hprocs : u.procs = s.procs) (hshift : EstateShift kt own s.mm t l u.mm t l')
      (hsatp : u.mm.satp = s.mm.satp) : ExecEnds kt own s t l i A r u t l'

/-- What is known behind `proc_exec`. -/
def ExecDone (kt : Nat) (own : Nat → Prop) (s : Sys) (t : Tenants (Option Nat)) (l : List Nat)
    (i : Nat) (A : List CName → Prop) (x : Outcome Errno Int × Sys) : Prop :=
  ∃ t' l', Housed kt own x.2 t' l' ∧ ExecEnds kt own s t l i A x.1 x.2 t' l'

variable {A B : List CName → Prop} {r : Outcome Errno Int}

/-- Nothing came of it: only files and memory changed, and at most pages got lost. -/
theorem ExecDone.of_kept (h : Housed kt own s t l) (hr : ∀ v, r ≠ .ok v)
    (hsame : u = { s with fs := u.fs, mm := u.mm })
    (hshift : EstateShift kt own s.mm t l u.mm t l') (hsatp : u.mm.satp = s.mm.satp) :
    ExecDone kt own s t l i A (r, u) := by
  have hprocs : u.procs = s.procs := by rw [hsame]
  have himage : u.image = s.image := by rw [hsame]
  refine ⟨t, l', ⟨hshift.estate, fun k => ?_, h.spareFrame, h.spareSpace⟩,
    .kept hr hprocs hshift hsatp⟩
  show Lodged u.image k (u.procs k) _ _
  rw [hprocs, himage]
  exact h.lodged k

/-- Lookups and reads that come before. -/
theorem ExecDone.of_browse {x : Outcome Errno Int × Sys} {f : Kernel} (hbrowse : Browse s.fs f)
    (h : ExecDone kt own { s with fs := f } t l i A x) (himp : ∀ args, A args → B args) :
    ExecDone kt own s t l i B x := by
  obtain ⟨r, u⟩ := x
  obtain ⟨t', l', hhoused, hends⟩ := h
  refine ⟨t', l', hhoused, ?_⟩
  cases hends with
  | replaced hargs hstep hprocs hladen hentry hframe hsatp =>
      exact .replaced (himp _ hargs) hstep hprocs hladen (hentry.of_browse hbrowse) hframe hsatp
  | kept hr hprocs hshift hsatp => exact .kept hr hprocs hshift hsatp

/-- A program after which this is known, as a triple. -/
theorem ExecDone.triple {P : Sys → Prop} {f : SysM Int}
    (h : ∀ u, P u → ExecDone kt own s t l i A (f u)) :
    Prog.Triple P f (fun v u => ExecDone kt own s t l i A (.ok v, u))
      (fun e u => ExecDone kt own s t l i A (.err e, u))
      (fun u => ExecDone kt own s t l i A (.fault, u)) := by
  intro u hu
  have hends := h u hu
  cases hrun : f u with
  | mk r u' =>
      rw [hrun] at hends
      cases r with
      | ok v => exact hends
      | err e => exact hends
      | fault => exact hends
      | diverges =>
          obtain ⟨t', l', hhoused, hends⟩ := hends
          cases hends with
          | kept hr hprocs hshift hsatp =>
              exact ⟨t, l', hhoused, .kept (fun v hv => by cases hv) hprocs hshift hsatp⟩

theorem ExecDone.of_triple {P : Sys → Prop} {f : SysM Int}
    (h : Prog.Triple P f (fun v u => ExecDone kt own s t l i A (.ok v, u))
      (fun e u => ExecDone kt own s t l i A (.err e, u))
      (fun u => ExecDone kt own s t l i A (.fault, u))) (hu : P u) :
    ExecDone kt own s t l i A (f u) := by
  have hends := h u hu
  cases hrun : f u with
  | mk r u' =>
      rw [hrun] at hends
      cases r with
      | ok v => exact hends
      | err e => exact hends
      | fault => exact hends
      | diverges =>
          obtain ⟨t', l', hhoused, hends⟩ := hends
          cases hends with
          | kept hr hprocs hshift hsatp =>
              exact ⟨t, l', hhoused, .kept (fun v hv => by cases hv) hprocs hshift hsatp⟩

/-- An address space that nobody remembers is dropped from the books. -/
theorem Abandoned.forget {m₀ : Mm} (h : Abandoned kt own m₀ t l newpt m)
    (hnone : t.space none = none) :
    ∃ l', EstateShift kt own m₀ t l m t l' ∧ m.satp = m₀.satp := by
  obtain ⟨sp, l', hshift, hsatp⟩ := h
  have hforget := hshift.estate.forget none
  rw [Tenants.withSpace_twice, Tenants.withSpace_same hnone] at hforget
  exact ⟨l', hshift.trans hforget, hsatp⟩

/-- An address space that `uvm_free` gives back. -/
theorem Abandoned.free {m₀ : Mm} (h : Abandoned kt own m₀ t l newpt m) (hkt : IsPage kt)
    (hnone : t.space none = none) :
    ∃ m' l', uvmFree newpt m = (.ok (), m') ∧ EstateShift kt own m₀ t l m' t l' ∧
      m'.satp = m₀.satp := by
  obtain ⟨sp, l', hshift, hsatp⟩ := h
  obtain ⟨m', l'', hrun, hsatp', hstep, _⟩ :=
    hshift.estate.vacate (Tenants.withSpace_self _) hkt
  rw [Tenants.withSpace_twice, Tenants.withSpace_same hnone] at hstep
  exact ⟨m', l'', hrun, hshift.trans hstep.shift, hsatp'.trans hsatp⟩

variable (vn) in
/-- `proc_exec` of a program, once there is a page table. -/
theorem execProgram_housed (h : Housed kt own s t l) (hkt : IsPage kt)
    (hused : (s.procs i).state ≠ .unused) (hsound : SoundFiles s.fs) (argv : List CName) :
    Prog.Triple (Working s (Building kt own s.mm t l newpt fun _ => True))
      (Prog.onErr (execLoad newpt vn argv) (fun e => do
          onMm (uvmFree newpt)
          Prog.fail e) >>= fun r => execCommit i newpt r.1 r.2)
      (fun v u => ExecDone kt own s t l i (fun args => args = argv.take maxArg) (.ok v, u))
      (fun e u => ExecDone kt own s t l i (fun args => args = argv.take maxArg) (.err e, u))
      (fun u => ExecDone kt own s t l i (fun args => args = argv.take maxArg) (.fault, u)) := by
  have hstops : ∀ u, Working s (Abandoned kt own s.mm t l newpt) u →
      ExecDone kt own s t l i (fun args => args = argv.take maxArg) (.fault, u) := by
    intro u hu
    obtain ⟨l', hshift, hsatp⟩ := hu.mem.forget h.spareSpace
    exact .of_kept h (fun v hv => by cases hv) hu.same hshift hsatp
  refine Prog.Triple.bind (Prog.Triple.onErr
    ((execLoad_building vn hsound argv).conseq (fun _ => id) (fun _ _ => id) (fun _ _ => id) hstops)
    fun e u hu => ?_) fun r u hu => ?_
  · obtain ⟨m', l', hfree, hshift, hsatp⟩ := hu.mem.free hkt h.spareSpace
    rw [Prog.bind_ok (onMm_run hfree), Prog.fail_apply]
    refine .of_kept h (fun v hv => by cases hv) ?_ hshift hsatp
    rw [hu.same]
  · obtain ⟨⟨⟨sp, l₁, hladen, hstep, hsatp⟩, _, hsame⟩, hentry, hsz, hargc⟩ := hu
    have hle : r.2.1 ≤ 16 := by
      rw [hargc]
      exact List.length_take_le _ _
    have htop := hladen.args.top
    unfold userStackTop userLimit at htop
    have hbounds : CommitBounds r.1 r.2 := ⟨hentry.lt, hsz, by omega, by omega⟩
    obtain ⟨u', b, l₂, hrun, hhoused, hall, hsatp', hprocs, hfresh⟩ :=
      execCommit_housed h hkt hused hsame hstep hsatp hbounds
    rw [hrun]
    rw [hargc] at hfresh
    exact ⟨_, l₂, hhoused, .replaced rfl hall hprocs hladen hentry hfresh hsatp'⟩

/-- `proc_exec` of a program. -/
theorem execBinary_housed (h : Housed kt own s t l) (hkt : IsPage kt)
    (hused : (s.procs i).state ≠ .unused) (hroot : Rooted kt own s.mm t)
    (hsound : SoundFiles s.fs) (argv : List CName) :
    ExecDone kt own s t l i (fun args => args = argv.take maxArg) (execBinary i vn argv s) := by
  have hshort : ∀ m' l', uvmCreate s.mm = (.ok none, m') → m'.satp = s.mm.satp →
      EstateStep kt own s.mm t l m' t l' →
      ExecDone kt own s t l i (fun args => args = argv.take maxArg) (execBinary i vn argv s) := by
    intro m' l' hcreate hsatp hstep
    rw [execBinary, Prog.bind_ok (onMm_run hcreate), Option.elim_none, Prog.fail_apply]
    exact .of_kept h (fun v hv => by cases hv) rfl hstep.shift hsatp
  cases l with
  | nil => exact hshort s.mm [] (uvmCreate_nil h.estate.free) rfl (.refl h.estate)
  | cons newpt l =>
      cases l with
      | nil =>
          obtain ⟨m', hcreate, hfree, hmem, hsatp⟩ := uvmCreate_single h.estate.free
          refine hshort m' [newpt] hcreate hsatp
            (h.estate.inFree hfree (fun _ => Iff.rfl) fun x hx => ?_)
          exact hmem x (hx newpt (by simp))
      | cons low l =>
          obtain ⟨m₁, hcreate, hsatp₁, hstep₁, _⟩ :=
            h.estate.create h.spareSpace (h.estate.satpRoot hroot)
          have hwork : Working s (Building kt own s.mm t (newpt :: low :: l) newpt fun _ => True)
              { s with mm := m₁ } := ⟨⟨_, _, trivial, hstep₁, hsatp₁⟩, .refl, rfl⟩
          rw [execBinary, Prog.bind_ok (onMm_run hcreate), Option.elim_some]
          exact .of_triple (execProgram_housed vn h hkt hused hsound argv) hwork

/-- Lookups and reads change nothing that the processes hold. -/
theorem Housed.withFs (h : Housed kt own s t l) (f : Kernel) : Housed kt own { s with fs := f } t l :=
  ⟨h.estate, h.lodged, h.spareFrame, h.spareSpace⟩

/-- `proc_exec` of a program or of a script, where the interpreter of a script does as is
expected. -/
theorem execDepth_housed {interpreter : CName → List CName → SysM Int} {path : CName}
    {argv : Option (List CName)} (h : Housed kt own s t l) (hkt : IsPage kt)
    (hused : (s.procs i).state ≠ .unused) (hroot : Rooted kt own s.mm t)
    (hsound : SoundFiles s.fs) (hprogram : A ((argv.getD []).take maxArg))
    (hinterp : ∀ interp arg f, Browse s.fs f → ExecDone kt own { s with fs := f } t l i A
      (interpreter interp (scriptArgv interp arg path argv) { s with fs := f })) :
    ExecDone kt own s t l i A (execDepth interpreter i path argv s) := by
  -- only files were looked at so far
  let W := Working s fun m => m = s.mm
  have hstate : ∀ u, W u → u = { s with fs := u.fs } := by
    intro u hu
    rw [hu.same, hu.mem]
  have hkept : ∀ u (r : Outcome Errno Int), W u → (∀ v, r ≠ .ok v) →
      ExecDone kt own s t l i A (r, u) := by
    intro u r hu hr
    rw [hstate u hu]
    exact .of_kept h hr rfl (.refl h.estate) rfl
  have herr : ∀ (e : Errno) u, W u → ExecDone kt own s t l i A (.err e, u) := fun e u hu =>
    hkept u _ hu fun v hv => by cases hv
  have hfault : ∀ u, W u → ExecDone kt own s t l i A (.fault, u) := fun u hu =>
    hkept u _ hu fun v hv => by cases hv
  have hfs : ∀ {α : Type} {f : Kern α}, (∀ k r k', f k = (r, k') → Browse k k') →
      Prog.Triple W (onFs f) (fun _ => W) (fun e u => ExecDone kt own s t l i A (.err e, u))
        (fun u => ExecDone kt own s t l i A (.fault, u)) := fun hf =>
    (Working.onFs hf).conseq (fun _ => id) (fun _ _ hu => hu.1) herr hfault
  refine ExecDone.of_triple (P := W) (Prog.Triple.get_bind fun u hu => ?_) ⟨rfl, .refl, rfl⟩
  refine Prog.Triple.bind ((hfs fun k r k' => .lookup .refl).pre fun v hv => hv ▸ hu) fun vn => ?_
  refine Prog.Triple.bind (R := fun _ => W) ?_ fun script => ?_
  · refine Prog.Triple.bind (hfs fun k r k' => .read .refl) fun r => ?_
    cases hwords : shebangOf r.2 with
    | error e => exact Prog.Triple.fail fun u hu => herr e u hu
    | ok words => exact Prog.Triple.pure fun u => id
  · refine Prog.Triple.elim (Prog.Triple.elim (Prog.Triple.crash hfault) fun vn _ => ?_)
      fun words _ => Prog.Triple.ite (fun _ => Prog.Triple.crash hfault) fun _ => ?_
    · refine ExecDone.triple fun u hu => ?_
      rw [hstate u hu]
      refine .of_browse hu.files (execBinary_housed (h.withFs u.fs) hkt hused hroot
        (hsound.browse hu.files) _) ?_
      rintro _ rfl
      exact hprogram
    · refine ExecDone.triple fun u hu => ?_
      rw [hstate u hu]
      exact .of_browse hu.files (hinterp _ _ _ hu.files) fun _ => id

/-- `proc_exec` gives a process a new address space, with the stack and the arguments of the
program, or leaves it what it has; it changes nobody else's memory. -/
theorem procExecCommon_housed (h : Housed kt own s t l) (hkt : IsPage kt)
    (hused : (s.procs i).state ≠ .unused) (hroot : Rooted kt own s.mm t)
    (hsound : SoundFiles s.fs) (path : CName) (argv : Option (List CName)) :
    ExecDone kt own s t l i (ExecArgs path argv) (procExecCommon i path argv s) := by
  refine execDepth_housed h hkt hused hroot hsound .program fun interp arg f hbrowse => ?_
  refine execDepth_housed (h.withFs f) hkt hused hroot (hsound.browse hbrowse) ?_ fun _ _ f' _ => ?_
  · exact .script interp arg
  · exact .of_kept (h.withFs f') (fun v hv => by cases hv) rfl (.refl h.estate) rfl

/-- `proc_exec` for the current process. -/
theorem procExec_housed (h : Housed kt own s t l) (hkt : IsPage kt) (hcur : s.current = some i)
    (hused : (s.procs i).state ≠ .unused) (hroot : Rooted kt own s.mm t)
    (hsound : SoundFiles s.fs) (path : CName) (argv : Option (List CName)) :
    ExecDone kt own s t l i (ExecArgs path argv) (procExec path argv s) := by
  have hrun : procExec path argv s = procExecCommon i path argv s := by
    unfold procExec
    rw [hcur]
  rw [hrun]
  exact procExecCommon_housed h hkt hused hroot hsound path argv

end Exec

end OsAgentLab
