/-
The stack of a new program: where `proc_exec` puts the arguments, and what the program finds
there.
-/
import OsAgentLab.Proc.Exec
import OsAgentLab.Vm.UserWrites

namespace OsAgentLab

/-- The bytes at the user address `va` and behind it are `src`. -/
def Space.Holds (sp : Space) (va : Nat) (src : List UInt8) : Prop :=
  ∀ i, i < src.length → sp.byteAt (va + i) = some (src.getD i 0)

/-- The arguments `args` lie at the addresses `addrs`, behind the address `low`. -/
def Space.HoldsAll (sp : Space) (low : Nat) (addrs : List Nat) (args : List CName) : Prop :=
  List.Forall₂
    (fun a arg => low ≤ a ∧ a + arg.length + 1 ≤ userStackTop ∧ sp.Holds a (arg ++ [0])) addrs args

/-- The stack on which a program with the arguments `args` starts: the stack pointer `va` is
aligned, and the array at `va` has the addresses of the arguments and a zero behind them. -/
structure ArgStack (sp : Space) (args : List CName) (va : Nat) : Prop where
  aligned : va % 16 = 0
  base : userStackBase ≤ va
  top : va + 8 * (args.length + 1) ≤ userStackTop
  found : ∃ addrs, sp.Holds va (wordBytes (addrs ++ [0])) ∧
    sp.HoldsAll (va + 8 * (args.length + 1)) addrs args

variable {kt pt va low cur : Nat} {m m' : Mm} {sp sp' : Space} {l : List Nat}
  {src bytes : List UInt8} {addrs : List Nat} {args : List CName}

namespace Space.Holds

theorem put_self (hpages : ∀ i, i < src.length → (sp.page ((va + i) / 4096)).isSome) :
    (sp.put va src).Holds va src := by
  intro i hi
  have hin : va ≤ va + i ∧ va + i < va + src.length := ⟨Nat.le_add_right _ _, by omega⟩
  obtain ⟨u, hu⟩ := Option.isSome_iff_exists.mp (hpages i hi)
  rw [put_byteAt, if_pos hin, byteAt, hu, Nat.add_sub_cancel_left]
  rfl

theorem put_of_apart (h : sp.Holds va bytes)
    (hapart : low + src.length ≤ va ∨ va + bytes.length ≤ low) :
    (sp.put low src).Holds va bytes := by
  intro i hi
  have hout : ¬ (low ≤ va + i ∧ va + i < low + src.length) := by omega
  rw [put_byteAt, if_neg hout]
  exact h i hi

end Space.Holds

/-- Bytes below the arguments do not touch them. -/
theorem Space.HoldsAll.put (h : sp.HoldsAll low addrs args) (hlow : va + src.length ≤ low)
    (hle : cur ≤ low) : (sp.put va src).HoldsAll cur addrs args := by
  refine h.imp fun a arg ha => ⟨hle.trans ha.1, ha.2.1, ha.2.2.put_of_apart (Or.inl ?_)⟩
  exact hlow.trans ha.1

theorem alignDown16_le (n : Nat) : alignDown16 n ≤ n := Nat.div_mul_le_self n 16

theorem alignDown16_mod (n : Nat) : alignDown16 n % 16 = 0 := Nat.mul_mod_left _ _

theorem wordBytes_length (words : List Nat) : (wordBytes words).length = 8 * words.length := by
  induction words with
  | nil => rfl
  | cons w words ih =>
      have hword : ((List.range 8).map (byteOf w)).length = 8 := by simp
      rw [wordBytes, List.flatMap_cons, List.length_append, hword, ← wordBytes, ih, List.length_cons]
      omega

section Push

/-- What is known between two arguments. -/
structure Pushed (sp : Space) (pos : Nat × List Nat) (args : List CName) : Prop where
  top : pos.1 ≤ userStackTop
  base : userStackBase ≤ pos.1
  held : sp.HoldsAll pos.1 pos.2 args

/-- `copyout` to the stack of a program. -/
theorem copyoutStack_spec (h : Held kt m pt sp l) (hlow : va + src.length ≤ userStackTop) :
    ∃ r m' sp', Prog.orElse (copyout pt va src) .fault m = (r, m') ∧
      SpaceStep kt m pt sp l m' sp' l ∧ sp.Within sp' ∧
      (r = .ok () ∧ sp' = sp.put va src ∧ (sp.put va src).Holds va src ∨ r = .err .fault) := by
  have hle : va + src.length ≤ 0x2000000 := hlow.trans (by decide)
  obtain ⟨r, m', sp', hrun, hends, hstep⟩ := copyout_space h hle
  cases hends with
  | stored hpages =>
      exact ⟨_, m', _, Prog.orElse_ok hrun _, hstep, Space.within_put, Or.inl ⟨rfl, rfl, .put_self hpages⟩⟩
  | hole hk hpages hnone =>
      exact ⟨_, m', _, Prog.orElse_err hrun _, hstep, Space.within_put, Or.inr rfl⟩

/-- One argument is pushed below the others, or there is no room for it. -/
theorem execPushArg_spec {pos : Nat × List Nat} (h : Held kt m pt sp l) (hpos : Pushed sp pos args)
    (arg : CName) :
    ∃ r m' sp', execPushArg pt pos arg m = (r, m') ∧ SpaceStep kt m pt sp l m' sp' l ∧
      sp.Within sp' ∧ ((∃ pos', r = .ok pos' ∧ Pushed sp' pos' (args ++ [arg])) ∨ ∃ e, r = .err e) := by
  have htop := hpos.top
  have hbase := hpos.base
  by_cases hlong : argMaxLen < arg.length + 1
  · exact ⟨.err .toobig, m, sp, by rw [execPushArg, if_pos hlong, Prog.fail_apply], .refl h,
      .refl sp, Or.inr ⟨_, rfl⟩⟩
  generalize hnew : alignDown16 (pos.1 - (arg.length + 1)) = new
  by_cases hroom : new < userStackBase
  · refine ⟨.err .toobig, m, sp, ?_, .refl h, .refl sp, Or.inr ⟨_, rfl⟩⟩
    rw [execPushArg, if_neg hlong, hnew, if_pos hroom, Prog.fail_apply]
  have hlen : (arg ++ [0]).length = arg.length + 1 := List.length_append
  have hfit : new + (arg ++ [0]).length ≤ pos.1 := by
    have hle := alignDown16_le (pos.1 - (arg.length + 1))
    unfold argMaxLen at hlong
    unfold userStackBase userStackTop userLimit userStackSize at hbase
    omega
  obtain ⟨r, m', sp', hrun, hstep, hwithin, hends⟩ := copyoutStack_spec h (hfit.trans htop)
  have hpush : execPushArg pt pos arg m =
      (Prog.orElse (copyout pt new (arg ++ [0])) .fault >>= fun _ =>
        pure (new, pos.2 ++ [new])) m := by
    rw [execPushArg, if_neg hlong, hnew, if_neg hroom]
  rcases hends with ⟨rfl, rfl, hself⟩ | rfl
  · refine ⟨_, m', _, hpush.trans (Prog.bind_ok hrun _), hstep, hwithin, Or.inl ⟨_, rfl, ?_⟩⟩
    refine ⟨?_, by omega, List.rel_append (hpos.held.put hfit (by omega)) (.cons ?_ .nil)⟩
    · show new ≤ userStackTop
      omega
    · exact ⟨Nat.le_refl _, by omega, hself⟩
  · exact ⟨_, m', sp', hpush.trans (Prog.bind_err hrun _), hstep, hwithin, Or.inr ⟨_, rfl⟩⟩

/-- The arguments of a list are pushed one after the other. -/
theorem execPushAll_spec (rest : List CName) :
    ∀ (m : Mm) (sp : Space) (pos : Nat × List Nat) (args : List CName), Held kt m pt sp l →
      Pushed sp pos args →
      ∃ r m' sp', rest.foldlM (execPushArg pt) pos m = (r, m') ∧ SpaceStep kt m pt sp l m' sp' l ∧
        sp.Within sp' ∧ ((∃ pos', r = .ok pos' ∧ Pushed sp' pos' (args ++ rest)) ∨ ∃ e, r = .err e) := by
  induction rest with
  | nil =>
      intro m sp pos args h hpos
      refine ⟨.ok pos, m, sp, rfl, .refl h, .refl sp, Or.inl ⟨pos, rfl, ?_⟩⟩
      rwa [List.append_nil]
  | cons arg rest ih =>
      intro m sp pos args h hpos
      rw [List.foldlM_cons]
      obtain ⟨r, m₁, sp₁, hrun, hstep, hwithin, hends⟩ := execPushArg_spec h hpos arg
      rcases hends with ⟨pos₁, rfl, hpos₁⟩ | ⟨e, rfl⟩
      · obtain ⟨r, m₂, sp₂, hrun', hstep', hwithin', hends'⟩ := ih m₁ sp₁ pos₁ _ hstep.held hpos₁
        refine ⟨r, m₂, sp₂, (Prog.bind_ok hrun _).trans hrun', hstep.trans hstep', hwithin.trans hwithin', ?_⟩
        rwa [List.append_assoc] at hends'
      · exact ⟨.err e, m₁, sp₁, Prog.bind_err hrun _, hstep, hwithin, Or.inr ⟨e, rfl⟩⟩

/-- A new program finds its arguments on its stack. -/
theorem execPushArgs_spec (h : Held kt m pt sp l) (argv : List CName) :
    ∃ r m' sp', execPushArgs pt argv m = (r, m') ∧ SpaceStep kt m pt sp l m' sp' l ∧
      sp.Within sp' ∧ ((∃ va, r = .ok ((argv.take maxArg).length, va) ∧ ArgStack sp' (argv.take maxArg) va) ∨
        ∃ e, r = .err e) := by
  have hnone : Pushed sp (userStackTop, []) [] := ⟨Nat.le_refl _, by decide, .nil⟩
  obtain ⟨r, m₁, sp₁, hrun, hstep, hwithin, hends⟩ :=
    execPushAll_spec (argv.take maxArg) m sp (userStackTop, []) [] h hnone
  rw [List.nil_append] at hends
  rcases hends with ⟨pos, rfl, hpos⟩ | ⟨e, rfl⟩
  swap
  · exact ⟨.err e, m₁, sp₁, Prog.bind_err hrun _, hstep, hwithin, Or.inr ⟨e, rfl⟩⟩
  have htop := hpos.top
  have hcount : pos.2.length = (argv.take maxArg).length := hpos.held.length_eq
  have hle : pos.2.length ≤ 16 := by
    rw [hcount]
    exact List.length_take_le _ _
  generalize hnew : alignDown16 (pos.1 - (pos.2.length + 1) * 8) = new
  have hpush : execPushArgs pt argv m = (if new < userStackBase then Prog.fail .toobig
      else do
        Prog.orElse (copyout pt new (wordBytes (pos.2 ++ [0]))) .fault
        pure (pos.2.length, new)) m₁ := by
    rw [execPushArgs, Prog.bind_ok hrun, hnew]
  by_cases hroom : new < userStackBase
  · refine ⟨.err .toobig, m₁, sp₁, ?_, hstep, hwithin, Or.inr ⟨_, rfl⟩⟩
    rw [hpush, if_pos hroom, Prog.fail_apply]
  rw [if_neg hroom] at hpush
  have hlen : (wordBytes (pos.2 ++ [0])).length = 8 * (pos.2.length + 1) := by
    rw [wordBytes_length, List.length_append]
    rfl
  have hfit : new + (wordBytes (pos.2 ++ [0])).length ≤ pos.1 := by
    have hdown := alignDown16_le (pos.1 - (pos.2.length + 1) * 8)
    have hbase := hpos.base
    unfold userStackBase userStackTop userLimit userStackSize at hbase
    omega
  obtain ⟨r, m₂, sp₂, hrun', hstep', hwithin', hends'⟩ :=
    copyoutStack_spec hstep.held (hfit.trans htop)
  rcases hends' with ⟨rfl, rfl, hself⟩ | rfl
  · refine ⟨_, m₂, _, hpush.trans (Prog.bind_ok hrun' _), hstep.trans hstep',
      hwithin.trans hwithin', Or.inl ⟨new, hcount ▸ rfl, ?_⟩⟩
    refine ⟨hnew ▸ alignDown16_mod _, by omega, by omega, pos.2, hself, ?_⟩
    rw [← hcount]
    exact hpos.held.imp fun a arg ha => ⟨by omega, ha.2.1, ha.2.2.put_of_apart (Or.inl (by omega))⟩
  · exact ⟨_, m₂, sp₂, hpush.trans (Prog.bind_err hrun' _), hstep.trans hstep',
      hwithin.trans hwithin', Or.inr ⟨_, rfl⟩⟩

end Push

end OsAgentLab
