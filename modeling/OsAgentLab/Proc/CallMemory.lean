/-
What programs see of the system calls that change memory: `proc_fork`, `sys_brk` and
`proc_exec`, byte by byte at user addresses.
-/
import OsAgentLab.Proc.TenancyRun

namespace OsAgentLab

namespace Run

variable {kt : Nat} {own : Nat → Prop} {r : Run} {t t' : Tenants (Option Nat)}
  {l l' : List Nat} {i j k va pt : Nat} {s s' : Sys} {m : Mm} {sp sp' : Space}

section Seen

/-- The bytes that the kernel reads are those of the address space. -/
theorem userByte_byteAt (h : Held kt m pt sp l) (hva : va < userLimit) :
    userByte m pt va = sp.byteAt va := by
  have hlow : LowVa va := Nat.lt_trans hva (by decide)
  cases hu : sp.page (va / 4096) with
  | none =>
      rw [userByte, if_pos (userPa_none h hlow hu), Space.byteAt, hu]
      rfl
  | some u =>
      obtain ⟨hpa, hne⟩ := userPa_page h hlow hu
      rw [userByte, if_neg hne, hpa, Space.byteAt, hu,
        h.space.bytes _ u hu _ (Nat.mod_lt _ (by decide))]
      rfl

theorem userBytes_holds {src : List UInt8} (h : Held kt m pt sp l) (hsrc : sp.Holds va src)
    (hle : va + src.length ≤ userLimit) : userBytes m pt va src.length = some src := by
  induction src generalizing va with
  | nil => rfl
  | cons b src ih =>
      have hlen : (b :: src).length = src.length + 1 := rfl
      have hlimit : userLimit + 1 < 18446744073709551616 := by decide
      have hfirst : userByte m pt va = some b := by
        rw [userByte_byteAt h (by omega)]
        exact hsrc 0 (Nat.succ_pos _)
      have hrest : sp.Holds (va + 1) src := fun x hx => by
        rw [Nat.add_assoc, Nat.add_comm 1 x]
        exact hsrc (x + 1) (Nat.succ_lt_succ hx)
      rw [hlen, userBytes, hfirst, Option.bind_some, u64_of_lt (by omega), ih hrest (by omega)]
      rfl

end Seen

section Program

/-- A file that holds one program: the header of the file, and one of a segment. -/
def programBytes : List UInt8 :=
  [0x7f, 0x45, 0x4c, 0x46, 2, 1] ++ List.replicate 18 0 ++ wordBytes [0x400000, 64, 0] ++
    [0, 0, 0, 0, 0, 0, 56, 0, 1, 0] ++ List.replicate 6 0 ++
    [1, 0, 0, 0, 5, 0, 0, 0] ++ wordBytes [120, 0x400000, 0, 1, 1, 0] ++ [0x13]

/-- A file system whose root is the program. -/
def programKernel : Kernel :=
  { emptyKernel with
    vnodes := ⟨fun _ => true, fun _ => ⟨.file, some .ramfs, 0, none, []⟩⟩
    ramNodes := ⟨fun _ => true, fun _ =>
      ⟨.file, [], none, none, none, programBytes.length, fun i => programBytes.getD i 0⟩⟩
    mounts := []
    root := some 0
    cwd := some 0 }

/-- A program that finds the file system as it was. -/
theorem keeps_program {α : Type} {m : Kern α} (h : (m programKernel).2 = programKernel) :
    Prog.Keeps (fun k => k = programKernel) m := by
  rintro _ rfl
  cases hrun : m programKernel with
  | mk r k' =>
      rw [hrun] at h
      cases r <;> exact h

/-- Lookups stay at the root, which is no directory. -/
theorem vfsLookupAt_program (cwd : Option Nat) (path : CName) :
    Prog.Keeps (fun k => k = programKernel) (vfsLookupAt cwd path) := by
  refine Prog.Keeps.bind (keeps_program ?_) fun start => ?_
  · unfold vfsStart
    by_cases habs : path.head? = some 47
    · simp only [if_pos habs]
      rfl
    · simp only [if_neg habs]
      cases cwd <;> rfl
  generalize pathComponents path = names
  induction names generalizing start with
  | nil => exact Prog.Keeps.pure _
  | cons name names ih =>
      refine Prog.Keeps.bind (keeps_program ?_) ih
      unfold vfsEnter
      by_cases hdot : name = dotName
      · rw [if_pos hdot, Prog.pure_apply]
      rw [if_neg hdot]
      cases start with
      | none => rfl
      | some dir =>
          by_cases hdots : name = dotDotName
          · simp only [if_pos hdots]
            rfl
          · simp only [if_neg hdots]
            rfl

theorem vfsRead_ramfs {k : Kernel} {vn : Nat} (h : (k.vnode vn).ops = some .ramfs) (len off : Nat) :
    vfsRead (some vn) len off k = ramfsRead vn len off k := by
  rw [vfsRead, vfsDispatch, Prog.get_bind, h]
  rfl

theorem programKernel_node (vn : Nat) : (programKernel.vnode vn).ops = some .ramfs ∧
    (programKernel.ramNode vn).type = .file ∧
      (programKernel.ramNode vn).data = fun i => programBytes.getD i 0 :=
  ⟨rfl, rfl, rfl⟩

theorem vfsRead_program (vn : Option Nat) (len off : Nat) :
    Prog.Keeps (fun k => k = programKernel) (vfsRead vn len off) := by
  refine keeps_program ?_
  cases vn with
  | none => rfl
  | some vn =>
      obtain ⟨hops, htype, _⟩ := programKernel_node vn
      rw [vfsRead_ramfs hops, ramfsRead, if_neg (not_not.mpr htype)]
      split
      · rfl
      · rfl

theorem browse_program {k : Kernel} (h : Browse programKernel k) : k = programKernel := by
  induction h with
  | refl => rfl
  | @lookup _ _ cwd path r _ hrun ih =>
      have hkeeps := vfsLookupAt_program cwd path _ ih
      rw [hrun] at hkeeps
      cases r <;> exact hkeeps
  | @read _ _ vn len off r _ hrun ih =>
      have hkeeps := vfsRead_program vn len off _ ih
      rw [hrun] at hkeeps
      cases r <;> exact hkeeps

/-- The bytes that a read finds are those of the program. -/
theorem foundAt_program {vn off : Nat} {bytes : List UInt8}
    (h : FoundAt programKernel vn off bytes) (hne : bytes ≠ []) :
    bytes = (List.range bytes.length).map fun i => programBytes.getD (off + i) 0 := by
  obtain ⟨k', k'', hbrowse, hrun⟩ := h
  obtain ⟨hops, htype, hdata⟩ := programKernel_node vn
  rw [browse_program hbrowse, vfsRead_ramfs hops, ramfsRead, if_neg (not_not.mpr htype)] at hrun
  split at hrun
  · exact absurd (Prod.mk.inj (Outcome.ok.inj (Prod.mk.inj hrun).1)).2.symm hne
  · have hbytes := (Prod.mk.inj (Outcome.ok.inj (Prod.mk.inj hrun).1)).2
    have hlen := congrArg List.length hbytes
    rw [List.length_map, List.length_range] at hlen
    rw [hlen, hdata] at hbytes
    exact hbytes.symm

/-- Its one segment does not wrap. -/
theorem programKernel_sound : SoundFiles programKernel := by
  rintro vn ph ⟨head, bytes, i, hhead, hlen, hrec, hi, hbytes, hblen, rfl, htype⟩
  have heq := foundAt_program hhead (by rintro rfl; cases hlen)
  rw [hlen] at heq
  subst heq
  have hnum : (ehdrOf (bufOf ((List.range 64).map fun i => programBytes.getD (0 + i) 0))).phnum = 1 := by
    decide +kernel
  rw [hnum] at hi
  obtain rfl : i = 0 := Nat.lt_one_iff.mp hi
  have heq' := foundAt_program hbytes (by rintro rfl; cases hblen)
  rw [hblen] at heq'
  subst heq'
  decide +kernel

/-- The kernel runs its first process. -/
def scheduledRun : Run :=
  { readyRun with
    booting := false
    sys := { readyRun.sys.setState 0 .running with
      current := some 0
      mm := { readyRun.sys.mm with satp := (readyRun.sys.procs 0).pagetable } } }

/-- On this file system. -/
def busyRun : Run := { scheduledRun with sys := { scheduledRun.sys with fs := programKernel } }

theorem busyRun_current : busyRun.sys.current = some 0 := by rw [busyRun, scheduledRun]

theorem Tenancy.withFs (h : Tenancy kt own r t l) (f : Kernel) :
    Tenancy kt own { r with sys := { r.sys with fs := f } } t l :=
  ⟨h.housed.withFs f, h.counted.withFs f, h.booting, h.seated, h.kstacks⟩

theorem busyRun_tenancy : ∃ t l, Tenancy smallKernel.l1 (KernelByte smallKernel) busyRun t l := by
  obtain ⟨t, l, h⟩ := readyRun_tenancy
  obtain ⟨hidle, _⟩ := h.booting rfl
  have hstep : Step readyRun (.schedule 0) scheduledRun :=
    .schedule (by decide) hidle readyRun_state
  have hsound : Sound (.schedule 0) readyRun := trivial
  obtain ⟨t', l', h', _⟩ := hstep.tenancy h smallKernel_linked.tables.kernel hsound
  exact ⟨t', l', h'.withFs programKernel⟩

end Program

section Fork

/-- The child in slot `j` has copies of the pages of the process in slot `i` below its break and
of its stack, and starts from the trapframe of the call with a zero in `a0`. -/
structure Cloned (s s' : Sys) (i j : Nat) : Prop where
  slot : procFindUnused s = some j
  ready : (s'.procs j).state = .runnable
  parent : (s'.procs j).parent = some i
  sz : (s'.procs j).sz = (s.procs i).sz
  copied : ∀ va, va < userLimit → Forks (s.procs i).sz (va / 4096) →
    userByte s'.mm (s'.procs j).pagetable va = userByte s.mm (s.procs i).pagetable va
  absent : ∀ va, va < userLimit → ¬ Forks (s.procs i).sz (va / 4096) →
    userByte s'.mm (s'.procs j).pagetable va = none
  saved : ∀ x, x < 264 → s'.mm.mem ((s'.procs j).tf + x) =
    if 176 ≤ x ∧ x < 184 then 0 else s.mm.mem (callFrame s + x)

/-- The bytes of a child are those of its parent. -/
theorem forked_byteAt {src : Space} {sz : Nat} (h : SpaceForked src sp sz) (va : Nat) :
    (Forks sz (va / 4096) → sp.byteAt va = src.byteAt va) ∧
      (¬ Forks sz (va / 4096) → sp.byteAt va = none) := by
  unfold Space.byteAt
  constructor
  · intro hforks
    cases hu : src.page (va / 4096) with
    | none =>
        rw [h.absent _ hforks hu]
    | some u =>
        obtain ⟨pa, hpa⟩ := h.copied _ u hforks hu
        rw [hpa]
        rfl
  · intro hforks
    rw [h.outside _ hforks]
    rfl

/-- `proc_fork` of the current process makes a copy of it, or finds no room for one; either way
the memory of every process stays as it is, that of the caller included. -/
theorem fork_clones {v : Outcome Errno Int} (hkt : IsPage kt) (h : Tenancy kt own r t l)
    (hcur : r.sys.current = some i) (hrun : Call.fork.run r.sys = (v, s')) :
    (v = .err .nomem ∨ v = .ok r.sys.nextPid ∧ ∃ j, Cloned r.sys s' i j) ∧
      ∀ k, (r.sys.procs k).state ≠ .unused → SameMemory r.sys s' k := by
  obtain ⟨_, hrunning, _⟩ := h.current hcur
  have hused : (r.sys.procs i).state ≠ .unused := by simp [hrunning]
  obtain ⟨htf, hown⟩ := h.callFrame hcur
  obtain ⟨v', s₁, t', l', hrun', hhoused, _, _, _, hends⟩ :=
    procFork_housed h.housed hkt hcur hused (h.rooted hcur) htf hown
  obtain ⟨rfl, rfl⟩ := Prod.mk.inj (hrun'.symm.trans hrun)
  cases hends with
  | failed =>
      exact ⟨Or.inl rfl, fun k hk => sameMemory_of_tenants h.housed hhoused hk rfl rfl⟩
  | @child s₁ j p pt b src sp hslot hready hparent hsrc hforked hsz hsaved =>
      refine ⟨Or.inr ⟨rfl, j, ?_⟩, fun k hk => ?_⟩
      · obtain ⟨⟨b', hb'⟩, ⟨sp', hsp'⟩, _⟩ := hhoused.tenant (k := j) (by simp [hready])
        rw [Tenants.withSpace_self] at hsp'
        rw [Tenants.withSpace_frame, Tenants.withFrame_self] at hb'
        obtain ⟨rfl, rfl⟩ := Prod.mk.inj (Option.some.inj hb')
        obtain ⟨rfl, rfl⟩ := Prod.mk.inj (Option.some.inj hsp')
        have hheld := h.housed.estate.held hsrc
        have hheld' := hhoused.estate.held (Tenants.withSpace_self _)
        refine ⟨hslot, hready, hparent, hsz, fun va hva hin => ?_, fun va hva hout => ?_,
          fun x hx => ?_⟩
        · rw [userByte_byteAt hheld' hva, userByte_byteAt hheld hva]
          exact (forked_byteAt hforked va).1 hin
        · rw [userByte_byteAt hheld' hva]
          exact (forked_byteAt hforked va).2 hout
        · rw [← hsaved x hx]
          refine hhoused.estate.saved (some j) _ b ?_ x (by omega)
          rw [Tenants.withSpace_frame, Tenants.withFrame_self]
      · have hkj : some k ≠ some j := by
          intro heq
          obtain rfl := Option.some.inj heq
          exact hk (procFindUnused_some hslot).2
        exact sameMemory_of_tenants h.housed hhoused hk (Tenants.withFrame_of_ne hkj _)
          (Tenants.withSpace_of_ne hkj _)

/-- The first process forks. -/
theorem fork_clones_first : ∃ v s', Call.fork.run busyRun.sys = (v, s') ∧
    (v = .err .nomem ∨ v = .ok busyRun.sys.nextPid ∧ ∃ j, Cloned busyRun.sys s' 0 j) := by
  obtain ⟨t, l, h⟩ := busyRun_tenancy
  cases hrun : Call.fork.run busyRun.sys with
  | mk v s' =>
      have hclones := fork_clones smallKernel_linked.tables.kernel h busyRun_current hrun
      exact ⟨v, s', rfl, hclones.1⟩

end Fork

section Brk

/-- What a process of size `sz` finds at its addresses behind `sys_brk`, which returned `n`. -/
inductive BrkSeen (before after : Nat → Option UInt8) (sz addr : Nat) : Nat → Prop
  | stays (hout : addr = sz ∨ addr < userBase ∨ userStackBase < addr)
      (hsame : ∀ va, va < userLimit → after va = before va) : BrkSeen before after sz addr sz
  | grows (hlt : sz < addr) (hlimit : addr ≤ userStackBase)
      (hnew : ∀ va, pgRoundUp sz ≤ va → va < pgRoundUp addr → before va = none ∧ after va = some 0)
      (hsame : ∀ va, va < userLimit → va < pgRoundUp sz ∨ pgRoundUp addr ≤ va →
        after va = before va) : BrkSeen before after sz addr addr
  /-- Memory ran out: the pages that are there already stay. -/
  | stuck {stop : Nat} (hlt : sz < addr) (hlimit : addr ≤ userStackBase)
      (hstop : stop < pgRoundUp addr) (haligned : stop % 4096 = 0)
      (hnew : ∀ va, pgRoundUp sz ≤ va → va < stop → before va = none ∧ after va = some 0)
      (hsame : ∀ va, va < userLimit → va < pgRoundUp sz ∨ stop ≤ va → after va = before va) :
      BrkSeen before after sz addr sz
  | shrinks (hbase : userBase ≤ addr) (hlt : addr < sz)
      (hgone : ∀ va, pgRoundUp addr ≤ va → va < pgRoundUp sz → after va = none)
      (hsame : ∀ va, va < userLimit → va < pgRoundUp addr ∨ pgRoundUp sz ≤ va →
        after va = before va) : BrkSeen before after sz addr addr

theorem byteAt_of_page (h : sp'.page (va / 4096) = sp.page (va / 4096)) :
    sp'.byteAt va = sp.byteAt va := by
  rw [Space.byteAt, Space.byteAt, h]

theorem byteAt_of_added {n c perm : Nat} (h : PagesAdded sp sp' n c perm) (hn : n * 4096 ≤ va)
    (hc : va < (n + c) * 4096) : sp.byteAt va = none ∧ sp'.byteAt va = some 0 := by
  have hle : n ≤ va / 4096 := by omega
  have hlt : va / 4096 < n + c := by omega
  obtain ⟨pa, hpa⟩ := h.inside _ hle hlt
  rw [Space.byteAt, Space.byteAt, h.fresh _ hle hlt, hpa]
  exact ⟨rfl, rfl⟩

/-- A change of the address space, seen by the process. -/
theorem brkSeen_of_ends {sz addr n : Nat} {before after : Nat → Option UInt8} (hsz : sz ≤ userLimit)
    (hbefore : ∀ va, va < userLimit → before va = sp.byteAt va)
    (hafter : ∀ va, va < userLimit → after va = sp'.byteAt va) (h : BrkEnds sp sz addr n sp') :
    BrkSeen before after sz addr n := by
  have hlimit : userLimit = 0x1400000 := rfl
  have hbase : userStackBase = 0x1380000 := by decide
  have hsame : ∀ va, va < userLimit → sp'.page (va / 4096) = sp.page (va / 4096) →
      after va = before va := by
    intro va hva hpage
    rw [hafter va hva, hbefore va hva, byteAt_of_page hpage]
  have hszUp := (pgRoundUp_div hsz).1
  cases h with
  | stays hout => exact .stays hout fun va hva => hsame va hva rfl
  | grows hlt hstack hadded =>
      have haddrUp := (pgRoundUp_div (a := addr) (by omega)).1
      refine .grows hlt hstack (fun va hlow hhigh => ?_) fun va hva hout => ?_
      · rw [hbefore va (by omega), hafter va (by omega)]
        exact byteAt_of_added hadded (by omega) (by omega)
      · exact hsame va hva (hadded.outside _ (by omega))
  | @stuck sp' k hlt hstack hk hadded =>
      have haddrUp := (pgRoundUp_div (a := addr) (by omega)).1
      refine @BrkSeen.stuck _ _ sz addr (((sz + 4095) / 4096 + k) * 4096) hlt hstack (by omega)
        (by omega) (fun va hlow hhigh => ?_) fun va hva hout => ?_
      · rw [hbefore va (by omega), hafter va (by omega)]
        exact byteAt_of_added hadded (by omega) (by omega)
      · exact hsame va hva (hadded.outside _ (by omega))
  | shrinks hbase' hlt hremoved =>
      have haddrUp := (pgRoundUp_div (a := addr) (by omega)).1
      refine .shrinks hbase' hlt (fun va hlow hhigh => ?_) fun va hva hout => ?_
      · rw [hafter va (by omega), Space.byteAt, hremoved.inside _ (by omega) (by omega)]
        rfl
      · exact hsame va hva (hremoved.outside _ (by omega))

/-- `sys_brk` always returns.  It maps pages of zeros up to the new break, or removes the pages
above it, or leaves the break where it is; nobody else's memory changes. -/
theorem brk_moves (h : Tenancy kt own r t l) (hcur : r.sys.current = some i) (addr : Nat) :
    ∃ (n : Nat) (s' : Sys), sysBrk addr r.sys = (.ok (n : Int), s') ∧ (s'.procs i).sz = n ∧
      BrkSeen (userByte r.sys.mm (r.sys.procs i).pagetable)
        (userByte s'.mm (s'.procs i).pagetable) (r.sys.procs i).sz addr n ∧
      ∀ k, k ≠ i → (r.sys.procs k).state ≠ .unused → SameMemory r.sys s' k := by
  obtain ⟨_, hrunning, hsatp⟩ := h.current hcur
  have hused : (r.sys.procs i).state ≠ .unused := by simp [hrunning]
  obtain ⟨sp, hseat⟩ := h.seated i hcur
  rw [hsatp] at hseat
  obtain ⟨_, _, hsz, _⟩ := h.housed.tenant hused
  obtain ⟨n, s', sp', l', hdone⟩ := sysBrk_housed h.housed hcur hused hseat addr
  have hheld := h.housed.estate.held hseat
  have hseat' := Tenants.withSpace_self (t := t) (k := some i)
    (some ((r.sys.procs i).pagetable, sp'))
  have hheld' := hdone.housed.estate.held hseat'
  obtain ⟨_, ⟨_, hspace⟩, _⟩ := hdone.housed.tenant (used_of_space hdone.housed hseat')
  have hpt : (s'.procs i).pagetable = (r.sys.procs i).pagetable :=
    (Prod.mk.inj (Option.some.inj (hspace.symm.trans hseat'))).1
  refine ⟨n, s', hdone.run, hdone.sz, ?_, fun k hk hkused => ?_⟩
  · rw [hpt]
    exact brkSeen_of_ends hsz (fun va hva => userByte_byteAt hheld hva)
      (fun va hva => userByte_byteAt hheld' hva) hdone.ends
  · have hki : some k ≠ some i := fun heq => hk (Option.some.inj heq)
    exact sameMemory_of_tenants h.housed hdone.housed hkused rfl (Tenants.withSpace_of_ne hki _)

/-- The first process asks for a page. -/
theorem brk_moves_first : ∃ (n : Nat) (s' : Sys), sysBrk 0x401000 busyRun.sys = (.ok (n : Int), s') ∧
    (s'.procs 0).sz = n ∧ BrkSeen (userByte busyRun.sys.mm (busyRun.sys.procs 0).pagetable)
      (userByte s'.mm (s'.procs 0).pagetable) (busyRun.sys.procs 0).sz 0x401000 n := by
  obtain ⟨t, l, h⟩ := busyRun_tenancy
  obtain ⟨n, s', hrun, hsz, hseen, _⟩ := brk_moves h busyRun_current 0x401000
  exact ⟨n, s', hrun, hsz, hseen⟩

end Brk

section Exec

/-- The process in slot `i` starts a program with the arguments `args` at `entry`: the stack is
there, `argv` lies at the stack pointer `va`, and the registers are those for `main`. -/
structure Starts (s s' : Sys) (i : Nat) (args : List CName) (entry va : Nat) : Prop where
  tf : (s'.procs i).tf = (s.procs i).tf
  frame : FreshFrame (fun x => s'.mm.mem ((s'.procs i).tf + x)) entry (execSstatus s.sstatus) va
    args.length
  stack : ∀ x, userStackBase ≤ x → x < userStackTop →
    ∃ b, userByte s'.mm (s'.procs i).pagetable x = some b
  aligned : va % 16 = 0
  base : userStackBase ≤ va
  argv : ∃ addrs,
    userBytes s'.mm (s'.procs i).pagetable va (8 * (args.length + 1)) =
      some (wordBytes (addrs ++ [0])) ∧
    List.Forall₂ (fun a arg => userBytes s'.mm (s'.procs i).pagetable a (arg.length + 1) =
      some (arg ++ [0])) addrs args

theorem starts_of_laden {args : List CName} {entry va : Nat} {b : Nat → UInt8}
    (h : Housed kt own s' t' l') (htf : (s'.procs i).tf = (s.procs i).tf)
    (hframe : t'.frame (some i) = some ((s'.procs i).tf, b))
    (hspace : t'.space (some i) = some ((s'.procs i).pagetable, sp)) (hladen : Laden args va sp)
    (hfresh : FreshFrame b entry (execSstatus s.sstatus) va args.length) :
    Starts s s' i args entry va := by
  have hheld := h.estate.held hspace
  have hsaved := h.estate.saved _ _ _ hframe
  have hlimit : userStackTop = userLimit := rfl
  have htop := hladen.args.top
  have hword : ∀ {w o}, o + 8 ≤ 4096 → le64 b o = w →
      le64 (fun x => s'.mm.mem ((s'.procs i).tf + x)) o = w := by
    intro w o ho hw
    rw [← hw]
    exact le64_congr fun x hx => hsaved _ (by omega)
  obtain ⟨addrs, hargv, hargs⟩ := hladen.args.found
  have hlen : addrs.length = args.length := hargs.length_eq
  have hbytes : (wordBytes (addrs ++ [0])).length = 8 * (args.length + 1) := by
    rw [wordBytes_length, List.length_append, hlen]
    rfl
  refine
    { tf := htf
      frame := ⟨hword (by decide) hfresh.sepc, hword (by decide) hfresh.sstatus,
        hword (by decide) hfresh.usp, hword (by decide) hfresh.a0, hword (by decide) hfresh.a1,
        fun x hx h₁ h₂ => (hsaved x (by omega)).trans (hfresh.others x hx h₁ h₂)⟩
      stack := fun x hlow hhigh => ?_
      aligned := hladen.args.aligned
      base := hladen.args.base
      argv := ⟨addrs, ?_, hargs.imp fun a arg ha => ?_⟩ }
  · have hbase : userStackBase = 4992 * 4096 := by decide
    have htop' : userStackTop = 5120 * 4096 := by decide
    obtain ⟨u, hu, _⟩ := hladen.stack (x / 4096) (by omega) (by omega)
    refine ⟨u.bytes (x % 4096), ?_⟩
    rw [userByte_byteAt hheld (by omega), Space.byteAt, hu]
    rfl
  · rw [← hbytes]
    exact userBytes_holds hheld hargv (by omega)
  · have hlen : (arg ++ [0]).length = arg.length + 1 := List.length_append
    rw [← hlen]
    exact userBytes_holds hheld ha.2.2 (by omega)

/-- `proc_exec` starts the program in place of the caller, or fails and leaves the caller as it
was; the memory of every other process stays. -/
theorem exec_replaces {v : Outcome Errno Int} {path : CName} {argv : Option (List CName)}
    (hkt : IsPage kt) (h : Tenancy kt own r t l) (hcur : r.sys.current = some i)
    (hsound : SoundFiles r.sys.fs) (hrun : procExec path argv r.sys = (v, s')) :
    (v = .ok 0 ∧ (∃ args entry va vn, ExecArgs path argv args ∧ EntryPoint r.sys.fs vn entry ∧
        Starts r.sys s' i args entry va) ∧ s'.mm.satp = (s'.procs i).pagetable ∨
      (∀ n, v ≠ .ok n) ∧ s'.procs = r.sys.procs ∧ SameMemory r.sys s' i) ∧
      ∀ k, k ≠ i → (r.sys.procs k).state ≠ .unused → SameMemory r.sys s' k := by
  obtain ⟨_, hrunning, _⟩ := h.current hcur
  have hused : (r.sys.procs i).state ≠ .unused := by simp [hrunning]
  have hdone := procExec_housed h.housed hkt hcur hused (h.rooted hcur) hsound path argv
  rw [hrun] at hdone
  obtain ⟨t', l', hhoused, hends⟩ := hdone
  have hends' : ExecEnds kt own r.sys t l i (ExecArgs path argv) v s' t' l' := hends
  cases hends' with
  | @replaced u newpt sz entry va vn b sp args l' hargs hstep hprocs hladen hentry hfresh hsatp =>
      have hproc : s'.procs i = { r.sys.procs i with pagetable := newpt, sz := sz } := by
        rw [hprocs, Function.update_self]
      have htf : (s'.procs i).tf = (r.sys.procs i).tf := by rw [hproc]
      have hpt : (s'.procs i).pagetable = newpt := by rw [hproc]
      refine ⟨Or.inl ⟨rfl, ⟨args, entry, va, vn, hargs, hentry, ?_⟩, ?_⟩, fun k hk hkused => ?_⟩
      · refine starts_of_laden hhoused htf ?_ ?_ hladen hfresh
        · rw [htf]
          exact Tenants.withFrame_self _
        · rw [hpt]
          exact Tenants.withSpace_self _
      · rw [hsatp, if_pos hcur, hpt]
      · have hki : some k ≠ some i := fun heq => hk (Option.some.inj heq)
        exact sameMemory_of_tenants h.housed hhoused hkused (Tenants.withFrame_of_ne hki _)
          (Tenants.withSpace_of_ne hki _)
  | kept hr hprocs hshift hsatp =>
      exact ⟨Or.inr ⟨hr, hprocs, sameMemory_of_tenants h.housed hhoused hused rfl rfl⟩,
        fun k _ hkused => sameMemory_of_tenants h.housed hhoused hkused rfl rfl⟩

/-- The first process starts the program at the root. -/
theorem exec_replaces_first : ∃ v s', procExec [47] none busyRun.sys = (v, s') ∧
    (v = .ok 0 ∧ (∃ args entry va vn, ExecArgs [47] none args ∧
        EntryPoint programKernel vn entry ∧ Starts busyRun.sys s' 0 args entry va) ∧
          s'.mm.satp = (s'.procs 0).pagetable ∨
      (∀ n, v ≠ .ok n) ∧ s'.procs = busyRun.sys.procs ∧ SameMemory busyRun.sys s' 0) := by
  obtain ⟨t, l, h⟩ := busyRun_tenancy
  have hsound : SoundFiles busyRun.sys.fs := programKernel_sound
  cases hrun : procExec [47] none busyRun.sys with
  | mk v s' =>
      have hreplaces := exec_replaces smallKernel_linked.tables.kernel h busyRun_current hsound hrun
      exact ⟨v, s', rfl, hreplaces.1⟩

end Exec

end Run

end OsAgentLab
