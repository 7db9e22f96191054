/-
The processes as tenants of physical memory: what each slot of the process table holds, and
what `proc_alloc`, `proc_fork` and `proc_wait` do to it.
-/
import OsAgentLab.Proc.SlotRun
import OsAgentLab.Vm.Estate

namespace OsAgentLab

/-- A slot of the process table holds nothing, or a trapframe and an address space. -/
inductive Lodged (image : Image) (k : Nat) (p : Proc) (frame : Option (Nat × (Nat → UInt8)))
    (space : Option (Nat × Space)) : Prop
  | vacant (hstate : p.state = .unused) (hframe : frame = none) (hspace : space = none)
  | tenant {b : Nat → UInt8} {sp : Space} (hstate : p.state ≠ .unused)
      (hframe : frame = some (p.tf, b))
      (hspace : space = some (p.pagetable, sp)) (hsz : p.sz ≤ userLimit)
      (hkstack : p.kstack = image.kstacks + k * kstackSize)

/-- The slots hold pages as the process table says.  The tenant `none` is an address space
that `proc_exec` builds; there is none between two calls. -/
structure Housed (kt : Nat) (own : Nat → Prop) (s : Sys) (t : Tenants (Option Nat))
    (l : List Nat) : Prop where
  estate : Estate kt own s.mm t l
  lodged : ∀ k, Lodged s.image k (s.procs k) (t.frame (some k)) (t.space (some k))
  spareFrame : t.frame none = none
  spareSpace : t.space none = none

variable {kt : Nat} {own : Nat → Prop} {s s' : Sys} {t t' : Tenants (Option Nat)}
  {l l' : List Nat} {i j k p pt : Nat} {sp : Space}

section Slots

/-- A run on memory, as a run of the kernel. -/
theorem onMm_run {α : Type} {m : Vm α} {r : Outcome Errno α} {mm : Mm} (h : m s.mm = (r, mm)) :
    onMm m s = (r, { s with mm := mm }) :=
  Prog.zoom_apply h

namespace Housed

theorem vacant (h : Housed kt own s t l) (hstate : (s.procs k).state = .unused) :
    t.frame (some k) = none ∧ t.space (some k) = none := by
  cases h.lodged k with
  | vacant _ hframe hspace => exact ⟨hframe, hspace⟩
  | tenant hused _ _ _ _ => exact absurd hstate hused

theorem tenant (h : Housed kt own s t l) (hstate : (s.procs k).state ≠ .unused) :
    (∃ b, t.frame (some k) = some ((s.procs k).tf, b)) ∧
      (∃ sp, t.space (some k) = some ((s.procs k).pagetable, sp)) ∧
        (s.procs k).sz ≤ userLimit ∧
          (s.procs k).kstack = s.image.kstacks + k * kstackSize := by
  cases h.lodged k with
  | vacant hunused _ _ => exact absurd hunused hstate
  | tenant _ hframe hspace hsz hkstack => exact ⟨⟨_, hframe⟩, ⟨_, hspace⟩, hsz, hkstack⟩

/-- The rest of the kernel state is of no matter. -/
theorem congr (h : Housed kt own s t l) (hmm : s'.mm = s.mm) (himage : s'.image = s.image)
    (hproc : ∀ k, (s.procs k).state = .unused ∧ (s'.procs k).state = .unused ∨
      (s.procs k).state ≠ .unused ∧ (s'.procs k).state ≠ .unused ∧
        (s'.procs k).tf = (s.procs k).tf ∧ (s'.procs k).pagetable = (s.procs k).pagetable ∧
          (s'.procs k).sz = (s.procs k).sz ∧ (s'.procs k).kstack = (s.procs k).kstack) :
    Housed kt own s' t l where
  estate := hmm ▸ h.estate
  lodged k := by
    rcases hproc k with ⟨hbefore, hafter⟩ | ⟨hbefore, hafter, htf, hpt, hsz, hkstack⟩
    · obtain ⟨hframe, hspace⟩ := h.vacant hbefore
      exact .vacant hafter hframe hspace
    · obtain ⟨⟨b, hframe⟩, ⟨sp, hspace⟩, hle, hk⟩ := h.tenant hbefore
      exact .tenant hafter (htf ▸ hframe) (hpt ▸ hspace) (hsz ▸ hle)
        (himage ▸ hkstack ▸ hk)
  spareFrame := h.spareFrame
  spareSpace := h.spareSpace

/-- Another slot in the process table, and what it holds. -/
theorem setSlot (h : Housed kt own s t l) {mm : Mm} {q : Proc}
    (hestate : Estate kt own mm t' l')
    (hframe : ∀ k, k ≠ some j → t'.frame k = t.frame k)
    (hspace : ∀ k, k ≠ some j → t'.space k = t.space k)
    (hlodged : Lodged s.image j q (t'.frame (some j)) (t'.space (some j)))
    (hmm : s'.mm = mm) (himage : s'.image = s.image)
    (hprocs : s'.procs = Function.update s.procs j q) : Housed kt own s' t' l' where
  estate := hmm ▸ hestate
  lodged k := by
    rw [hprocs, himage]
    by_cases hk : k = j
    · subst hk
      rw [Function.update_self]
      exact hlodged
    · have hne : some k ≠ some j := fun heq => hk (Option.some.inj heq)
      rw [Function.update_of_ne hk, hframe _ hne, hspace _ hne]
      exact h.lodged k
  spareFrame := (hframe none (by simp)).trans h.spareFrame
  spareSpace := (hspace none (by simp)).trans h.spareSpace

end Housed

theorem Tenants.withFrame_back {κ : Type} [DecidableEq κ] {t : Tenants κ} {k : κ}
    {v : Option (Nat × (Nat → UInt8))} (h : t.frame k = none) : (t.withFrame k v).withFrame k none = t := by
  rw [Tenants.withFrame, Tenants.withFrame, Function.update_idem, ← h, Function.update_eq_self]

theorem Tenants.withFrame_twice {κ : Type} [DecidableEq κ] (t : Tenants κ) (k : κ)
    (v w : Option (Nat × (Nat → UInt8))) : (t.withFrame k v).withFrame k w = t.withFrame k w := by
  rw [Tenants.withFrame, Tenants.withFrame, Function.update_idem]
  rfl

theorem Tenants.withSpace_withFrame {κ : Type} [DecidableEq κ] (t : Tenants κ) (k j : κ)
    (v : Option (Nat × Space)) (w : Option (Nat × (Nat → UInt8))) :
    (t.withSpace k v).withFrame j w = (t.withFrame j w).withSpace k v := rfl

theorem Tenants.withSpace_twice {κ : Type} [DecidableEq κ] (t : Tenants κ) (k : κ)
    (v w : Option (Nat × Space)) : (t.withSpace k v).withSpace k w = t.withSpace k w := by
  rw [Tenants.withSpace, Tenants.withSpace, Function.update_idem]
  rfl

theorem Tenants.withBoth_back {κ : Type} [DecidableEq κ] {t : Tenants κ} {k : κ}
    {v : Option (Nat × (Nat → UInt8))} (hframe : t.frame k = none) (hspace : t.space k = none) :
    ((t.withFrame k v).withSpace k none).withFrame k none = t := by
  have hf : Function.update (Function.update t.frame k v) k none = t.frame := by
    rw [Function.update_idem, ← hframe, Function.update_eq_self]
  have hs : Function.update t.space k none = t.space := by
    rw [← hspace, Function.update_eq_self]
  exact congrArg₂ Tenants.mk hf hs

end Slots

section Alloc

/-- The slot that `proc_alloc` returns. -/
def Proc.fresh (s : Sys) (j tf pt : Nat) : Proc :=
  { Proc.zero with
    state := .used
    pid := s.nextPid
    kstack := s.image.kstacks + j * kstackSize
    tf := tf
    pagetable := pt
    ctx := ⟨s.image.procStart, s.image.kstacks + j * kstackSize + kstackSize, fun _ => 0⟩
    cwd := s.fs.root }

/-- The kernel after a change of memory and of slot `j`, with the next process number. -/
def Sys.allotted (s : Sys) (mm : Mm) (j : Nat) (q : Proc) : Sys :=
  { s with
    mm := mm
    procs := Function.update s.procs j q
    nextPid := Int.bmod (s.nextPid + 1) 4294967296 }

@[simp] theorem Sys.allotted_proc (mm : Mm) (q : Proc) : (s.allotted mm j q).procs j = q :=
  Function.update_self ..

@[simp] theorem Sys.allotted_setProc (mm : Mm) (q q' : Proc) :
    (s.allotted mm j q).setProc j q' = s.allotted mm j q' := by
  rw [Sys.setProc, Sys.allotted, Function.update_idem]
  rfl

theorem Sys.allotted_onMm {α : Type} {m : Vm α} {r : Outcome Errno α} {mm mm' : Mm} {q : Proc}
    (h : m mm = (r, mm')) : onMm m (s.allotted mm j q) = (r, s.allotted mm' j q) :=
  onMm_run (s := s.allotted mm j q) h

/-- The slot that `proc_alloc` has claimed. -/
def Proc.claimed (s : Sys) : Proc := { Proc.zero with state := .used, pid := s.nextPid }

theorem procClaim_run : procClaim j s = (.ok (), s.allotted s.mm j (Proc.claimed s)) := rfl

theorem procDrop_run {mm : Mm} {q : Proc} : procDrop j (s.allotted mm j q) =
    (.ok none, s.allotted mm j { q with state := .unused }) := by
  rw [procDrop, Prog.modify_bind, Sys.setState, Sys.allotted_setProc, Sys.allotted_proc,
    Prog.pure_apply]

/-- There are pages for a process. -/
theorem procAlloc_made {low : Nat} (hfind : procFindUnused s = some j)
    (h : Estate kt own s.mm t (p :: pt :: low :: l)) (hframe : t.frame (some j) = none)
    (hspace : t.space (some j) = none) (hroot : Rooted kt own s.mm t) :
    ∃ mm, procAlloc s = (.ok (some j), s.allotted mm j (Proc.fresh s j p pt)) ∧
      mm.satp = s.mm.satp ∧
      EstateStep kt own s.mm t (p :: pt :: low :: l) mm
        ((t.withFrame (some j) (some (p, fun _ => 0))).withSpace (some j)
          (some (pt, Space.empty low))) l := by
  obtain ⟨mm₁, halloc, hsatp₁, hstep₁⟩ := h.takeFrame hframe
  have hroot₁ : Rooted kt own mm₁ (t.withFrame (some j) (some (p, fun _ => 0))) :=
    hstep₁.shift.rooted h hroot hsatp₁ fun k pt sp hk => ⟨k, sp, hk⟩
  obtain ⟨mm₂, hcreate, hsatp₂, hstep₂, _⟩ :=
    hstep₁.estate.create hspace (hstep₁.estate.satpRoot hroot₁)
  refine ⟨mm₂, ?_, hsatp₂.trans hsatp₁, hstep₁.trans hstep₂⟩
  rw [procAlloc, Prog.get_bind, hfind, Option.elim_some, Prog.bind_ok procClaim_run,
    Prog.bind_ok (Sys.allotted_onMm halloc), Option.elim_some, Prog.modify_bind,
    Sys.allotted_setProc, Prog.bind_ok (Sys.allotted_onMm hcreate), Option.elim_some,
    Prog.modify_bind, Sys.allotted_setProc, Sys.allotted_proc, Sys.allotted_proc, Prog.pure_apply]
  rfl

/-- There are no pages for a process. -/
theorem procAlloc_full (hfind : procFindUnused s = some j) (h : Estate kt own s.mm t l)
    (hframe : t.frame (some j) = none) (hshort : l.length < 3) :
    ∃ mm l' q, procAlloc s = (.ok none, s.allotted mm j q) ∧ q.state = .unused ∧
      mm.satp = s.mm.satp ∧ EstateStep kt own s.mm t l mm t l' := by
  cases l with
  | nil =>
      refine ⟨s.mm, [], { Proc.claimed s with state := .unused }, ?_, rfl, rfl, .refl h⟩
      rw [procAlloc, Prog.get_bind, hfind, Option.elim_some, Prog.bind_ok procClaim_run,
        Prog.bind_ok (Sys.allotted_onMm (kalloc_nil h.free)), Option.elim_none, procDrop_run]
  | cons p l =>
      obtain ⟨mm₁, halloc, hsatp₁, hstep₁⟩ := h.takeFrame hframe
      let v : Option (Nat × (Nat → UInt8)) := some (p, fun _ => 0)
      -- the page table fails, and the trapframe is given back
      have hback : ∀ mm₂ l', uvmCreate mm₁ = (.ok none, mm₂) → mm₂.satp = mm₁.satp →
          EstateStep kt own mm₁ (t.withFrame (some j) v) l mm₂ (t.withFrame (some j) v) l' →
          ∃ mm l' q, procAlloc s = (.ok none, s.allotted mm j q) ∧ q.state = .unused ∧
            mm.satp = s.mm.satp ∧ EstateStep kt own s.mm t (p :: l) mm t l' := by
        intro mm₂ l₂ hcreate hsatp₂ hstep₂
        obtain ⟨mm₃, hfree, hsatp₃, hstep₃, _⟩ :=
          hstep₂.estate.dropFrame (t.withFrame_self (k := some j) v)
        rw [Tenants.withFrame_back hframe] at hstep₃
        let q := { Proc.claimed s with kstack := s.image.kstacks + j * kstackSize, tf := p }
        refine ⟨mm₃, p :: l₂, { q with state := .unused }, ?_, rfl,
          (hsatp₃.trans hsatp₂).trans hsatp₁, (hstep₁.trans hstep₂).trans hstep₃⟩
        rw [procAlloc, Prog.get_bind, hfind, Option.elim_some, Prog.bind_ok procClaim_run,
          Prog.bind_ok (Sys.allotted_onMm halloc), Option.elim_some, Prog.modify_bind,
          Sys.allotted_setProc, Prog.bind_ok (Sys.allotted_onMm hcreate), Option.elim_none,
          Prog.bind_ok (Sys.allotted_onMm hfree), procDrop_run, Sys.allotted_proc]
        rfl
      cases l with
      | nil => exact hback mm₁ [] (uvmCreate_nil hstep₁.estate.free) rfl (.refl hstep₁.estate)
      | cons q l =>
          obtain rfl : l = [] := List.eq_nil_of_length_eq_zero (by simp at hshort; omega)
          obtain ⟨mm₂, hcreate, hfree, hmem, hsatp⟩ := uvmCreate_single hstep₁.estate.free
          refine hback mm₂ [q] hcreate hsatp ?_
          exact hstep₁.estate.inFree hfree (fun _ => Iff.rfl) fun x hx => hmem x (hx q (by simp))

end Alloc

section Fork

/-- The pages that `proc_fork` copies for a process of size `sz`: those below its break, and
those of its stack. -/
def Forks (sz n : Nat) : Prop :=
  n * pageSize < sz ∨ userStackBase ≤ n * pageSize ∧ n * pageSize < userStackTop

/-- The address space of a child: copies of these pages of its parent, and nothing else. -/
structure SpaceForked (src sp : Space) (sz : Nat) : Prop where
  copied : ∀ n u, Forks sz n → src.page n = some u →
    ∃ pa, sp.page n = some ⟨pa, u.perm, u.bytes⟩
  absent : ∀ n, Forks sz n → src.page n = none → sp.page n = none
  outside : ∀ n, ¬ Forks sz n → sp.page n = none

variable {m m' m'' : Mm} {ps sz : Nat} {src sp' : Space}

/-- Both ranges in turn make up the address space of the child. -/
theorem SpaceForked.of_copied {low k : Nat} {sp₁ : Space} (hk : k = (sz + 4095) / 4096)
    (h : PagesCopied src (.empty low) sp₁ 0 k) (h' : PagesCopied src sp₁ sp 4992 128) :
    SpaceForked src sp sz := by
  have hforks : ∀ n, Forks sz n ↔ n < k ∨ 4992 ≤ n ∧ n < 4992 + 128 := by
    intro n
    unfold Forks userStackBase userStackTop userLimit userStackSize pageSize
    omega
  have hempty : ∀ n, (Space.empty low).page n = none := fun n => rfl
  refine ⟨fun n u hn hu => ?_, fun n hn hnone => ?_, fun n hn => ?_⟩
  · by_cases hstack : 4992 ≤ n ∧ n < 4992 + 128
    · exact h'.inside n u hstack.1 hstack.2 hu
    · rw [h'.outside n hstack]
      exact h.inside n u (Nat.zero_le n) (by rw [hforks] at hn; omega) hu
  · have hfirst : sp₁.page n = none := by
      by_cases hlow : n < k
      · rw [h.absent n (Nat.zero_le n) (by omega) hnone, hempty]
      · rw [h.outside n (by omega), hempty]
    by_cases hstack : 4992 ≤ n ∧ n < 4992 + 128
    · rw [h'.absent n hstack.1 hstack.2 hnone, hfirst]
    · rw [h'.outside n hstack, hfirst]
  · rw [hforks] at hn
    rw [h'.outside n (by omega), h.outside n (by omega), hempty]

/-- `uvm_copy` and `uvm_copy_range` in `proc_fork`. -/
theorem forkCopies_spec {low : Nat} (h : Held kt m pt (.empty low) l)
    (hsrc : Beside kt m ps src pt (.empty low) l) (hsz : sz ≤ userLimit) :
    ∃ r m' sp l', (uvmCopy ps pt sz >>= fun _ =>
        uvmCopyRange ps pt userStackBase userStackTop) m = (r, m') ∧
      SpaceStep kt m pt (.empty low) l m' sp l' ∧
      (r = .ok () ∧ SpaceForked src sp sz ∨ r = .err .nomem) := by
  have hcount : (sz - 0 + pageSize - 1) / pageSize = (sz + 4095) / 4096 := by
    unfold pageSize
    omega
  have hle : 0 + (sz + 4095) / 4096 ≤ 5120 := by
    unfold userLimit at hsz
    omega
  have hrange : uvmCopyRange ps pt userStackBase userStackTop =
      Prog.forCount (fun n => uvmCopyPage ps pt (n * pageSize)) 128 4992 := by
    have hfirst : pgRoundDown userStackBase / pageSize = 4992 := by decide
    have hnumber : (userStackTop - pgRoundDown userStackBase + pageSize - 1) / pageSize = 128 := by
      decide
    rw [uvmCopyRange, if_neg (by decide), uvmCopyLoop, hnumber, hfirst]
  obtain ⟨r, m₁, sp₁, l₁, hrun, hstep, hends⟩ := uvmCopyPages_spec h hsrc hle
  have hfirst : uvmCopy ps pt sz m = (r, m₁) := by
    rw [uvmCopy, uvmCopyLoop, hcount]
    exact hrun
  rcases hends with ⟨rfl, hcopied⟩ | rfl
  · obtain ⟨r, m₂, sp₂, l₂, hrun', hstep', hends'⟩ :=
      uvmCopyPages_spec (n := 4992) hstep.held (hstep.beside hsrc fun p hp => h.isPage hp)
        (show 4992 + 128 ≤ 5120 by decide)
    refine ⟨r, m₂, sp₂, l₂, ?_, hstep.trans hstep', ?_⟩
    · rw [Prog.bind_ok hfirst, hrange, hrun']
    · rcases hends' with ⟨hr, hcopied'⟩ | hr
      · exact Or.inl ⟨hr, .of_copied rfl hcopied hcopied'⟩
      · exact Or.inr hr
  · exact ⟨.err .nomem, m₁, sp₁, l₁, Prog.bind_err hfirst _, hstep, Or.inr rfl⟩

theorem Sys.allotted_of_ne {mm : Mm} {q : Proc} (h : k ≠ j) :
    (s.allotted mm j q).procs k = s.procs k :=
  Function.update_of_ne h ..

/-- The child gets its pages, or it gives back what it has. -/
theorem forkSpace_spec {mm : Mm} {q : Proc} {low : Nat} {b : Nat → UInt8} (hij : i ≠ j)
    (h : Estate kt own mm t l) (hkt : IsPage kt)
    (hi : t.space (some i) = some ((s.procs i).pagetable, src))
    (hj : t.space (some j) = some (q.pagetable, .empty low))
    (hframe : t.frame (some j) = some (q.tf, b)) (hsz : (s.procs i).sz ≤ userLimit) :
    ∃ mm' l', mm'.satp = mm.satp ∧
      ((∃ sp, forkSpace i j (s.allotted mm j q) = (.ok (), s.allotted mm' j q) ∧
          EstateStep kt own mm t l mm' (t.withSpace (some j) (some (q.pagetable, sp))) l' ∧
          SpaceForked src sp (s.procs i).sz) ∨
        (forkSpace i j (s.allotted mm j q) =
            (.err .nomem, s.allotted mm' j { q with state := .unused }) ∧
          EstateStep kt own mm t l mm'
            ((t.withSpace (some j) none).withFrame (some j) none) l')) := by
  have hne : some i ≠ some j := fun heq => hij (Option.some.inj heq)
  obtain ⟨r, mm₁, sp, l₁, hrun, hstep, hends⟩ :=
    forkCopies_spec (h.held hj) (h.beside hne hi hj) hsz
  have hunfold : forkSpace i j (s.allotted mm j q) = Prog.onErr
      (onMm do
        uvmCopy (s.procs i).pagetable q.pagetable (s.procs i).sz
        uvmCopyRange (s.procs i).pagetable q.pagetable userStackBase userStackTop)
      (fun _ => do
        onMm (uvmFree q.pagetable)
        onMm (kfree q.tf)
        Prog.modify fun s => s.setState j .unused
        Prog.fail .nomem) (s.allotted mm j q) := by
    rw [forkSpace, Prog.get_bind, Sys.allotted_of_ne hij, Sys.allotted_proc]
  have halter := h.alter hj hstep
  rcases hends with ⟨rfl, hforked⟩ | rfl
  · refine ⟨mm₁, l₁, hstep.satp, Or.inl ⟨sp, ?_, halter, hforked⟩⟩
    rw [hunfold, Prog.onErr_ok (Sys.allotted_onMm hrun)]
  · obtain ⟨mm₂, l₂, hfree, hsatp₂, hstep₂, _⟩ :=
      halter.estate.vacate (t.withSpace_self (k := some j) (some (q.pagetable, sp))) hkt
    rw [Tenants.withSpace_twice] at hstep₂
    obtain ⟨mm₃, hkfree, hsatp₃, hstep₃, _⟩ := hstep₂.estate.dropFrame (k := some j) hframe
    refine ⟨mm₃, q.tf :: l₂, (hsatp₃.trans hsatp₂).trans hstep.satp, Or.inr ⟨?_, ?_⟩⟩
    · rw [hunfold, Prog.onErr_err (Sys.allotted_onMm hrun),
        Prog.bind_ok (Sys.allotted_onMm hfree), Prog.bind_ok (Sys.allotted_onMm hkfree),
        Prog.modify_bind, Sys.setState, Sys.allotted_setProc, Sys.allotted_proc, Prog.fail_apply]
    · exact (halter.trans hstep₂).trans hstep₃

/-- The trapframe of the child: that of the system call, with the result 0. -/
theorem forkTrapframe_spec (tf : Nat) {mm : Mm} {b : Nat → UInt8} (h : Estate kt own mm t l)
    (hframe : t.frame (some j) = some (p, b)) :
    ∃ mm' b', forkTrapframe p tf mm = (.ok (), mm') ∧ mm'.satp = mm.satp ∧
      EstateStep kt own mm t l mm' (t.withFrame (some j) (some (p, b'))) l ∧
      ∀ x, x < 264 → b' x = if 176 ≤ x ∧ x < 184 then 0 else mm.mem (tf + x) := by
  obtain ⟨mm', hmm'⟩ : ∃ mm' : Mm, mm' = { mm with
      mem := put64 (overlay mm.mem p 264 fun i => mm.mem (tf + i)) (p + 176) 0 } := ⟨_, rfl⟩
  have hmem : mm'.mem = put64 (overlay mm.mem p 264 fun i => mm.mem (tf + i)) (p + 176) 0 := by
    rw [hmm']
  refine ⟨mm', fun i => mm'.mem (p + i), hmm' ▸ rfl, by rw [hmm'], ?_, fun x hx => ?_⟩
  · refine h.writeFrame hframe (by rw [hmm']) fun x hx => ?_
    unfold InPage at hx
    rw [hmem, put64_of_apart (by omega), overlay_of_not_mem (by omega)]
  · show mm'.mem (p + x) = _
    rw [hmem]
    by_cases ha0 : 176 ≤ x ∧ x < 184
    · rw [if_pos ha0, put64, overlay_of_mem (by omega)]
      rw [← UInt8.toNat_inj, byteOf_toNat, Nat.zero_div, Nat.zero_mod]
      rfl
    · rw [if_neg ha0, put64_of_apart (by omega), overlay_of_mem (by omega),
        Nat.add_sub_cancel_left]

theorem exists_three {α : Type} {l : List α} (h : ¬ l.length < 3) :
    ∃ a b c l', l = a :: b :: c :: l' := by
  rcases l with _ | ⟨a, _ | ⟨b, _ | ⟨c, l⟩⟩⟩
  · exact absurd (Nat.zero_lt_succ 2) h
  · exact absurd (Nat.lt_of_sub_pos (by simp)) h
  · exact absurd (Nat.lt_of_sub_pos (by simp)) h
  · exact ⟨a, b, c, l, rfl⟩

/-- How `proc_fork` of the process in slot `i` ends. -/
inductive ForkEnds (s : Sys) (t : Tenants (Option Nat)) (i tf : Nat) :
    Outcome Errno Int → Sys → Tenants (Option Nat) → Prop
  | child {s' : Sys} {j p pt : Nat} {b : Nat → UInt8} {src sp : Space}
      (hslot : procFindUnused s = some j)
      (hready : (s'.procs j).state = .runnable) (hparent : (s'.procs j).parent = some i)
      (hsrc : t.space (some i) = some ((s.procs i).pagetable, src))
      (hforked : SpaceForked src sp (s.procs i).sz) (hsz : (s'.procs j).sz = (s.procs i).sz)
      (htf : ∀ x, x < 264 → b x = if 176 ≤ x ∧ x < 184 then 0 else s.mm.mem (tf + x)) :
      ForkEnds s t i tf (.ok s.nextPid) s'
        ((t.withFrame (some j) (some (p, b))).withSpace (some j) (some (pt, sp)))
  | failed {s' : Sys} : ForkEnds s t i tf (.err .nomem) s' t

theorem OnlyFiles.trans {s'' : Sys} (h : OnlyFiles s s') (h' : OnlyFiles s' s'') :
    OnlyFiles s s'' where
  mm := h'.mm.trans h.mm
  current := h'.current.trans h.current
  nextPid := h'.nextPid.trans h.nextPid
  image := h'.image.trans h.image
  sstatus := h'.sstatus.trans h.sstatus
  proc k := by
    obtain ⟨ofile, hk⟩ := h.proc k
    obtain ⟨ofile', hk'⟩ := h'.proc k
    rw [hk] at hk'
    exact ⟨ofile', hk'⟩

/-- The stores of `proc_fork` behind those to memory. -/
theorem forkTail_run (q : Proc) (mm : Mm) :
    ∃ s' cwd ofile, (do
        Prog.modify fun s => s.setProc j { s.procs j with parent := some i }
        Prog.forCount (forkFile i j) nofile 0
        Prog.modify fun s =>
          s.setProc j { s.procs j with cwd := (s.procs i).cwd, state := .runnable }
        let s ← Prog.get
        pure (s.procs j).pid : SysM Int) (s.allotted mm j q) = (.ok q.pid, s') ∧
      s'.mm = mm ∧ s'.image = s.image ∧
      s'.procs j =
        { q with parent := some i, ofile := ofile, cwd := cwd, state := .runnable } ∧
      ∀ k, k ≠ j → ∃ ofile, s'.procs k = { s.procs k with ofile := ofile } := by
  obtain ⟨s₂, hrun, hfiles⟩ := Prog.forCount_inv (forkFile i j)
    (fun _ => OnlyFiles (s.allotted mm j { q with parent := some i })) nofile 0 _ (.refl _)
    fun fd v _ _ hv => by
      obtain ⟨v', hrun, hsame⟩ := forkFile_onlyFiles i j fd v
      exact ⟨v', hrun, hv.trans hsame⟩
  obtain ⟨ofile, hj⟩ := hfiles.proc j
  rw [Sys.allotted_proc] at hj
  refine ⟨s₂.setProc j { s₂.procs j with cwd := (s₂.procs i).cwd, state := .runnable },
    (s₂.procs i).cwd, ofile, ?_, hfiles.mm, hfiles.image, ?_, fun k hk => ?_⟩
  · rw [Prog.modify_bind, Sys.allotted_setProc, Sys.allotted_proc, Prog.bind_ok hrun,
      Prog.modify_bind, Prog.get_bind, Prog.pure_apply, Sys.setProc_self, hj]
  · rw [Sys.setProc_self, hj]
  · obtain ⟨ofile, hk'⟩ := hfiles.proc k
    rw [Sys.allotted_of_ne hk] at hk'
    exact ⟨ofile, (Sys.setProc_of_ne s₂ hk _).trans hk'⟩

/-- `proc_fork` keeps every page accounted for, and copies the address space and the trapframe
of the process; when it fails, it changes nobody's. -/
theorem procFork_housed {tf : Nat} (h : Housed kt own s t l) (hkt : IsPage kt)
    (hcur : s.current = some i) (hused : (s.procs i).state ≠ .unused)
    (hroot : Rooted kt own s.mm t) (htf : tf ≠ 0) (hown : ∀ x, x < 264 → own (tf + x)) :
    ∃ r s' t' l', procFork tf s = (r, s') ∧ Housed kt own s' t' l' ∧
      EstateStep kt own s.mm t l s'.mm t' l' ∧ s'.mm.satp = s.mm.satp ∧ s'.image = s.image ∧
      ForkEnds s t i tf r s' t' := by
  have hcurrent : procCurrent .inval s = (.ok i, s) := by
    unfold procCurrent
    rw [hcur]
  cases hfind : procFindUnused s with
  | none =>
      refine ⟨.err .nomem, s, t, l, ?_, h, .refl h.estate, rfl, rfl, .failed⟩
      have halloc : procAlloc s = (.ok none, s) := by
        rw [procAlloc, Prog.get_bind, hfind, Option.elim_none, Prog.pure_apply]
      rw [procFork, Prog.bind_ok hcurrent, Prog.bind_ok halloc, Option.elim_none, Prog.fail_apply]
  | some j =>
      have hunused : (s.procs j).state = .unused := (procFindUnused_some hfind).2
      have hij : i ≠ j := by
        rintro rfl
        exact hused hunused
      have hne : some i ≠ some j := fun heq => hij (Option.some.inj heq)
      obtain ⟨hframe, hspace⟩ := h.vacant hunused
      obtain ⟨_, ⟨src, hsrc⟩, hsz, _⟩ := h.tenant hused
      by_cases hshort : l.length < 3
      · obtain ⟨mm, l', q, hrun, hq, hsatp, hstep⟩ := procAlloc_full hfind h.estate hframe hshort
        refine ⟨.err .nomem, s.allotted mm j q, t, l', ?_, ?_, hstep, hsatp, rfl, .failed⟩
        · rw [procFork, Prog.bind_ok hcurrent, Prog.bind_ok hrun, Option.elim_none,
            Prog.fail_apply]
        · exact h.setSlot hstep.estate (fun _ _ => rfl) (fun _ _ => rfl) (.vacant hq hframe hspace)
            rfl rfl rfl
      obtain ⟨p, pt, low, l, rfl⟩ := exists_three hshort
      obtain ⟨mm₁, halloc, hsatp₁, hstep₁⟩ := procAlloc_made hfind h.estate hframe hspace hroot
      obtain ⟨mm₂, l₂, hsatp₂, hends⟩ := forkSpace_spec (s := s) (q := Proc.fresh s j p pt) hij
        hstep₁.estate hkt ((Tenants.withSpace_of_ne hne _).trans hsrc)
        (Tenants.withSpace_self _) (Tenants.withFrame_self _) hsz
      have hsatp := hsatp₂.trans hsatp₁
      rcases hends with ⟨sp, hspaces, hstep₂, hforked⟩ | ⟨hspaces, hstep₂⟩
      · rw [Tenants.withSpace_twice] at hstep₂
        obtain ⟨mm₃, b, hcopy, hsatp₃, hstep₃, hbytes⟩ :=
          forkTrapframe_spec tf hstep₂.estate (Tenants.withFrame_self (k := some j) _)
        rw [Tenants.withSpace_withFrame, Tenants.withFrame_twice] at hstep₃
        obtain ⟨s', cwd, ofile, htail, hmm, himage, hchild, hothers⟩ :=
          forkTail_run (s := s) (i := i) (j := j)
            { Proc.fresh s j p pt with sz := (s.procs i).sz } mm₃
        have hstep := (hstep₁.trans hstep₂).trans hstep₃
        refine ⟨.ok s.nextPid, s', _, l₂, ?_, ?_, hmm ▸ hstep, ?_, himage, .child hfind ?_ ?_ hsrc
          hforked ?_ fun x hx => ?_⟩
        · rw [procFork, Prog.bind_ok hcurrent, Prog.bind_ok halloc, Option.elim_some,
            Prog.bind_ok hspaces, Prog.modify_bind, Sys.allotted_setProc, Sys.allotted_proc,
            Sys.allotted_of_ne hij, Prog.get_bind, Sys.allotted_proc, Sys.allotted_of_ne hij,
            if_neg htf]
          exact (Prog.bind_ok (Sys.allotted_onMm hcopy) _).trans htail
        · have hslot : Housed kt own
              (s.allotted mm₃ j { Proc.fresh s j p pt with sz := (s.procs i).sz }) _ l₂ :=
            h.setSlot (q := { Proc.fresh s j p pt with sz := (s.procs i).sz }) hstep.estate
              (fun k hk => Tenants.withFrame_of_ne hk _)
              (fun k hk => Tenants.withSpace_of_ne hk _)
              (.tenant (fun h => by cases h) (Tenants.withFrame_self _) (Tenants.withSpace_self _)
                hsz rfl) rfl rfl rfl
          refine hslot.congr hmm himage fun k => ?_
          by_cases hk : k = j
          · subst hk
            rw [hchild, Sys.allotted_proc]
            exact Or.inr ⟨fun h => (by cases h), fun h => (by cases h), rfl, rfl, rfl, rfl⟩
          · obtain ⟨ofile, hofile⟩ := hothers k hk
            rw [hofile, Sys.allotted_of_ne hk]
            by_cases hfree : (s.procs k).state = .unused
            · exact Or.inl ⟨hfree, hfree⟩
            · exact Or.inr ⟨hfree, hfree, rfl, rfl, rfl, rfl⟩
        · rw [hmm]
          exact hsatp₃.trans hsatp
        · rw [hchild]
        · rw [hchild]
        · rw [hchild]
        · rw [hbytes x hx, (hstep₁.trans hstep₂).kept h.estate (hown x hx)]
      · rw [Tenants.withSpace_twice, Tenants.withBoth_back hframe hspace] at hstep₂
        have hstep := hstep₁.trans hstep₂
        refine ⟨.err .nomem, s.allotted mm₂ j { Proc.fresh s j p pt with state := .unused }, t, l₂,
          ?_, ?_, hstep, hsatp, rfl, .failed⟩
        · rw [procFork, Prog.bind_ok hcurrent, Prog.bind_ok halloc, Option.elim_some,
            Prog.bind_err hspaces]
        · exact h.setSlot hstep.estate (fun _ _ => rfl) (fun _ _ => rfl)
            (.vacant rfl hframe hspace) rfl rfl rfl

end Fork

end OsAgentLab
