/-
From the boot of the kernel on: no page is ever lost or shared, and the memory of a process
that waits for its turn stays as it is.
-/
import OsAgentLab.Proc.Tenancy
import OsAgentLab.Vm.BootEstate

namespace OsAgentLab

namespace Run

variable {kt : Nat} {own : Nat → Prop} {r r' r₀ : Run} {t t' : Tenants (Option Nat)}
  {l l' : List Nat} {i j k va vb : Nat} {e : Event} {img : KernelImage} {bi : BootInfo}

section First

/-- The kernel when `proc_init` has returned, on the memory that the firmware reports. -/
structure Started (img : KernelImage) (bi : BootInfo) (r : Run) : Prop where
  initial : Initial r
  memory : ∃ passes s, s.freelist = 0 ∧ r.sys.mm = bootMm img bi passes s
  kstacks : kernelVirtBase ≤ r.sys.image.kstacks

/-- Before the first process all pages are free. -/
theorem Started.tenancy (h : Started img bi r) (hlinked : img.Linked) (hbi : bi.Manageable img) :
    ∃ l, Tenancy img.l1 (KernelByte img) r nobody l := by
  obtain ⟨passes, s, hlist, hmm⟩ := h.memory
  obtain ⟨htable, l, hestate⟩ := bootMm_estate hlinked hbi hlist passes
  rw [← hmm] at htable hestate
  refine ⟨l, ⟨hestate, fun k => .vacant (by rw [h.initial.procs]; rfl) rfl rfl, rfl, rfl⟩,
    h.initial.counted, fun _ => ⟨h.initial.current, htable⟩, fun i hi => ?_, fun k _ x _ => ?_⟩
  · rw [h.initial.current] at hi
    cases hi
  · exact Or.inr (Nat.le_add_right_of_le (Nat.le_add_right_of_le h.kstacks))

/-- Between two calls `proc_alloc` always returns. -/
theorem Tenancy.alloc_run (h : Tenancy kt own r t l) (hboot : r.booting = true) :
    ∃ np s', procAlloc r.sys = (.ok np, s') := by
  cases hfind : procFindUnused r.sys with
  | none =>
      refine ⟨none, r.sys, ?_⟩
      rw [procAlloc, Prog.get_bind, hfind, Option.elim_none, Prog.pure_apply]
  | some j =>
      obtain ⟨hframe, hspace⟩ := h.housed.vacant (procFindUnused_some hfind).2
      by_cases hshort : l.length < 3
      · obtain ⟨mm, l', q, hrun, _⟩ := procAlloc_full hfind h.housed.estate hframe hshort
        exact ⟨_, _, hrun⟩
      · obtain ⟨p, pt, low, l, rfl⟩ := exists_three hshort
        obtain ⟨mm, hrun, _⟩ :=
          procAlloc_made hfind h.housed.estate hframe hspace (h.rooted_booting hboot)
        exact ⟨_, _, hrun⟩

/-- `proc_alloc` makes a process when there are a slot and three pages. -/
theorem Tenancy.alloc_step (h : Tenancy kt own r t l) (hboot : r.booting = true)
    (hfind : procFindUnused r.sys = some j) (hlong : ¬ l.length < 3) :
    Step r .alloc { r with sys := (procAlloc r.sys).2 } ∧
      ((procAlloc r.sys).2.procs j).state = .used := by
  obtain ⟨p, pt, low, l, rfl⟩ := exists_three hlong
  obtain ⟨hframe, hspace⟩ := h.housed.vacant (procFindUnused_some hfind).2
  obtain ⟨mm, hrun, _⟩ :=
    procAlloc_made hfind h.housed.estate hframe hspace (h.rooted_booting hboot)
  rw [hrun]
  refine ⟨.alloc hboot hrun, ?_⟩
  rw [Sys.allotted_proc]
  rfl

/-- A kernel with 64 pages of memory. -/
def smallRun : Run :=
  { bootRun with
    sys :=
      { bootRun.sys with
        mm := bootMm smallKernel ⟨0x80000000, 0x40000000, 0, 0⟩ 64 zeroMm
        image := ⟨0xffffffff80020000, 0xffffffff80000000⟩ } }

theorem smallRun_started : Started smallKernel ⟨0x80000000, 0x40000000, 0, 0⟩ smallRun where
  initial := ⟨rfl, rfl, fun _ => rfl, fun _ => rfl, fun _ => rfl, fun _ => rfl⟩
  memory := ⟨64, zeroMm, rfl, rfl⟩
  kstacks := by decide

theorem smallKernel_manageable :
    BootInfo.Manageable smallKernel ⟨0x80000000, 0x40000000, 0, 0⟩ := by decide

theorem smallRun_tenancy :
    ∃ l, Tenancy smallKernel.l1 (KernelByte smallKernel) smallRun nobody l ∧ ¬ l.length < 3 := by
  obtain ⟨l, h⟩ := smallRun_started.tenancy smallKernel_linked smallKernel_manageable
  have hfree : FreePages smallRun.sys.mm (freedPages (pageAlignUp smallKernel.physEnd) 64) :=
    bootMm_free smallKernel_linked rfl (by decide)
  refine ⟨l, h, ?_⟩
  rw [h.housed.estate.free.unique hfree, freedPages_length]
  decide

/-- Its first process. -/
def madeRun : Run := { smallRun with sys := (procAlloc smallRun.sys).2 }

theorem smallRun_alloc : Step smallRun .alloc madeRun ∧ (madeRun.sys.procs 0).state = .used := by
  obtain ⟨l, h, hlong⟩ := smallRun_tenancy
  have hfind : procFindUnused smallRun.sys = some 0 := by decide
  have hsys : madeRun.sys = (procAlloc smallRun.sys).2 := by rw [madeRun]
  obtain ⟨hstep, hused⟩ := h.alloc_step rfl hfind hlong
  exact ⟨hstep, by rw [hsys, hused]⟩

/-- `kernel_main` makes a process ready. -/
theorem Tenancy.ready (h : Tenancy kt own r t l) (hboot : r.booting = true)
    (hused : (r.sys.procs k).state ≠ .unused) :
    Tenancy kt own { r with sys := r.sys.setState k .runnable } t l where
  housed := h.housed.setProc hused (fun h => by cases h) rfl rfl rfl rfl
  counted := by
    refine h.counted.setProc rfl (fun hstate => ?_) fun hcur => ?_
    · rcases hstate with hstate | hstate
      · cases hstate
      · cases hstate
    · rw [(h.booting hboot).1] at hcur
      cases hcur
  booting := h.booting
  seated := h.seated
  kstacks := h.kstacks

def readyRun : Run := { madeRun with sys := madeRun.sys.setState 0 .runnable }

theorem readyRun_state : (readyRun.sys.procs 0).state = .runnable := by
  rw [readyRun, Sys.setState, Sys.setProc_self]

theorem readyRun_tenancy : ∃ t l, Tenancy smallKernel.l1 (KernelByte smallKernel) readyRun t l := by
  obtain ⟨l, h, _⟩ := smallRun_tenancy
  obtain ⟨hstep, hused⟩ := smallRun_alloc
  have hsound : Sound .alloc smallRun := trivial
  obtain ⟨t', l', h', _⟩ := hstep.tenancy h smallKernel_linked.tables.kernel hsound
  have hused' : (madeRun.sys.procs 0).state ≠ .unused := by
    rw [hused]
    decide
  exact ⟨t', l', h'.ready rfl hused'⟩

end First

section Books

/-- When no slot is in use all pages are free. -/
theorem page_of_empty {s : Sys} (h : Housed kt own s t l) (hnone : ∀ k, (s.procs k).state = .unused)
    (p : Nat) : t.Page l p ↔ p ∈ l := by
  refine or_iff_left ?_
  rintro ⟨role, hp⟩
  cases role with
  | frame k =>
      obtain ⟨b, hk⟩ := hp
      cases k with
      | none =>
          rw [h.spareFrame] at hk
          cases hk
      | some k =>
          rw [(h.vacant (hnone k)).1] at hk
          cases hk
  | part k q =>
      obtain ⟨pt, sp, hk, _⟩ := hp
      cases k with
      | none =>
          rw [h.spareSpace] at hk
          cases hk
      | some k =>
          rw [(h.vacant (hnone k)).2] at hk
          cases hk

/-- Whatever the processes do, each page is free or serves one of them, and the kernel's own
bytes stay. -/
theorem steps_tenancy (hkt : IsPage kt) (h : Tenancy kt own r t l) (hrun : Steps Sound r r') :
    ∃ t' l', Tenancy kt own r' t' l' ∧ EstateShift kt own r.sys.mm t l r'.sys.mm t' l' := by
  refine Steps.invariant (P := fun r' => ∃ t' l', Tenancy kt own r' t' l' ∧
    EstateShift kt own r.sys.mm t l r'.sys.mm t' l') hrun ⟨t, l, h, .refl h.housed.estate⟩ ?_
  rintro e r₁ r₂ ⟨t₁, l₁, h₁, hshift⟩ hsound hstep
  obtain ⟨t₂, l₂, h₂, hhandled⟩ := hstep.tenancy h₁ hkt hsound
  exact ⟨t₂, l₂, h₂, hshift.trans hhandled.shift⟩

theorem smallRun_steps : Steps Sound smallRun madeRun :=
  Steps.tail (Steps.refl _) (show Sound .alloc smallRun from trivial) smallRun_alloc.1

/-- No `proc_exec` fails. -/
def Thrifty (e : Event) (r : Run) : Prop := Sound e r ∧ ¬ Lossy e r

/-- As long as no `proc_exec` fails no page gets lost: when nobody is left, the free list has
all of them again. -/
theorem pages_conserved (hkt : IsPage kt) (h : Tenancy kt own r t l)
    (hrun : Steps Thrifty r r') : ∃ t' l', Tenancy kt own r' t' l' ∧
      (∀ p, t'.Page l' p ↔ t.Page l p) ∧
        ((∀ k, (r.sys.procs k).state = .unused) → (∀ k, (r'.sys.procs k).state = .unused) →
          l'.Perm l) := by
  obtain ⟨t', l', h', hshift, hpages⟩ := Steps.invariant
    (P := fun r' => ∃ t' l', Tenancy kt own r' t' l' ∧
      EstateShift kt own r.sys.mm t l r'.sys.mm t' l' ∧ ∀ p, t.Page l p → t'.Page l' p)
    hrun ⟨t, l, h, .refl h.housed.estate, fun _ hp => hp⟩ (by
      rintro e r₁ r₂ ⟨t₁, l₁, h₁, hshift, hpages⟩ ⟨hsound, hlossy⟩ hstep
      obtain ⟨t₂, l₂, h₂, hhandled⟩ := hstep.tenancy h₁ hkt hsound
      exact ⟨t₂, l₂, h₂, hshift.trans hhandled.shift,
        fun p hp => hhandled.pages hlossy p (hpages p hp)⟩)
  have hiff : ∀ p, t'.Page l' p ↔ t.Page l p := fun p => ⟨hshift.sub p, hpages p⟩
  refine ⟨t', l', h', hiff, fun hnone hnone' => ?_⟩
  refine (List.perm_ext_iff_of_nodup h'.housed.estate.free.nodup h.housed.estate.free.nodup).mpr
    fun p => ?_
  rw [← page_of_empty h.housed hnone, ← page_of_empty h'.housed hnone', hiff]

/-- The first `proc_alloc` moves three of the free pages. -/
theorem pages_conserved_alloc : ∃ t l t' l', Tenancy smallKernel.l1 (KernelByte smallKernel) smallRun t l ∧
    Tenancy smallKernel.l1 (KernelByte smallKernel) madeRun t' l' ∧
      ∀ p, t'.Page l' p ↔ t.Page l p := by
  obtain ⟨l, h, _⟩ := smallRun_tenancy
  have hok : Thrifty .alloc smallRun := ⟨trivial, id⟩
  obtain ⟨t', l', h', hpages, _⟩ := pages_conserved smallKernel_linked.tables.kernel h
    (Steps.tail (Steps.refl _) hok smallRun_alloc.1)
  exact ⟨nobody, l, t', l', h, h', hpages⟩

end Books

section Privacy

/-- User memory of a process lies in a page that serves this process only. -/
theorem page_of_userPa {s : Sys} (h : Housed kt own s t l) (hused : (s.procs i).state ≠ .unused)
    (hva : va < userLimit) (hpa : userPa s.mm (s.procs i).pagetable va ≠ 0) :
    ∃ p, t.Has (.part (some i) (.page (va / 4096))) p ∧
      userPa s.mm (s.procs i).pagetable va = p + va % 4096 := by
  obtain ⟨_, ⟨sp, hspace⟩, _⟩ := h.tenant hused
  have hheld := h.estate.held hspace
  have hlow : LowVa va := Nat.lt_trans hva (by decide)
  cases hu : sp.page (va / 4096) with
  | none => exact absurd (userPa_none hheld hlow hu) hpa
  | some u => exact ⟨u.pa, ⟨_, sp, hspace, u, hu, rfl⟩, (userPa_page hheld hlow hu).1⟩

/-- A byte of physical memory that a process reaches. -/
structure Reaches (s : Sys) (i va pa : Nat) : Prop where
  used : (s.procs i).state ≠ .unused
  low : va < userLimit
  walk : userPa s.mm (s.procs i).pagetable va = pa
  ne : pa ≠ 0

/-- Two processes never reach the same page of memory, a process reaches a page at one place
only, and nobody reaches a byte of the kernel, a trapframe or a free page. -/
structure Private (own : Nat → Prop) (s : Sys) : Prop where
  one : ∀ i j va vb pa pb, Reaches s i va pa → Reaches s j vb pb → pa / 4096 = pb / 4096 →
    i = j ∧ va / 4096 = vb / 4096
  kernel : ∀ i va pa, Reaches s i va pa → ¬ own pa
  frame : ∀ i j va pa, Reaches s i va pa → (s.procs j).state ≠ .unused → ¬ InPage (s.procs j).tf pa
  free : ∀ i va pa l, Reaches s i va pa → FreePages s.mm l → ∀ p, p ∈ l → ¬ InPage p pa

theorem Reaches.page {s : Sys} {pa : Nat} (hreach : Reaches s i va pa) (h : Housed kt own s t l) :
    ∃ p, t.Has (.part (some i) (.page (va / 4096))) p ∧ IsPage p ∧ InPage p pa := by
  obtain ⟨hused, hva, rfl, hne⟩ := hreach
  obtain ⟨p, hp, hpa⟩ := page_of_userPa h hused hva hne
  refine ⟨p, hp, h.estate.isPage _ p hp, ?_⟩
  unfold InPage
  omega

theorem private_of_housed {s : Sys} (h : Housed kt own s t l) : Private own s where
  one i j va vb pa pb hi hj heq := by
    obtain ⟨p, hp, hpage, hin⟩ := hi.page h
    obtain ⟨q, hq, hqpage, hqin⟩ := hj.page h
    obtain rfl : p = q := by
      have haligned := hpage.aligned
      have hqaligned := hqpage.aligned
      simp only [PageAligned, InPage] at *
      omega
    have hroles := h.estate.apart hp hq
    exact ⟨Option.some.inj (Role.part.inj hroles).1, Part.page.inj (Role.part.inj hroles).2⟩
  kernel i va pa hi := by
    obtain ⟨p, hp, _, hin⟩ := hi.page h
    exact h.estate.kept p (Or.inr ⟨_, hp⟩) pa hin
  frame i j va pa hi hj hframe := by
    obtain ⟨p, hp, hpage, hin⟩ := hi.page h
    obtain ⟨⟨b, hb⟩, _⟩ := h.tenant hj
    have hq : t.Has (.frame (some j)) (s.procs j).tf := ⟨b, hb⟩
    obtain rfl := hpage.inPage_unique (h.estate.isPage _ _ hq) hin hframe
    have hroles := h.estate.apart hp hq
    cases hroles
  free i va pa l' hi hfree q hq hqin := by
    obtain ⟨p, hp, hpage, hin⟩ := hi.page h
    obtain rfl := hfree.unique h.estate.free
    obtain rfl := hpage.inPage_unique (hfree.page q hq) hin hqin
    exact h.estate.notFree _ _ hp hq

end Privacy

section Isolation

/-- Somebody else is at work. -/
def Elsewhere (k : Nat) (e : Event) (r : Run) : Prop := Sound e r ∧ e ≠ .schedule k

/-- The trapframe and the user memory of the process in slot `k` are the same. -/
structure SameMemory (s s' : Sys) (k : Nat) : Prop where
  tf : (s'.procs k).tf = (s.procs k).tf
  saved : ∀ x, x < 4096 → s'.mm.mem ((s.procs k).tf + x) = s.mm.mem ((s.procs k).tf + x)
  pagetable : (s'.procs k).pagetable = (s.procs k).pagetable
  walk : ∀ va, va < userLimit → userPa s'.mm (s.procs k).pagetable va =
    userPa s.mm (s.procs k).pagetable va
  user : ∀ va, va < userLimit → userByte s'.mm (s.procs k).pagetable va =
    userByte s.mm (s.procs k).pagetable va

theorem untouched_call {c : Call} (hready : (r.sys.procs k).state = .runnable)
    (hcur : r.sys.current ≠ some k) : ¬ Touches (.call c) r k := by
  intro htouch
  cases c with
  | fork =>
      have hunused := (procFindUnused_some htouch).2
      rw [hready] at hunused
      cases hunused
  | exec => exact hcur htouch
  | brk => exact hcur htouch
  | _ => exact htouch

/-- A process that is not current waits through a step of somebody else, which does not touch
it. -/
theorem Step.waits (hcounted : Counted r.sys none) (hok : e ≠ .schedule k) (hstep : Step r e r')
    (hready : (r.sys.procs k).state = .runnable) :
    ¬ Touches e r k ∧ (r'.sys.procs k).state = .runnable := by
  have hcur : r.sys.current ≠ some k := by
    intro hcur
    have hrunning := (hcounted.current k hcur).2
    rw [hready] at hrunning
    cases hrunning
  have hstate : ∀ {state : ProcState}, (r.sys.procs k).state = state → state ≠ .runnable →
      False := by
    rintro _ rfl hne
    exact hne hready
  constructor
  · intro htouch
    cases hstep with
    | alloc => exact hstate (procFindUnused_some htouch).2 (by decide)
    | execOn _ _ hused _ =>
        obtain rfl : k = _ := htouch
        exact hstate hused (by decide)
    | execOnFails _ _ hused _ =>
        obtain rfl : k = _ := htouch
        exact hstate hused (by decide)
    | schedule => exact htouch
    | preempt => exact htouch
    | store => exact hcur htouch
    | @call _ c _ _ _ _ _ _ => exact untouched_call hready hcur htouch
    | @trap _ c _ _ _ _ _ _ => exact untouched_call hready hcur htouch
    | exit => exact htouch
    | wait =>
        obtain ⟨_, _, hzombie⟩ := htouch
        exact hstate (waitZombie_some hzombie).2.2.2 (by decide)
    | waitYields =>
        obtain ⟨_, _, hzombie⟩ := htouch
        exact hstate (waitZombie_some hzombie).2.2.2 (by decide)
  · cases hstep.slot hcounted k with
    | same hsame _ => exact hsame.trans hready
    | claimed _ _ hbefore _ _ => exact (hstate hbefore (by decide)).elim
    | readied _ hbefore _ _ => exact (hstate hbefore (by decide)).elim
    | selected hidle hpicked _ _ _ =>
        cases hstep.current hcounted with
        | stays hsame =>
            rw [hsame, hidle] at hpicked
            cases hpicked
        | @picks i he _ hnew =>
            obtain rfl := Option.some.inj (hnew.symm.trans hpicked)
            exact absurd he hok
        | gives hbefore _ _ =>
            rw [hidle] at hbefore
            cases hbefore
    | released hbefore _ _ _ => exact absurd hbefore hcur
    | ended hbefore _ _ _ _ => exact absurd hbefore hcur
    | born _ _ _ hbefore _ _ => exact (hstate hbefore (by decide)).elim
    | reaped _ _ hbefore _ _ => exact (hstate hbefore (by decide)).elim

/-- One step of somebody else. -/
theorem Step.sameSpace (hkt : IsPage kt) (h : Tenancy kt own r t l) (hok : Elsewhere k e r)
    (hstep : Step r e r') (hready : (r.sys.procs k).state = .runnable) :
    ∃ t' l', Tenancy kt own r' t' l' ∧ t'.frame (some k) = t.frame (some k) ∧
      t'.space (some k) = t.space (some k) ∧ (r'.sys.procs k).state = .runnable := by
  obtain ⟨t', l', h', hhandled⟩ := hstep.tenancy h hkt hok.1
  obtain ⟨htouch, hready'⟩ := hstep.waits h.counted hok.2 hready
  obtain ⟨hframe, hspace⟩ := hhandled.others k htouch
  exact ⟨t', l', h', hframe, hspace, hready'⟩

/-- Equal tenancies are equal memory. -/
theorem sameMemory_of_tenants {s s' : Sys} (h : Housed kt own s t l) (h' : Housed kt own s' t' l')
    (hused : (s.procs k).state ≠ .unused) (hframe : t'.frame (some k) = t.frame (some k))
    (hspace : t'.space (some k) = t.space (some k)) : SameMemory s s' k := by
  obtain ⟨⟨b, hb⟩, ⟨sp, hsp⟩, _⟩ := h.tenant hused
  obtain ⟨⟨b', hb'⟩, ⟨sp', hsp'⟩, _⟩ := h'.tenant (used_of_space h' (hspace.trans hsp))
  obtain ⟨htf, rfl⟩ := Prod.mk.inj (Option.some.inj (hb'.symm.trans (hframe.trans hb)))
  obtain ⟨hpt, rfl⟩ := Prod.mk.inj (Option.some.inj (hsp'.symm.trans (hspace.trans hsp)))
  rw [htf] at hb'
  rw [hpt] at hsp'
  have hheld := h.estate.held hsp
  have hheld' := h'.estate.held hsp'
  have hwalk : ∀ va, va < userLimit → userPa s'.mm (s.procs k).pagetable va =
      userPa s.mm (s.procs k).pagetable va ∧ userByte s'.mm (s.procs k).pagetable va =
        userByte s.mm (s.procs k).pagetable va := by
    intro va hva
    have hlow : LowVa va := Nat.lt_trans hva (by decide)
    cases hu : sp'.page (va / 4096) with
    | none =>
        have hpa := userPa_none hheld hlow hu
        have hpa' := userPa_none hheld' hlow hu
        exact ⟨hpa'.trans hpa.symm, by rw [userByte, userByte, if_pos hpa, if_pos hpa']⟩
    | some u =>
        obtain ⟨hpa, hne⟩ := userPa_page hheld hlow hu
        obtain ⟨hpa', hne'⟩ := userPa_page hheld' hlow hu
        have hin : va % 4096 < 4096 := Nat.mod_lt _ (by decide)
        refine ⟨hpa'.trans hpa.symm, ?_⟩
        rw [userByte, userByte, if_neg hne, if_neg hne', hpa, hpa',
          hheld.space.bytes _ u hu _ hin, hheld'.space.bytes _ u hu _ hin]
  exact ⟨htf, fun x hx => (h'.estate.saved _ _ _ hb' x hx).trans (h.estate.saved _ _ _ hb x hx).symm,
    hpt, fun va hva => (hwalk va hva).1, fun va hva => (hwalk va hva).2⟩

end Isolation

end Run

end OsAgentLab
