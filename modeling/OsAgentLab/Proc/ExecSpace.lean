/-
The address space that `proc_exec` builds for a new program: `elf_load`, the stack, and the
arguments.
-/
import OsAgentLab.Proc.ArgStack
import OsAgentLab.Proc.HousedCalls
import OsAgentLab.Proc.ReadTransfer

namespace OsAgentLab

section Files

/-- What lookups and reads make of the file system. -/
inductive Browse (k : Kernel) : Kernel → Prop
  | refl : Browse k k
  | lookup {k' k'' : Kernel} {cwd : Option Nat} {path : CName} {r : Outcome Errno (Option Nat)} :
      Browse k k' → vfsLookupAt cwd path k' = (r, k'') → Browse k k''
  | read {k' k'' : Kernel} {vn : Option Nat} {len off : Nat}
      {r : Outcome Errno (Int × List UInt8)} :
      Browse k k' → vfsRead vn len off k' = (r, k'') → Browse k k''

theorem Browse.trans {k k' k'' : Kernel} (h : Browse k k') (h' : Browse k' k'') : Browse k k'' := by
  induction h' with
  | refl => exact h
  | lookup _ hrun ih => exact .lookup ih hrun
  | read _ hrun ih => exact .read ih hrun

/-- A read of the file `vn` may find these bytes at `off`. -/
def FoundAt (k : Kernel) (vn off : Nat) (bytes : List UInt8) : Prop :=
  ∃ k' k'', Browse k k' ∧
    vfsRead (some vn) bytes.length off k' = (.ok ((bytes.length : Int), bytes), k'')

/-- The `PT_LOAD` headers that `elf_load` may find in a file. -/
def LoadHeader (k : Kernel) (vn : Nat) (ph : Phdr) : Prop :=
  ∃ head bytes i, FoundAt k vn 0 head ∧ head.length = 64 ∧ (ehdrOf (bufOf head)).Recognised ∧
    i < (ehdrOf (bufOf head)).phnum ∧
    FoundAt k vn (u64 ((ehdrOf (bufOf head)).phoff + i * (ehdrOf (bufOf head)).phentsize)) bytes ∧
    bytes.length = 56 ∧ ph = phdrOf (bufOf bytes) ∧ ph.type = ptLoad

/-- No file has a segment that wraps around the end of the address space.  `elf_load` takes
such a segment for one that ends below `USER_LIMIT`. -/
def SoundFiles (k : Kernel) : Prop :=
  ∀ vn ph, LoadHeader k vn ph → ph.vaddr + ph.memsz < 18446744073709551616

/-- The entry address in the header of an executable. -/
def EntryPoint (k : Kernel) (vn entry : Nat) : Prop :=
  ∃ head, FoundAt k vn 0 head ∧ head.length = 64 ∧ (ehdrOf (bufOf head)).Recognised ∧
    entry = (ehdrOf (bufOf head)).entry

theorem EntryPoint.lt {k : Kernel} {vn entry : Nat} (h : EntryPoint k vn entry) :
    entry < 18446744073709551616 := by
  obtain ⟨head, _, _, _, rfl⟩ := h
  exact le64_lt _ _

theorem FoundAt.of_browse {k k' : Kernel} {vn off : Nat} {bytes : List UInt8} (h : Browse k k')
    (hfound : FoundAt k' vn off bytes) : FoundAt k vn off bytes := by
  obtain ⟨k₁, k₂, hbrowse, hrun⟩ := hfound
  exact ⟨k₁, k₂, h.trans hbrowse, hrun⟩

theorem EntryPoint.of_browse {k k' : Kernel} {vn entry : Nat} (h : Browse k k')
    (hentry : EntryPoint k' vn entry) : EntryPoint k vn entry := by
  obtain ⟨head, hhead, hrest⟩ := hentry
  exact ⟨head, hhead.of_browse h, hrest⟩

theorem SoundFiles.browse {k k' : Kernel} (h : SoundFiles k) (hbrowse : Browse k k') :
    SoundFiles k' := by
  rintro vn ph ⟨head, bytes, i, hhead, hlen, hrec, hi, hbytes, hrest⟩
  exact h vn ph ⟨head, bytes, i, hhead.of_browse hbrowse, hlen, hrec, hi, hbytes.of_browse hbrowse,
    hrest⟩

end Files

variable {kt : Nat} {own : Nat → Prop} {s u : Sys} {t t' : Tenants (Option Nat)}
  {l l' : List Nat} {i newpt vn : Nat} {α : Type}

section Building

/-- Between two steps of `proc_exec`: from memory `m₀` on, the tenant `none` built an address
space with the property `Φ`. -/
def Building (kt : Nat) (own : Nat → Prop) (m₀ : Mm) (t : Tenants (Option Nat)) (l : List Nat)
    (newpt : Nat) (Φ : Space → Prop) (m : Mm) : Prop :=
  ∃ sp l', Φ sp ∧ EstateStep kt own m₀ t l m (t.withSpace none (some (newpt, sp))) l' ∧
    m.satp = m₀.satp

/-- `proc_exec` gives up on the address space; pages may be lost. -/
def Abandoned (kt : Nat) (own : Nat → Prop) (m₀ : Mm) (t : Tenants (Option Nat)) (l : List Nat)
    (newpt : Nat) (m : Mm) : Prop :=
  ∃ sp l', EstateShift kt own m₀ t l m (t.withSpace none (some (newpt, sp))) l' ∧
    m.satp = m₀.satp

variable {m₀ m m' : Mm} {Φ Ψ : Space → Prop} {sp sp' : Space}

theorem Building.abandoned (h : Building kt own m₀ t l newpt Φ m) :
    Abandoned kt own m₀ t l newpt m := by
  obtain ⟨sp, l', _, hstep, hsatp⟩ := h
  exact ⟨sp, l', hstep.shift, hsatp⟩

theorem Building.mono (h : Building kt own m₀ t l newpt Φ m) (himp : ∀ sp, Φ sp → Ψ sp) :
    Building kt own m₀ t l newpt Ψ m := by
  obtain ⟨sp, l', hsp, hstep, hsatp⟩ := h
  exact ⟨sp, l', himp sp hsp, hstep, hsatp⟩

/-- A step of the address space that is built. -/
theorem EstateStep.build {l₁ : List Nat}
    (h : EstateStep kt own m₀ t l m (t.withSpace none (some (newpt, sp))) l')
    (hstep : SpaceStep kt m newpt sp l' m' sp' l₁) :
    EstateStep kt own m₀ t l m' (t.withSpace none (some (newpt, sp'))) l₁ := by
  have halter := h.estate.alter (Tenants.withSpace_self _) hstep
  rw [Tenants.withSpace_twice] at halter
  exact h.trans halter

/-- Whatever changes only the address space that is built. -/
theorem Building.triple {f : Vm α} {Ψ : α → Space → Prop}
    (h : ∀ m sp l, Φ sp → Held kt m newpt sp l →
      ∃ r m' sp' l', f m = (r, m') ∧ SpaceStep kt m newpt sp l m' sp' l' ∧
        ((∃ a, r = .ok a ∧ Ψ a sp') ∨ ∃ e, r = .err e)) :
    Prog.Triple (Building kt own m₀ t l newpt Φ) f (fun a => Building kt own m₀ t l newpt (Ψ a))
      (fun _ => Abandoned kt own m₀ t l newpt) (Abandoned kt own m₀ t l newpt) := by
  rintro m ⟨sp, l₁, hsp, hstep, hsatp⟩
  obtain ⟨r, m', sp', l₂, hrun, hspace, hends⟩ :=
    h m sp l₁ hsp (hstep.estate.held (Tenants.withSpace_self _))
  have hbuild := hstep.build hspace
  have hsatp' := hspace.satp.trans hsatp
  rw [hrun]
  rcases hends with ⟨a, rfl, ha⟩ | ⟨e, rfl⟩
  · exact ⟨sp', l₂, ha, hbuild, hsatp'⟩
  · exact ⟨sp', l₂, hbuild.shift, hsatp'⟩

/-- The kernel while `proc_exec` works on memory: files are only looked up and read. -/
structure Working (s : Sys) (P : Mm → Prop) (u : Sys) : Prop where
  mem : P u.mm
  files : Browse s.fs u.fs
  same : u = { s with fs := u.fs, mm := u.mm }

theorem Working.mono {P Q : Mm → Prop} (h : Working s P u) (himp : ∀ m, P m → Q m) :
    Working s Q u :=
  ⟨himp _ h.mem, h.files, h.same⟩

/-- Work on memory. -/
theorem Working.onMm {f : Vm α} {P C : Mm → Prop} {Q : α → Mm → Prop}
    (h : Prog.Triple P f Q (fun _ => C) C) :
    Prog.Triple (Working s P) (onMm f) (fun a => Working s (Q a)) (fun _ => Working s C)
      (Working s C) := by
  have hput : ∀ {P : Mm → Prop} {u : Sys} {m : Mm}, u = { s with fs := u.fs, mm := u.mm } →
      Browse s.fs u.fs → P m → Working s P { u with mm := m } := by
    intro P u m hsame hfiles hm
    refine ⟨hm, hfiles, ?_⟩
    rw [hsame]
  refine Prog.Triple.zoom fun u hu m hm => ?_
  subst hm
  have hends := h u.mm hu.mem
  split at hends
  all_goals exact hput hu.same hu.files hends

/-- Work on files. -/
theorem Working.onFs {f : Kern α} {P : Mm → Prop}
    (h : ∀ k r k', f k = (r, k') → Browse k k') :
    Prog.Triple (Working s P) (onFs f)
      (fun a u => Working s P u ∧ ∃ k, Browse s.fs k ∧ f k = (.ok a, u.fs))
      (fun _ => Working s P) (Working s P) := by
  have hput : ∀ {u : Sys} {r : Outcome Errno α} {k : Kernel}, Working s P u → f u.fs = (r, k) →
      Working s P { u with fs := k } := by
    intro u r k hu hrun
    refine ⟨hu.mem, hu.files.trans (h _ _ _ hrun), ?_⟩
    rw [hu.same]
  refine Prog.Triple.zoom fun u hu k hk => ?_
  subst hk
  cases hrun : f u.fs with
  | mk r k =>
      cases r with
      | ok a => exact ⟨hput hu hrun, u.fs, hu.files, hrun⟩
      | err e => exact hput hu hrun
      | fault => exact hput hu hrun
      | diverges => exact hput hu hrun

/-- `read_at` in a file. -/
theorem Working.readAt {P : Mm → Prop} {len off : Nat} (hlen : len < 2147483648) :
    Prog.Triple (Working s P) (readAt vn len off)
      (fun bytes u => Working s P u ∧ bytes.length = len ∧ FoundAt s.fs vn off bytes)
      (fun _ => Working s P) (Working s P) := by
  refine Prog.Triple.bind (Prog.Triple.orElse (Working.onFs fun k r k' => .read .refl)) fun r => ?_
  refine Prog.Triple.ite (fun hr => Prog.Triple.pure fun u hu => ?_)
    fun _ => Prog.Triple.fail fun u hu => hu.1
  obtain ⟨hwork, k, hbrowse, hrun⟩ := hu
  have hcount : r.2.length = len := by
    have hfst := (vfsRead_count hlen hrun).1
    omega
  refine ⟨hwork, hcount, k, u.fs, hbrowse, ?_⟩
  have hr' : r = ((r.2.length : Int), r.2) := Prod.ext (hr.trans (by rw [hcount])) rfl
  rw [hcount, hrun]
  exact congrArg (fun x => (Outcome.ok x, u.fs)) (by rw [← hcount]; exact hr')

end Building

section Segments

variable {m₀ : Mm}

/-- Bytes that `copyout` has stored lie below `USER_LIMIT`. -/
theorem copyout_building {va : Nat} {src : List UInt8} (hva : va ≤ userLimit)
    (hlen : src.length ≤ 512) :
    Prog.Triple (Building kt own m₀ t l newpt fun _ => True) (copyout newpt va src)
      (fun _ => Building kt own m₀ t l newpt fun _ => va + src.length ≤ userLimit)
      (fun _ => Abandoned kt own m₀ t l newpt) (Abandoned kt own m₀ t l newpt) := by
  refine Building.triple fun m sp l₁ _ hheld => ?_
  have hlow : va + src.length ≤ 0x2000000 := by
    unfold userLimit at hva
    omega
  obtain ⟨r, m', sp', hrun, hends, hstep⟩ := copyout_space hheld hlow
  refine ⟨r, m', sp', l₁, hrun, hstep, ?_⟩
  cases hends with
  | hole hk hpages hnone => exact Or.inr ⟨_, rfl⟩
  | stored hpages =>
      refine Or.inl ⟨(), rfl, ?_⟩
      by_cases hsrc : src.length = 0
      · rwa [hsrc]
      · obtain ⟨u, hu⟩ := Option.isSome_iff_exists.mp (hpages (src.length - 1) (by omega))
        have hlt := hheld.wf.page_lt hu
        unfold userLimit
        omega

/-- The copying loop of `elf_load` for a segment that starts below `USER_LIMIT`. -/
theorem elfCopySegment_building {ph : Phdr} (hva : ph.vaddr ≤ userLimit) :
    Prog.Triple (Working s (Building kt own m₀ t l newpt fun _ => True))
      (elfCopySegment newpt vn ph)
      (fun _ => Working s (Building kt own m₀ t l newpt fun _ => True))
      (fun _ => Working s (Abandoned kt own m₀ t l newpt))
      (Working s (Abandoned kt own m₀ t l newpt)) := by
  -- the bytes that were copied lie in pages below `USER_LIMIT`
  let J := fun i (u : Sys) => Working s (Building kt own m₀ t l newpt fun _ => True) u ∧
    ph.vaddr + min (512 * i) (ph.fileEnd - ph.offset) ≤ userLimit
  have hloop : Prog.Triple (J 0) (elfCopySegment newpt vn ph)
      (fun _ => J (0 + (ph.fileEnd - ph.offset + 511) / 512))
      (fun _ => Working s (Abandoned kt own m₀ t l newpt))
      (Working s (Abandoned kt own m₀ t l newpt)) := by
    refine Prog.Triple.forCount _ fun i _ hi => ?_
    refine Prog.Triple.assume (p := ph.vaddr + min (512 * i) (ph.fileEnd - ph.offset) ≤ userLimit)
      (fun hbelow => ?_) fun u hu => hu.2
    have hdone : 512 * i < ph.fileEnd - ph.offset := by omega
    rw [Nat.min_eq_left hdone.le] at hbelow
    have hread := @Working.readAt s vn (Building kt own m₀ t l newpt fun _ => True)
      (min (ph.fileEnd - ph.offset - 512 * i) 512) (ph.offset + 512 * i) (by omega)
    refine Prog.Triple.bind (hread.conseq (fun u hu => hu.1) (fun _ _ => id)
      (fun _ u hu => hu.mono fun m hm => hm.abandoned) fun u hu => hu.mono fun m hm => hm.abandoned)
      fun bytes => Prog.Triple.orElse ?_
    refine Prog.Triple.assume (p := bytes.length = min (ph.fileEnd - ph.offset - 512 * i) 512)
      (fun hbytes => ?_) fun u hu => hu.2.1
    have hva' : u64 (ph.vaddr + 512 * i) = ph.vaddr + 512 * i := by
      unfold userLimit at hbelow
      exact u64_of_lt (by omega)
    rw [hva']
    refine (Working.onMm (copyout_building hbelow (by omega))).conseq (fun u hu => hu.1)
      (fun _ u hu => ⟨hu.mono fun m hm => hm.mono fun _ _ => trivial, ?_⟩) (fun _ _ => id)
      fun _ => id
    obtain ⟨sp, l₁, hend, _⟩ := hu.mem
    omega
  refine hloop.conseq (fun u hu => ⟨hu, by simpa using hva⟩) (fun _ u hu => hu.1) (fun _ _ => id)
    fun _ => id

theorem Phdr.perm_user (ph : Phdr) : IsUserPerm ph.perm := by
  unfold Phdr.perm
  split <;> split <;> split <;> exact ⟨by decide, by decide, by decide⟩

/-- `elf_load` for one segment: it ends below `USER_LIMIT`. -/
theorem elfLoadSegment_building {ph : Phdr} {maxva : Nat}
    (hsound : ph.vaddr + ph.memsz < 18446744073709551616) (hmax : maxva ≤ userLimit) :
    Prog.Triple (Working s (Building kt own m₀ t l newpt fun _ => True))
      (elfLoadSegment newpt vn ph maxva)
      (fun n u => Working s (Building kt own m₀ t l newpt fun _ => True) u ∧ n ≤ userLimit)
      (fun _ => Working s (Abandoned kt own m₀ t l newpt))
      (Working s (Abandoned kt own m₀ t l newpt)) := by
  refine Prog.Triple.ite (fun _ => Prog.Triple.fail fun u hu => hu.mono fun m hm => hm.abandoned)
    fun hbounds => ?_
  obtain ⟨hbase, hlimit⟩ : userBase ≤ ph.vaddr ∧ ph.memEnd ≤ userLimit := by omega
  have hend : ph.memEnd = ph.vaddr + ph.memsz := u64_of_lt hsound
  have hva : ph.vaddr ≤ userLimit := by omega
  have halloc : Prog.Triple (Building kt own m₀ t l newpt fun _ => True)
      (uvmAllocLoop newpt (pgRoundDown ph.vaddr) (pgRoundUp ph.memEnd) ph.perm)
      (fun _ => Building kt own m₀ t l newpt fun _ => True)
      (fun _ => Abandoned kt own m₀ t l newpt) (Abandoned kt own m₀ t l newpt) := by
    refine Building.triple fun m sp l₁ _ hheld => ?_
    have hle : pgRoundDown ph.vaddr / pageSize +
        (pgRoundUp ph.memEnd / pageSize - pgRoundDown ph.vaddr / pageSize) ≤ 5120 := by
      unfold userLimit at hlimit hva
      unfold pgRoundUp pgRoundDown u64 pageSize
      omega
    obtain ⟨r, m', sp', l', k, hrun, hstep, _, hends⟩ :=
      uvmAllocPages_spec hheld hle ph.perm_user
    refine ⟨r, m', sp', l', hrun, hstep, ?_⟩
    rcases hends with ⟨hr, _⟩ | ⟨hr, _⟩
    · exact Or.inl ⟨(), hr, trivial⟩
    · exact Or.inr ⟨_, hr⟩
  refine Prog.Triple.bind (Working.onMm halloc) fun _ => ?_
  refine Prog.Triple.bind (elfCopySegment_building hva) fun _ => ?_
  exact Prog.Triple.pure fun u hu => ⟨hu, Nat.max_le.mpr ⟨hmax, hlimit⟩⟩

/-- `elf_load` builds a part of the address space, below `USER_LIMIT`. -/
theorem elfLoad_building (hsound : SoundFiles s.fs) :
    Prog.Triple (Working s (Building kt own m₀ t l newpt fun _ => True)) (elfLoad newpt vn)
      (fun info u => Working s (Building kt own m₀ t l newpt fun _ => True) u ∧
        EntryPoint s.fs vn info.1 ∧ info.2 ≤ userLimit)
      (fun _ => Working s (Abandoned kt own m₀ t l newpt))
      (Working s (Abandoned kt own m₀ t l newpt)) := by
  have hread : ∀ {len off}, len < 2147483648 → Prog.Triple
      (Working s (Building kt own m₀ t l newpt fun _ => True)) (readAt vn len off)
      (fun bytes u => Working s (Building kt own m₀ t l newpt fun _ => True) u ∧
        bytes.length = len ∧ FoundAt s.fs vn off bytes)
      (fun _ => Working s (Abandoned kt own m₀ t l newpt))
      (Working s (Abandoned kt own m₀ t l newpt)) := fun hlen =>
    (Working.readAt hlen).conseq (fun _ => id) (fun _ _ => id)
      (fun _ u hu => hu.mono fun m hm => hm.abandoned) fun u hu => hu.mono fun m hm => hm.abandoned
  refine Prog.Triple.bind (hread (by decide)) fun head => ?_
  refine Prog.Triple.assume (p := head.length = 64 ∧ FoundAt s.fs vn 0 head) (fun hhead => ?_)
    fun u hu => hu.2
  refine Prog.Triple.pre (Prog.Triple.ite (fun hrec => ?_) fun _ =>
    Prog.Triple.fail fun u hu => hu.mono fun m hm => hm.abandoned) fun u hu => hu.1
  refine Prog.Triple.bind (Prog.Triple.pre (Prog.Triple.foldlM
    (J := fun n u => Working s (Building kt own m₀ t l newpt fun _ => True) u ∧ n ≤ userLimit)
    _ 0 fun maxva i hi => ?_) fun u hu => ⟨hu, Nat.zero_le _⟩) fun maxva =>
    Prog.Triple.pure fun u hu => ⟨hu.1, ⟨head, hhead.2, hhead.1, hrec, rfl⟩, hu.2⟩
  refine Prog.Triple.assume (p := maxva ≤ userLimit) (fun hmax => ?_) fun u hu => hu.2
  refine Prog.Triple.bind ((hread (by decide)).pre fun u hu => hu.1) fun bytes => ?_
  refine Prog.Triple.ite (fun _ => Prog.Triple.pure fun u hu => ⟨hu.1, hmax⟩) fun htype => ?_
  refine Prog.Triple.assume (fun hsmall => (elfLoadSegment_building hsmall hmax).pre
    fun u hu => hu.1) fun u hu => ?_
  exact hsound vn _ ⟨head, bytes, i, hhead.2, hhead.1, hrec, List.mem_range.mp hi, hu.2.2, hu.2.1,
    rfl, not_not.mp htype⟩

end Segments

section Stack

variable {m₀ : Mm} {n : Nat}

/-- The stack of a program is there up to the page number `n`. -/
def StackTo (n : Nat) (sp : Space) : Prop :=
  ∀ j, 4992 ≤ j → j < n → sp.Mapped j (pteR ||| pteW ||| pteU)

theorem Space.Within.stackTo {sp sp' : Space} (h : sp.Within sp') (hstack : StackTo n sp) :
    StackTo n sp' :=
  fun j hle hlt => h j _ (hstack j hle hlt)

/-- One more page of the stack is there. -/
theorem StackTo.succ {sp : Space} {p : Nat} {bytes : Nat → UInt8} (h : StackTo n sp) :
    StackTo (n + 1) (sp.withPage n ⟨p, pteR ||| pteW ||| pteU, bytes⟩) := by
  intro j hle hlt
  by_cases hj : j = n
  · exact ⟨_, (congrArg _ hj).trans (Function.update_self ..), rfl⟩
  · obtain ⟨u, hu, hperm⟩ := h j hle (by omega)
    exact ⟨u, (Function.update_of_ne hj ..).trans hu, hperm⟩

/-- A page that `execStackPage` allocates but cannot map is lost. -/
theorem execStackPage_building (hn : n < 5120) :
    Prog.Triple (Building kt own m₀ t l newpt (StackTo n)) (execStackPage newpt (n * pageSize))
      (fun _ => Building kt own m₀ t l newpt (StackTo (n + 1)))
      (fun _ => Abandoned kt own m₀ t l newpt) (Abandoned kt own m₀ t l newpt) := by
  rintro m ⟨sp, l₁, hstack, hstep, hsatp⟩
  have hheld := hstep.estate.held (Tenants.withSpace_self _)
  cases l₁ with
  | nil =>
      rw [execStackPage, Prog.bind_ok (kalloc_nil hheld.free), Option.elim_none, Prog.fail_apply]
      exact ⟨sp, [], hstep.shift, hsatp⟩
  | cons p l₁ =>
      obtain ⟨m₁, halloc, hheld₁, hmem, hsatp₁⟩ := hheld.kalloc
      have hva : UserVa (n * pageSize) := .page hn
      have hperm : IsUserPerm (pteR ||| pteW ||| pteU) := ⟨by decide, by decide, by decide⟩
      have hbytes : ∀ i, i < 4096 → m₁.mem (p + i) = 0 := by
        intro i hi
        rw [hmem, putPage_of_mem ⟨Nat.le_add_right _ _, Nat.add_lt_add_left hi _⟩]
      have hframe : ∀ x, ¬ InPage p x → m₁.mem x = m.mem x := by
        intro x hx
        rw [hmem, putPage_of_not_mem hx]
      obtain ⟨r, m₂, sp₂, l₂, hmap, hends, hheld₂, hsatp₂, hframe₂⟩ := uvmMap_spec
        (u := ⟨p, pteR ||| pteW ||| pteU, fun _ => 0⟩) hheld₁ hva (hheld.free.page p List.mem_cons_self)
        hperm hbytes hheld.head_not_local
      have hrun : execStackPage newpt (n * pageSize) m = Prog.orElse
          (uvmMap newpt (n * pageSize) p pageSize (pteR ||| pteW ||| pteU)) .nomem m₁ := by
        rw [execStackPage, Prog.bind_ok halloc, Option.elim_some]
      rw [hrun]
      -- the page is in no list and in no address space any more
      have hlost : ∀ e, uvmMap newpt (n * pageSize) p pageSize (pteR ||| pteW ||| pteU) m₁ =
          (.err e, m₂) → Held kt m₂ newpt sp l₁ →
          (∀ x, (∀ q, LocalPage newpt sp l₁ q → ¬ InPage q x) → m₂.mem x = m₁.mem x) →
          Abandoned kt own m₀ t l newpt m₂ := by
        intro _ _ hheld₃ hframe₃
        have hlose : EstateShift kt own m (t.withSpace none (some (newpt, sp))) (p :: l₁) m₁
            (t.withSpace none (some (newpt, sp))) l₁ :=
          hstep.estate.loseFree hheld₁.free (fun q hq => List.mem_cons_of_mem p hq)
            fun x hx => hframe x (hx p List.mem_cons_self)
        have hmid : SpaceStep kt m₁ newpt sp l₁ m₂ sp l₁ :=
          ⟨hheld₃, fun _ => Iff.rfl, hframe₃, hsatp₂⟩
        have hlast := hlose.estate.alter (Tenants.withSpace_self _) hmid
        rw [Tenants.withSpace_twice] at hlast
        exact ⟨sp, l₁, (hstep.shift.trans hlose).trans hlast.shift,
          hsatp₂.trans (hsatp₁.trans hsatp)⟩
      -- the same steps as in `uvm_alloc`
      have hmapped : uvmMap newpt (n * pageSize) p pageSize (pteR ||| pteW ||| pteU) m₁ =
          (.ok (), m₂) → Building kt own m₀ t l newpt (StackTo (n + 1)) m₂ := by
        intro hmap
        obtain ⟨r, m₃, sp₃, l₃, hnew, hends₃, hspace⟩ := uvmMapNew_spec
          (u := ⟨p, pteR ||| pteW ||| pteU, fun _ => 0⟩) hheld hva hperm hheld₁ hsatp₁ hframe hbytes
        rw [uvmMapNew, Prog.onErr_ok hmap] at hnew
        obtain ⟨rfl, rfl⟩ := Prod.mk.inj hnew
        refine ⟨sp₃, l₃, ?_, hstep.build hspace, hspace.satp.trans hsatp⟩
        rw [page_number] at hends₃
        cases hends₃ with
        | mapped hpage htable => exact hstack.succ
        | @mappedTable table _ hpage htable hl =>
            have hstack' : StackTo n (sp.withTable (n / 512) table) := hstack
            exact hstack'.succ
      cases hends with
      | mapped hpage htable =>
          rw [Prog.orElse_ok hmap]
          exact hmapped hmap
      | mappedTable hpage htable hl =>
          rw [Prog.orElse_ok hmap]
          exact hmapped hmap
      | present hpage =>
          rw [Prog.orElse_err hmap]
          exact hlost _ hmap hheld₂ hframe₂
      | full hpage htable hl =>
          rw [Prog.orElse_err hmap]
          exact hlost _ hmap hheld₂ hframe₂

/-- The whole stack is there. -/
theorem execStack_building :
    Prog.Triple (Building kt own m₀ t l newpt fun _ => True) (execStack newpt)
      (fun _ => Building kt own m₀ t l newpt (StackTo 5120))
      (fun _ => Abandoned kt own m₀ t l newpt) (Abandoned kt own m₀ t l newpt) := by
  have hfirst : userStackBase / pageSize = 4992 := by decide
  have hcount : userStackSize / pageSize = 128 := by decide
  rw [execStack, hfirst, hcount]
  refine Prog.Triple.pre (Prog.Triple.forCount (J := fun n => Building kt own m₀ t l newpt (StackTo n))
    128 fun n _ hn => execStackPage_building (by omega)) fun m hm => hm.mono fun sp _ j hle hlt => ?_
  omega

/-- What `execLoad` leaves for a program with the arguments `args`. -/
structure Laden (args : List CName) (va : Nat) (sp : Space) : Prop where
  stack : StackTo 5120 sp
  args : ArgStack sp args va

variable (vn) in
/-- The address space of the new program is complete, or `proc_exec` gives up on it. -/
theorem execLoad_building (hsound : SoundFiles s.fs) (argv : List CName) :
    Prog.Triple (Working s (Building kt own m₀ t l newpt fun _ => True))
      (execLoad newpt vn argv)
      (fun r u => Working s (Building kt own m₀ t l newpt (Laden (argv.take maxArg) r.2.2)) u ∧
        EntryPoint s.fs vn r.1.1 ∧ r.1.2 ≤ userLimit ∧ r.2.1 = (argv.take maxArg).length)
      (fun _ => Working s (Abandoned kt own m₀ t l newpt))
      (Working s (Abandoned kt own m₀ t l newpt)) := by
  refine Prog.Triple.bind (elfLoad_building hsound) fun info => ?_
  refine Prog.Triple.assume (p := EntryPoint s.fs vn info.1 ∧ info.2 ≤ userLimit)
    (fun hinfo => ?_) fun u hu => hu.2
  refine Prog.Triple.bind ((Working.onMm execStack_building).pre fun u hu => hu.1) fun _ => ?_
  have hargs : Prog.Triple (Building kt own m₀ t l newpt (StackTo 5120)) (execPushArgs newpt argv)
      (fun r => Building kt own m₀ t l newpt fun sp =>
        Laden (argv.take maxArg) r.2 sp ∧ r.1 = (argv.take maxArg).length)
      (fun _ => Abandoned kt own m₀ t l newpt) (Abandoned kt own m₀ t l newpt) := by
    refine Building.triple fun m sp l₁ hstack hheld => ?_
    obtain ⟨r, m', sp', hrun, hstep, hwithin, hends⟩ := execPushArgs_spec hheld argv
    refine ⟨r, m', sp', l₁, hrun, hstep, ?_⟩
    rcases hends with ⟨va, rfl, hva⟩ | ⟨e, rfl⟩
    · exact Or.inl ⟨_, rfl, ⟨hwithin.stackTo hstack, hva⟩, rfl⟩
    · exact Or.inr ⟨e, rfl⟩
  refine Prog.Triple.bind (Working.onMm hargs) fun stack => Prog.Triple.pure fun u hu => ?_
  obtain ⟨sp, l', ⟨_, hcount⟩, _⟩ := hu.mem
  exact ⟨hu.mono fun m hm => hm.mono fun sp hsp => hsp.1, hinfo.1, hinfo.2, hcount⟩

end Stack

end OsAgentLab
