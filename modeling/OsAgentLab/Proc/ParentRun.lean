/-
Parent links in whole runs: which process a slot names as its parent, and how the
reuse of slots breaks the link.
-/
import OsAgentLab.Proc.FileRun

namespace OsAgentLab

variable {s s' t : Sys} {i j k : Nat} {α : Type}

/-- The fields of a slot that parent links are about. -/
def Sys.link (s : Sys) (k : Nat) : Int × ProcState × Option Nat :=
  ((s.procs k).pid, (s.procs k).state, (s.procs k).parent)

/-- Between `s` and `s'` no slot has got a parent: slots in use are as they were,
and the others have none. -/
structure NoNewLink (s s' : Sys) : Prop where
  current : s'.current = s.current
  link : ∀ k, s'.link k = s.link k ∨ (s.procs k).state = .unused ∧ (s'.procs k).parent = none

section Frames

theorem Sys.link_eq (h : s'.link k = s.link k) :
    (s'.procs k).pid = (s.procs k).pid ∧ (s'.procs k).state = (s.procs k).state ∧
      (s'.procs k).parent = (s.procs k).parent :=
  ⟨congrArg Prod.fst h, congrArg (fun l => l.2.1) h, congrArg (fun l => l.2.2) h⟩

theorem SameProcs.noNewLink (h : SameProcs s s') : NoNewLink s s' where
  current := h.current
  link k := Or.inl (by rw [Sys.link, Sys.link, h.pid, h.state, h.parent])

theorem OnlyFiles.link (h : OnlyFiles s s') (k : Nat) : s'.link k = s.link k := by
  obtain ⟨ofile, heq⟩ := h.proc k
  rw [Sys.link, Sys.link, heq]

theorem OnlyFiles.noNewLink (h : OnlyFiles s s') : NoNewLink s s' where
  current := h.current
  link k := Or.inl (h.link k)

namespace NoNewLink

theorem refl (s : Sys) : NoNewLink s s := ⟨rfl, fun _ => Or.inl rfl⟩

theorem withMm (h : NoNewLink s s') (mm : Mm) : NoNewLink s { s' with mm := mm } :=
  ⟨h.current, h.link⟩

/-- A store into a slot that was unused gives it no parent. -/
theorem setProc (h : NoNewLink s s') (hunused : (s.procs j).state = .unused) {p : Proc}
    (hparent : p.parent = none) : NoNewLink s (s'.setProc j p) where
  current := h.current
  link k := by
    by_cases hk : k = j
    · subst hk
      exact Or.inr ⟨hunused, by rw [Sys.setProc_self, hparent]⟩
    · rw [Sys.link, Sys.setProc_of_ne s' hk]
      exact h.link k

end NoNewLink

/-- Slot `j` was taken by `proc_alloc` since `s`. -/
structure Taken (s : Sys) (j : Nat) (s' : Sys) : Prop where
  links : NoNewLink s s'
  find : procFindUnused s = some j
  parent : (s'.procs j).parent = none

theorem Taken.unused (h : Taken s j s') : (s.procs j).state = .unused :=
  (procFindUnused_some h.find).2

theorem onMm_taken (m : Vm α) : Prog.Keeps (Taken s j) (onMm m) :=
  Prog.Keeps.zoom fun mm _ h => ⟨h.links.withMm mm, h.find, h.parent⟩

theorem Taken.setProc (h : Taken s j s') {p : Proc} (hparent : p.parent = none) :
    Taken s j (s'.setProc j p) :=
  ⟨h.links.setProc h.unused hparent, h.find, by rw [Sys.setProc_self, hparent]⟩

theorem Taken.modify {f : Sys → Proc} (hparent : ∀ s, (f s).parent = (s.procs j).parent)
    {E : Errno → Sys → Prop} {C : Sys → Prop} :
    Prog.Triple (Taken s j) (Prog.modify fun s => s.setProc j (f s)) (fun _ => Taken s j) E C :=
  Prog.Triple.modify fun t h => h.setProc ((hparent t).trans h.parent)

end Frames

section Fork

theorem procDrop_links (j : Nat) :
    Prog.Triple (Taken s j) (procDrop j) (fun r s' => NoNewLink s s' ∧ r = none)
      (fun _ => NoNewLink s) (NoNewLink s) :=
  Prog.Triple.bind (R := fun _ => NoNewLink s)
    (Prog.Triple.modify fun t h => (h.setProc (p := { t.procs j with state := .unused })
      h.parent).links)
    fun _ => Prog.Triple.pure fun _ h => ⟨h, rfl⟩

theorem procAlloc_links :
    Prog.Triple (fun t => t = s) procAlloc
      (fun r s' => NoNewLink s s' ∧ ∀ j, r = some j → Taken s j s') (fun _ => NoNewLink s)
      (NoNewLink s) := by
  have hmm : ∀ (α : Type) (j : Nat) (m : Vm α), Prog.Triple (Taken s j) (onMm m)
      (fun _ => Taken s j) (fun _ => NoNewLink s) (NoNewLink s) := fun α j m =>
    (onMm_taken m).conseq (fun _ => id) (fun _ _ => id) (fun _ _ h => h.links) fun _ h => h.links
  have hdrop : ∀ j, Prog.Triple (Taken s j) (procDrop j)
      (fun r s' => NoNewLink s s' ∧ ∀ j, r = some j → Taken s j s') (fun _ => NoNewLink s)
      (NoNewLink s) := fun j =>
    (procDrop_links j).post fun r t ⟨h, hr⟩ => ⟨h, fun k hk => by simp [hr] at hk⟩
  refine Prog.Triple.get_bind fun t ht => Prog.Triple.pre (P := fun u => u = s) ?_
    fun u hu => hu.trans ht
  subst ht
  refine Prog.Triple.elim (Prog.Triple.pure fun u hu => ?_) fun j hj => ?_
  · exact hu ▸ ⟨.refl u, fun j hj => by cases hj⟩
  refine Prog.Triple.bind (R := fun _ => Taken t j) (Prog.Triple.modify fun u hu => ?_) fun _ => ?_
  · subst hu
    have hunused := (procFindUnused_some hj).2
    have hset := (NoNewLink.refl u).setProc
      (p := { Proc.zero with state := .used, pid := u.nextPid }) hunused rfl
    exact ⟨⟨hset.current, hset.link⟩, hj, by simp [Proc.zero]⟩
  refine Prog.Triple.bind (hmm _ j _) fun tf => Prog.Triple.elim (hdrop j) fun tf _ => ?_
  refine Prog.Triple.bind (Taken.modify fun _ => by rfl) fun _ => ?_
  refine Prog.Triple.bind (hmm _ j _) fun pt => Prog.Triple.elim ?_ fun pt _ => ?_
  · exact Prog.Triple.bind (hmm _ j _) fun _ => hdrop j
  refine Prog.Triple.bind (Taken.modify fun _ => by rfl) fun _ => ?_
  exact Prog.Triple.pure fun u h => ⟨h.links, fun k hk => Option.some.inj hk ▸ h⟩

/-- Sharing a descriptor changes open files only. -/
theorem forkFile_onlyFiles (i j fd : Nat) (t : Sys) :
    ∃ t', forkFile i j fd t = (.ok (), t') ∧ OnlyFiles t t' := by
  cases hf : (t.procs i).ofile fd with
  | none =>
      refine ⟨t, ?_, .refl t⟩
      rw [forkFile, Prog.get_bind, hf, Option.elim_none, Prog.pure_apply]
  | some f =>
      have hsame : OnlyFiles t ((fileDup f >>= fun _ => storeOfile j fd (some f)) t).2 :=
        (Prog.Keeps.bind (fileDup_onlyFiles f) fun _ => storeOfile_onlyFiles j fd (some f)) t
          (.refl t)
      refine ⟨_, ?_, hsame⟩
      rw [forkFile, Prog.get_bind, hf, Option.elim_some]
      rfl

/-- Slot `j` holds a child of the process in slot `i`, and nothing else changed. -/
structure Forked (s : Sys) (i j : Nat) (s' : Sys) : Prop where
  find : procFindUnused s = some j
  maker : s.current = some i
  current : s'.current = s.current
  parent : (s'.procs j).parent = some i
  link : ∀ k, k ≠ j → s'.link k = s.link k ∨
    (s.procs k).state = .unused ∧ (s'.procs k).parent = none

theorem Forked.onlyFiles (h : Forked s i j s') (hsame : OnlyFiles s' t) : Forked s i j t where
  find := h.find
  maker := h.maker
  current := hsame.current.trans h.current
  parent := (Sys.link_eq (hsame.link j)).2.2.trans h.parent
  link k hk := by
    rw [hsame.link, (Sys.link_eq (hsame.link k)).2.2]
    exact h.link k hk

theorem Forked.setProc (h : Forked s i j s') {p : Proc} (hparent : p.parent = some i) :
    Forked s i j (s'.setProc j p) where
  find := h.find
  maker := h.maker
  current := h.current
  parent := by rw [Sys.setProc_self, hparent]
  link k hk := by
    rw [Sys.link, Sys.setProc_of_ne s' hk]
    exact h.link k hk

theorem procFork_links (tf : Nat) :
    Prog.Triple (fun t => t = s) (procFork tf) (fun _ s' => ∃ i j, Forked s i j s')
      (fun _ => NoNewLink s) (NoNewLink s) := by
  refine Prog.Triple.bind (R := fun i t => t = s ∧ s.current = some i) ?_ fun i => ?_
  · intro t ht
    subst ht
    unfold procCurrent
    cases hcur : t.current with
    | none => exact .refl t
    | some i => exact ⟨rfl, rfl⟩
  refine Prog.Triple.assume (p := s.current = some i) (fun hcur => ?_) fun t h => h.2
  refine Prog.Triple.bind (procAlloc_links.pre fun t h => h.1) fun np => ?_
  refine Prog.Triple.elim (Prog.Triple.fail fun t h => h.1) fun j hj => ?_
  subst hj
  have hmm : ∀ m : Vm Unit, Prog.Triple (Taken s j) (onMm m) (fun _ => Taken s j)
      (fun _ => NoNewLink s) (NoNewLink s) := fun m =>
    (onMm_taken m).conseq (fun _ => id) (fun _ _ => id) (fun _ _ h => h.links) fun _ h => h.links
  refine Prog.Triple.bind (R := fun _ => Taken s j) (Prog.Triple.pre (P := Taken s j) ?_
    fun t h => h.2 j rfl) fun _ => ?_
  · refine Prog.Triple.get_bind fun t ht => Prog.Triple.pre ?_ fun u hu => hu ▸ ht
    refine Prog.Triple.onErr (F := fun _ => Taken s j) ?_ fun e => ?_
    · exact (onMm_taken _).conseq (fun _ => id) (fun _ _ => id) (fun _ _ => id) fun _ h => h.links
    refine Prog.Triple.bind (hmm _) fun _ => Prog.Triple.bind (hmm _) fun _ => ?_
    exact Prog.Triple.bind (Taken.modify fun _ => by rfl) fun _ => Prog.Triple.fail fun t h => h.links
  refine Prog.Triple.bind (Taken.modify fun _ => by rfl) fun _ => ?_
  refine Prog.Triple.get_bind fun t ht => Prog.Triple.pre ?_ fun u hu => hu ▸ ht
  refine Prog.Triple.bind (hmm _) fun _ => ?_
  refine Prog.Triple.bind (R := fun _ => Forked s i j) (Prog.Triple.modify fun u h => ?_) fun _ => ?_
  · have hset : ∀ k, k ≠ j → (u.setProc j { u.procs j with parent := some i }).procs k =
        u.procs k := fun k hk => u.setProc_of_ne hk _
    refine ⟨h.find, hcur, h.links.current, by rw [Sys.setProc_self], fun k hk => ?_⟩
    rw [Sys.link, hset k hk]
    exact h.links.link k
  refine Prog.Triple.bind (R := fun _ => Forked s i j) (Prog.Triple.of_ok fun u h => ?_) fun _ => ?_
  · obtain ⟨u', hrun, hforked⟩ := Prog.forCount_inv (forkFile i j) (fun _ => Forked s i j) nofile 0 u
      h fun fd v _ _ hv => by
        obtain ⟨v', hrun, hsame⟩ := forkFile_onlyFiles i j fd v
        exact ⟨v', hrun, hv.onlyFiles hsame⟩
    exact ⟨(), u', hrun, hforked⟩
  refine Prog.Triple.bind (R := fun _ => Forked s i j) (Prog.Triple.modify fun u h => ?_) fun _ => ?_
  · exact h.setProc h.parent
  · exact Prog.Triple.get_bind fun u hu => Prog.Triple.pure fun v hv => ⟨i, j, hv ▸ hu⟩

end Fork

section Wait

/-- Slot `c` of a zombie was given back, and nothing else changed. -/
structure Reaped (s : Sys) (c : Nat) (s' : Sys) : Prop where
  state : (s'.procs c).state = .unused
  parent : (s'.procs c).parent = none
  link : ∀ k, k ≠ c → s'.link k = s.link k

/-- What one pass of `proc_wait` does to the links. -/
def Waited (s : Sys) (i : Nat) (pid : Int) (r : Option (Int × Int)) (s' : Sys) : Prop :=
  match r with
  | none => ∀ k, s'.link k = s.link k
  | some v => ∃ c, waitZombie s i pid = some c ∧ v.1 = (s.procs c).pid ∧ Reaped s c s'

theorem procWaitPass_links (i : Nat) (pid : Int) :
    Prog.Triple (fun t => t = s) (procWaitPass i pid) (Waited s i pid)
      (fun _ s' => ∀ k, s'.link k = s.link k) (fun s' => ∀ k, s'.link k = s.link k) := by
  refine Prog.Triple.get_bind fun t ht => Prog.Triple.pre (P := fun u => u = s) ?_
    fun u hu => hu.trans ht
  subst ht
  refine Prog.Triple.elim (Prog.Triple.ite (fun _ => Prog.Triple.pure fun u hu => ?_)
    fun _ => Prog.Triple.fail fun u hu => ?_) fun c hc => ?_
  · exact fun k => by rw [hu]
  · exact fun k => by rw [hu]
  let Same := fun s' : Sys => ∀ k, s'.link k = t.link k
  have hmm : ∀ m : Vm Unit, Prog.Triple Same (onMm m) (fun _ => Same) (fun _ => Same) Same :=
    fun m => Prog.Keeps.zoom fun mm (u : Sys) (h : Same u) => (h : Same { u with mm := mm })
  refine Prog.Triple.bind (R := fun v s' => v.1 = (t.procs c).pid ∧ Reaped t c s') ?_ fun v =>
    Prog.Triple.pure fun u h => ⟨c, hc, h⟩
  refine Prog.Triple.get_bind fun u hu => Prog.Triple.pre (P := Same) ?_ fun v hv => ?_
  · subst hu
    refine Prog.Triple.bind (hmm _) fun _ => Prog.Triple.bind (hmm _) fun _ => ?_
    refine Prog.Triple.bind (R := fun _ => Reaped u c) (Prog.Triple.modify fun v h => ?_)
      fun _ => Prog.Triple.pure fun v h => ⟨rfl, h⟩
    refine ⟨by rw [Sys.setProc_self], by rw [Sys.setProc_self], fun k hk => ?_⟩
    rw [Sys.link, Sys.setProc_of_ne v hk]
    exact h k
  · subst hu
    exact fun k => by rw [hv]

end Wait

namespace Run

variable {r r' : Run}

/-- Every slot in use that names a parent names a slot in use, which still holds
the process that made it. -/
def Linked (r : Run) : Prop :=
  ∀ c p, (r.sys.procs c).state ≠ .unused → (r.sys.procs c).parent = some p →
    (r.sys.procs p).state ≠ .unused ∧ r.maker c = some (p, (r.sys.procs p).pid)

/-- Slots in use stay in use and keep pid and parent, and the others get none. -/
def Calm (s s' : Sys) : Prop :=
  ∀ k, ((s'.procs k).pid = (s.procs k).pid ∧ (s'.procs k).parent = (s.procs k).parent ∧
      ((s'.procs k).state = .unused ↔ (s.procs k).state = .unused)) ∨
    (s.procs k).state = .unused ∧ (s'.procs k).parent = none

theorem calm_of_link (h : s'.link k = s.link k) :
    (s'.procs k).pid = (s.procs k).pid ∧ (s'.procs k).parent = (s.procs k).parent ∧
      ((s'.procs k).state = .unused ↔ (s.procs k).state = .unused) := by
  obtain ⟨hpid, hstate, hparent⟩ := Sys.link_eq h
  exact ⟨hpid, hparent, by rw [hstate]⟩

theorem calm_of_noNewLink (h : NoNewLink s s') : Calm s s' := fun k =>
  (h.link k).imp_left calm_of_link

theorem Calm.trans (h : Calm s s') (h' : Calm s' t) : Calm s t := by
  intro k
  rcases h k with ⟨hpid, hparent, hstate⟩ | ⟨hunused, hnone⟩
  · rcases h' k with ⟨hpid', hparent', hstate'⟩ | ⟨hunused', hnone'⟩
    · exact Or.inl ⟨hpid'.trans hpid, hparent'.trans hparent, hstate'.trans hstate⟩
    · exact Or.inr ⟨hstate.mp hunused', hnone'⟩
  · rcases h' k with ⟨_, hparent', _⟩ | ⟨_, hnone'⟩
    · exact Or.inr ⟨hunused, hparent'.trans hnone⟩
    · exact Or.inr ⟨hunused, hnone'⟩

/-- A process changes between two states of a slot in use. -/
theorem Calm.setProc (h : Calm s s') {p : Proc} (hpid : p.pid = (s'.procs i).pid)
    (hparent : p.parent = (s'.procs i).parent)
    (hlive : p.state ≠ .unused) (hlive' : (s'.procs i).state ≠ .unused) :
    Calm s (s'.setProc i p) := by
  intro k
  by_cases hk : k = i
  · subst hk
    rw [Sys.setProc_self, hpid, hparent, iff_of_false hlive hlive']
    exact h k
  · rw [Sys.setProc_of_ne s' hk]
    exact h k

theorem Calm.yield (h : Calm s s') (i : Nat) : Calm s (s'.unrun i) := by
  unfold Sys.unrun
  split
  · rename_i hrunning
    exact h.setProc rfl rfl (fun h => by cases h) (by simp [hrunning])
  · exact h

theorem procExit_calm {status : Int} (hrunning : (s.procs i).state = .running)
    (hrun : procExit i status s = (.ok (), s')) : Calm s s' := by
  have hclose : Prog.Keeps (OnlyFiles s) (Prog.forCount (closeIfOpen i) nofile 0) :=
    Prog.Keeps.forCount (fun fd => closeIfOpen_onlyFiles i fd) _ _
  have hexit : Prog.Triple (OnlyFiles s) (procExit i status) (fun _ => Calm s) (fun _ _ => True)
      (fun _ => True) := by
    refine Prog.Triple.bind (hclose.conseq (fun _ => id) (fun _ _ => id) (fun _ _ _ => trivial)
      fun _ _ => trivial) fun _ => ?_
    refine Prog.Triple.bind (R := fun _ => Calm s) (Prog.Triple.modify fun t h => ?_) fun _ => ?_
    · have hlive : (t.procs i).state ≠ .unused := by simp [(Sys.link_eq (h.link i)).2.1, hrunning]
      exact (calm_of_noNewLink h.noNewLink).setProc rfl rfl (fun h => by cases h) hlive
    · exact Prog.Triple.modify fun t h => h.yield i
  exact hexit.ok (.refl s) hrun

/-- Links stay right while nobody forks and no slot is freed. -/
theorem Linked.calm (h : Linked r) (hcalm : Calm r.sys r'.sys) (hmaker : r'.maker = r.maker) :
    Linked r' := by
  intro c p hc hp
  rcases hcalm c with ⟨_, hparent, hstate⟩ | ⟨_, hnone⟩
  · obtain ⟨hlive, hmade⟩ := h c p (fun hunused => hc (hstate.mpr hunused)) (hparent ▸ hp)
    rcases hcalm p with ⟨hpid, _, hstate'⟩ | ⟨hunused, _⟩
    · rw [hmaker, hpid]
      exact ⟨fun hunused => hlive (hstate'.mp hunused), hmade⟩
    · exact absurd hunused hlive
  · rw [hnone] at hp
    cases hp

/-- A fork makes one more link. -/
theorem Linked.forked (h : Linked r) (hforked : Forked r.sys i j r'.sys)
    (hrunning : (r.sys.procs i).state = .running)
    (hmaker : r'.maker = Function.update r.maker j (some (i, (r.sys.procs i).pid))) :
    Linked r' := by
  have hunused := (procFindUnused_some hforked.find).2
  have hlive : ∀ p, (r.sys.procs p).state ≠ .unused → r'.sys.link p = r.sys.link p := by
    intro p hp
    have hpj : p ≠ j := by
      rintro rfl
      exact hp hunused
    rcases hforked.link p hpj with hlink | ⟨hfree, _⟩
    · exact hlink
    · exact absurd hfree hp
  intro c p hc hp
  by_cases hcj : c = j
  · subst hcj
    rw [hforked.parent] at hp
    obtain rfl := Option.some.inj hp
    have hi : (r.sys.procs i).state ≠ .unused := by
      rw [hrunning]
      decide
    obtain ⟨hpid, hstate, _⟩ := Sys.link_eq (hlive i hi)
    rw [hstate, hpid, hmaker, Function.update_self]
    exact ⟨hi, rfl⟩
  · rcases hforked.link c hcj with hlink | ⟨_, hnone⟩
    · obtain ⟨_, hstate, hparent⟩ := Sys.link_eq hlink
      obtain ⟨hp', hmade⟩ := h c p (hstate ▸ hc) (hparent ▸ hp)
      obtain ⟨hpid, hstate', _⟩ := Sys.link_eq (hlive p hp')
      rw [hstate', hpid, hmaker, Function.update_of_ne hcj]
      exact ⟨hp', hmade⟩
    · rw [hnone] at hp
      cases hp

/-- A slot that nobody names as parent is given back. -/
theorem Linked.reaped {c : Nat} (h : Linked r) (hreaped : Reaped r.sys c r'.sys)
    (horphan : ∀ d, (r.sys.procs d).state ≠ .unused → (r.sys.procs d).parent ≠ some c)
    (hmaker : r'.maker = r.maker) : Linked r' := by
  intro d p hd hp
  have hdc : d ≠ c := by
    rintro rfl
    exact hd hreaped.state
  obtain ⟨_, hstate, hparent⟩ := Sys.link_eq (hreaped.link d hdc)
  rw [hstate] at hd
  rw [hparent] at hp
  have hpc : p ≠ c := by
    rintro rfl
    exact horphan d hd hp
  obtain ⟨hpid, hstate', _⟩ := Sys.link_eq (hreaped.link p hpc)
  rw [hstate', hpid, hmaker]
  exact h d p hd hp

/-- `proc_wait` does not give back a zombie that a slot in use still names as its
parent. -/
def NoOrphan (e : Event) (r : Run) : Prop :=
  ∀ pid i c, e = .wait pid → r.sys.current = some i → waitZombie r.sys i pid = some c →
    ∀ d, (r.sys.procs d).state ≠ .unused → (r.sys.procs d).parent ≠ some c

/-- Calls other than `proc_fork` make no links. -/
theorem call_noNewLink {c : Call} (hc : c ≠ .fork) {v : Outcome Errno Int}
    (hrun : c.run s = (v, s')) : NoNewLink s s' := by
  have hfiles : ∀ m : SysM Int, Prog.Keeps (OnlyFiles s) m → m s = (v, s') → NoNewLink s s' :=
    fun m h hm => (h.returns (.refl s) hm).noNewLink
  have hprocs : ∀ m : SysM Int, Prog.Keeps (SameProcs s) m → m s = (v, s') → NoNewLink s s' :=
    fun m h hm => (h.returns (.refl s) hm).noNewLink
  cases c with
  | openat dirfd path flags => exact hfiles _ (sysOpenat_onlyFiles _ _ _) hrun
  | close fd => exact hfiles _ (sysClose_onlyFiles fd) hrun
  | dup fd => exact hfiles _ (sysDup_onlyFiles fd) hrun
  | dup3 oldfd newfd => exact hfiles _ (sysDup3_onlyFiles oldfd newfd) hrun
  | fork => exact absurd rfl hc
  | exec path argv => exact hprocs _ (procExec_sameProcs path argv) hrun
  | brk addr => exact hprocs _ (sysBrk_sameProcs addr) hrun

/-- What a step does to the links: slots in use keep them, a fork makes one more, and
`proc_wait` gives back the slot of a zombie. -/
inductive LinkStep (r : Run) (e : Event) (r' : Run) : Prop
  | calm (h : Calm r.sys r'.sys) (hmaker : r'.maker = r.maker)
  | forked {i j : Nat} (hcur : r.sys.current = some i) (h : Forked r.sys i j r'.sys)
      (hmaker : r'.maker = Function.update r.maker j (some (i, (r.sys.procs i).pid)))
  | reaped {i c : Nat} {pid : Int} (he : e = .wait pid) (hcur : r.sys.current = some i)
      (hzombie : waitZombie r.sys i pid = some c) (h : Reaped r.sys c r'.sys)
      (hmaker : r'.maker = r.maker) (hwaiting : r'.waiting i = none)

theorem LinkStep.noNewLink {e : Event} (h : NoNewLink r.sys r'.sys) (hmaker : r'.maker = r.maker) :
    LinkStep r e r' :=
  .calm (calm_of_noNewLink h) hmaker

theorem Step.links {e : Event} (hcounted : Counted r.sys none) (hstep : Step r e r') :
    LinkStep r e r' := by
  cases hstep with
  | alloc hboot hrun => exact .noNewLink (procAlloc_links.ok rfl hrun).1 rfl
  | @execOn i _ _ _ s' hboot hlt hused hrun =>
      have hsame := (procExecCommon_sameProcs _ _ _).ok (.refl r.sys) hrun
      have hlive : (s'.procs i).state ≠ .unused := by simp [hsame.state, hused]
      exact .calm ((calm_of_noNewLink hsame.noNewLink).setProc rfl rfl (fun h => by cases h) hlive)
        rfl
  | execOnFails hboot hlt hused hrun =>
      have hsame := (procExecCommon_sameProcs _ _ _).err (.refl r.sys) hrun
      exact .noNewLink hsame.noNewLink rfl
  | @schedule i hlt hidle hready =>
      have hlive : (r.sys.procs i).state ≠ .unused := by simp [hready]
      exact .calm ((calm_of_noNewLink (.refl r.sys)).setProc (i := i) rfl rfl
        (fun h => by cases h) hlive) rfl
  | @preempt i s' hcur hwait hrun =>
      obtain rfl : { r.sys.unrun i with current := none } = s' := (Prod.mk.inj hrun).2
      exact .calm ((calm_of_noNewLink (.refl r.sys)).yield i) rfl
  | store hcur hwait hva hwalk hpa => exact .noNewLink ((NoNewLink.refl r.sys).withMm _) rfl
  | @call i c v s' hcur hwait hrun hreturns =>
      by_cases hc : c = .fork
      · subst hc
        rcases hreturns with hok | herr
        · cases v with
          | ok v =>
              obtain ⟨i', j, hforked⟩ := (procFork_links (callFrame r.sys)).ok rfl hrun
              obtain rfl : i' = i := Option.some.inj (hforked.maker.symm.trans hcur)
              refine .forked hcur hforked ?_
              simp only [Call.maker, hcur, hforked.find]
          | _ => cases hok
        · cases v with
          | err e => exact .noNewLink ((procFork_links (callFrame r.sys)).err rfl hrun) rfl
          | _ => cases herr
      · refine .noNewLink (call_noNewLink hc hrun) ?_
        cases c <;> first | rfl | exact absurd rfl hc
  | @trap i c s' s'' hcur hwait hrun hexit =>
      have hlinks : NoNewLink r.sys s' := by
        by_cases hc : c = .fork
        · subst hc
          exact (procFork_links (callFrame r.sys)).fault rfl hrun
        · exact call_noNewLink hc hrun
      have hrunning := (hcounted.current i hcur).2
      have hstill : (s'.procs i).state = .running := by
        rcases hlinks.link i with hlink | ⟨hunused, _⟩
        · rw [(Sys.link_eq hlink).2.1, hrunning]
        · rw [hrunning] at hunused
          cases hunused
      exact .calm ((calm_of_noNewLink hlinks).trans (procExit_calm hstill hexit)) rfl
  | @exit i status s' hcur hwait hrun =>
      exact .calm (procExit_calm (hcounted.current i hcur).2 hrun) rfl
  | @wait i pid v s' hcur hwait hrun hreturns hdone =>
      rcases hreturns with hval | herr
      · cases v with
        | ok v =>
            cases v with
            | none => exact absurd rfl hdone
            | some v =>
                obtain ⟨c, hzombie, _, hreaped⟩ := (procWaitPass_links i pid).ok rfl hrun
                exact .reaped rfl hcur hzombie hreaped rfl (Function.update_self ..)
        | _ => cases hval
      · cases v with
        | err e =>
            have hlinks := (procWaitPass_links i pid).err rfl hrun
            exact .calm (fun k => Or.inl (calm_of_link (hlinks k))) rfl
        | _ => cases herr
  | @waitYields i pid s' s'' hcur hwait hrun hyield =>
      have hlinks := (procWaitPass_links i pid).ok rfl hrun
      obtain rfl : { s'.unrun i with current := none } = s'' := (Prod.mk.inj hyield).2
      have hcalm : Calm r.sys s' := fun k => Or.inl (calm_of_link (hlinks k))
      exact .calm (hcalm.yield i) rfl

/-- One step keeps the links right unless it gives back the slot of a parent. -/
theorem Step.linked {e : Event} (hcounted : Counted r.sys none) (h : Linked r) (hok : NoOrphan e r)
    (hstep : Step r e r') : Linked r' := by
  cases hstep.links hcounted with
  | calm hcalm hmaker => exact h.calm hcalm hmaker
  | forked hcur hforked hmaker => exact h.forked hforked (hcounted.current _ hcur).2 hmaker
  | reaped he hcur hzombie hreaped hmaker _ =>
      exact h.reaped hreaped (hok _ _ _ he hcur hzombie) hmaker

theorem Initial.linked (h : Initial r) : Linked r := by
  intro c p _ hp
  rw [h.procs] at hp
  cases hp

/-- In runs in which no slot is given back that a process still names as its
parent, every parent link leads to the process that forked; so `proc_wait`
delivers children of the caller only, and `sys_getppid` the pid of its maker. -/
theorem parent_link_of_noOrphan (hfirst : Initial r) (hrun : Steps NoOrphan r r') :
    (∀ c p, (r'.sys.procs c).state ≠ .unused → (r'.sys.procs c).parent = some p →
      (r'.sys.procs p).state ≠ .unused ∧ r'.maker c = some (p, (r'.sys.procs p).pid)) ∧
    (∀ i pid v s', procWaitPass i pid r'.sys = (.ok (some v), s') →
      ∃ c, v.1 = (r'.sys.procs c).pid ∧ r'.maker c = some (i, (r'.sys.procs i).pid)) ∧
    ∀ i v s', r'.sys.current = some i → sysGetppid r'.sys = (.ok v, s') →
      v = 0 ∨ ∃ p, (r'.sys.procs p).state ≠ .unused ∧ v = (r'.sys.procs p).pid ∧
        r'.maker i = some (p, v) := by
  have hinv : Counted r'.sys none ∧ Linked r' :=
    Steps.invariant (P := fun r => Counted r.sys none ∧ Linked r) hrun
      ⟨hfirst.counted, hfirst.linked⟩ fun _ _ _ h hok hstep =>
        ⟨hstep.counted h.1, hstep.linked h.1 h.2 hok⟩
  refine ⟨hinv.2, fun i pid v s' hwait => ?_, fun i v s' hcur hppid => ?_⟩
  · obtain ⟨c, hzombie, hpid, _⟩ := (procWaitPass_links i pid).ok rfl hwait
    obtain ⟨_, hparent, _, hstate⟩ := waitZombie_some hzombie
    exact ⟨c, hpid, (hinv.2 c i (by simp [hstate]) hparent).2⟩
  · have hlive : (r'.sys.procs i).state ≠ .unused := by simp [(hinv.1.current i hcur).2]
    have hcurrent : procCurrent .inval r'.sys = (.ok i, r'.sys) := by
      unfold procCurrent
      rw [hcur]
    rw [sysGetppid, Prog.bind_ok hcurrent, Prog.get_bind] at hppid
    cases hp : (r'.sys.procs i).parent with
    | none =>
        rw [hp, Option.elim_none, Prog.pure_apply] at hppid
        exact Or.inl (Outcome.ok.inj (Prod.mk.inj hppid).1).symm
    | some p =>
        rw [hp, Option.elim_some, Prog.pure_apply] at hppid
        obtain rfl := Outcome.ok.inj (Prod.mk.inj hppid).1
        obtain ⟨hlive', hmade⟩ := hinv.2 i p hlive hp
        exact Or.inr ⟨p, hlive', rfl, hmade⟩

end Run

end OsAgentLab
