/-
The life of a slot of the process table: what one step of the kernel does to the state and
to the parent of a slot.
-/
import OsAgentLab.Proc.ParentRun
import OsAgentLab.Vm.FreeSpec

namespace OsAgentLab

variable {s s' t : Sys} {i j k : Nat}

section Memory

/-- The program delivers a value from every state. -/
def Delivers {σ ε α : Type} (m : Prog σ ε α) : Prop :=
  Prog.Triple (fun _ => True) m (fun _ _ => True) (fun _ _ => False) (fun _ => False)

/-- The program delivers a value or returns an error, from every state. -/
def ComesBack {σ ε α : Type} (m : Prog σ ε α) : Prop :=
  Prog.Triple (fun _ => True) m (fun _ _ => True) (fun _ _ => True) (fun _ => False)

variable {α : Type}

theorem Delivers.comesBack {m : Vm α} (h : Delivers m) : ComesBack m :=
  h.conseq (fun _ => id) (fun _ _ => id) (fun _ _ => False.elim) fun _ => id

theorem delivers_run {m : Vm α} (h : Delivers m) (s : Mm) : ∃ a s', m s = (.ok a, s') := by
  have hpost := h s trivial
  cases hrun : m s with
  | mk r s' =>
      rw [hrun] at hpost
      cases r with
      | ok a => exact ⟨a, s', rfl⟩
      | _ => exact hpost.elim

theorem delivers_pure (a : α) : Delivers (pure a : Vm α) := Prog.Triple.pure fun _ h => h

theorem delivers_modify (f : Mm → Mm) : Delivers (Prog.modify f : Vm Unit) :=
  Prog.Triple.modify fun _ h => h

theorem delivers_kalloc : Delivers kalloc := by
  intro s _
  unfold kalloc
  by_cases h : s.freelist = 0
  · rw [if_pos h]
    trivial
  · rw [if_neg h]
    trivial

theorem delivers_kfree (pa : Nat) : Delivers (kfree pa) := by
  intro s _
  unfold kfree
  by_cases h : pa % pageSize ≠ 0
  · rw [if_pos h]
    trivial
  · rw [if_neg h]
    trivial

theorem delivers_load64 (a : Nat) : Delivers (load64 a) := fun _ _ => trivial

theorem delivers_store64 (a w : Nat) : Delivers (store64 a w) := delivers_modify _

theorem delivers_zeroPage (p : Nat) : Delivers (zeroPage p) := delivers_modify _

theorem delivers_copyPage (p q : Nat) : Delivers (copyPage p q) := delivers_modify _

theorem delivers_uvmCreate : Delivers uvmCreate := by
  refine Prog.Triple.bind delivers_kalloc fun pt => Prog.Triple.elim (delivers_pure _) fun pt _ => ?_
  refine Prog.Triple.bind (delivers_zeroPage pt) fun _ => ?_
  refine Prog.Triple.get_bind fun s _ => Prog.Triple.pre (P := fun _ => True) ?_ fun _ _ => trivial
  refine Prog.Triple.bind (delivers_copyPage pt s.satp) fun _ => ?_
  refine Prog.Triple.bind delivers_kalloc fun low => Prog.Triple.elim ?_ fun low _ => ?_
  · exact Prog.Triple.bind (delivers_kfree pt) fun _ => delivers_pure _
  refine Prog.Triple.bind (delivers_zeroPage low) fun _ => ?_
  refine Prog.Triple.bind (delivers_store64 _ _) fun _ => ?_
  refine Prog.Triple.bind (delivers_store64 _ _) fun _ => ?_
  refine Prog.Triple.bind (delivers_store64 _ _) fun _ => ?_
  exact Prog.Triple.bind (delivers_store64 _ _) fun _ => delivers_pure _

theorem delivers_forCount {body : Nat → Vm Unit} (h : ∀ i, Delivers (body i)) (count first : Nat) :
    Delivers (Prog.forCount body count first) :=
  Prog.Triple.forCount (J := fun _ _ => True) count fun i _ _ => h i

theorem delivers_freeEntry {descend : Nat → Nat → Vm Unit} (h : ∀ p va, Delivers (descend p va))
    (pt : Nat) (leafLevel : Bool) (shift vaBase i : Nat) :
    Delivers (freeEntry descend pt leafLevel shift vaBase i) := by
  refine Prog.Triple.bind (delivers_load64 _) fun pte => ?_
  refine Prog.Triple.ite (fun _ => delivers_pure _) fun _ => ?_
  refine Prog.Triple.ite (fun _ => Prog.Triple.ite (fun _ => ?_) fun _ => delivers_store64 _ _)
    fun _ => Prog.Triple.ite (fun _ => delivers_pure _) fun _ => ?_
  · exact Prog.Triple.bind (delivers_kfree _) fun _ => delivers_store64 _ _
  · exact Prog.Triple.bind (h _ _) fun _ =>
      Prog.Triple.bind (delivers_kfree _) fun _ => delivers_store64 _ _

theorem delivers_freewalk (level pt vaBase : Nat) : Delivers (freewalk level pt vaBase) := by
  induction level generalizing pt vaBase with
  | zero =>
      rw [freewalk]
      exact delivers_forCount
        (fun i => delivers_freeEntry (fun _ _ => delivers_pure _) pt true 12 vaBase i) 512 0
  | succ level ih =>
      rw [freewalk_succ]
      exact delivers_forCount (fun i => delivers_freeEntry ih pt false _ vaBase i) 512 0

theorem delivers_uvmFree (pt : Nat) : Delivers (uvmFree pt) :=
  Prog.Triple.ite (fun _ => delivers_pure _) fun _ =>
    Prog.Triple.bind (delivers_freewalk 2 pt 0) fun _ => delivers_kfree pt

theorem delivers_walkLevel (pt idx : Nat) (alloc : Bool) : Delivers (walkLevel pt idx alloc) := by
  refine Prog.Triple.bind (delivers_load64 _) fun pte => ?_
  refine Prog.Triple.ite (fun _ => delivers_pure _) fun _ =>
    Prog.Triple.ite (fun _ => ?_) fun _ => delivers_pure _
  refine Prog.Triple.bind delivers_kalloc fun page =>
    Prog.Triple.elim (delivers_pure _) fun page _ => ?_
  exact Prog.Triple.bind (delivers_zeroPage page) fun _ =>
    Prog.Triple.bind (delivers_store64 _ _) fun _ => delivers_pure _

theorem delivers_walk (pt va : Nat) (alloc : Bool) : Delivers (walk pt va alloc) := by
  refine Prog.Triple.bind (delivers_walkLevel _ _ _) fun l1 =>
    Prog.Triple.elim (delivers_pure _) fun l1 _ => ?_
  exact Prog.Triple.bind (delivers_walkLevel _ _ _) fun l0 =>
    Prog.Triple.elim (delivers_pure _) fun l0 _ => delivers_pure _

theorem delivers_walkPte (pt va : Nat) : Delivers (walkPte pt va) := by
  refine Prog.Triple.bind (delivers_walk _ _ _) fun entry =>
    Prog.Triple.elim (delivers_pure _) fun entry _ => ?_
  exact Prog.Triple.bind (delivers_load64 _) fun pte =>
    Prog.Triple.ite (fun _ => delivers_pure _) fun _ => delivers_pure _

theorem comesBack_fail (e : Errno) : ComesBack (Prog.fail e : Vm α) := fun _ _ => trivial

theorem comesBack_uvmMapPage (pt a pa perm : Nat) : ComesBack (uvmMapPage pt a pa perm) := by
  refine Prog.Triple.bind (delivers_walk _ _ _).comesBack fun entry =>
    Prog.Triple.elim (comesBack_fail _) fun entry _ => ?_
  refine Prog.Triple.bind (delivers_load64 _).comesBack fun pte => ?_
  exact Prog.Triple.ite (fun _ => comesBack_fail _) fun _ => (delivers_store64 _ _).comesBack

/-- `uvm_map` of one page makes one pass. -/
theorem mapPasses_page (n : Nat) : mapPasses (n * pageSize) pageSize = 0 := by
  have hlast : pgRoundDown (u64 (n * pageSize + pageSize + 18446744073709551615)) =
      n * pageSize % 18446744073709551616 := by
    unfold pgRoundDown u64 pageSize
    omega
  have hfirst : pgRoundDown (n * pageSize) = n * pageSize := by
    unfold pgRoundDown pageSize
    omega
  rw [mapPasses, hlast, hfirst]
  unfold u64 pageSize
  omega

theorem comesBack_uvmMap_page (pt n pa perm : Nat) :
    ComesBack (uvmMap pt (n * pageSize) pa pageSize perm) := by
  rw [uvmMap, mapPasses_page, uvmMapLoop_zero]
  exact comesBack_uvmMapPage _ _ _ _

theorem comesBack_uvmCopyPage (src dst n : Nat) :
    ComesBack (uvmCopyPage src dst (n * pageSize)) := by
  refine Prog.Triple.bind (delivers_walkPte _ _).comesBack fun found =>
    Prog.Triple.elim (delivers_pure _).comesBack fun found _ => ?_
  refine Prog.Triple.bind delivers_kalloc.comesBack fun mem =>
    Prog.Triple.elim (comesBack_fail _) fun mem _ => ?_
  refine Prog.Triple.bind (delivers_copyPage _ _).comesBack fun _ => ?_
  refine Prog.Triple.onErr (comesBack_uvmMap_page _ _ _ _) fun e => ?_
  exact Prog.Triple.bind (delivers_kfree _).comesBack fun _ => comesBack_fail _

theorem comesBack_uvmCopyLoop (src dst start stop : Nat) :
    ComesBack (uvmCopyLoop src dst start stop) :=
  Prog.Triple.forCount (J := fun _ _ => True) _ fun _ _ _ => comesBack_uvmCopyPage _ _ _

theorem comesBack_uvmCopyRange (src dst start stop : Nat) :
    ComesBack (uvmCopyRange src dst start stop) :=
  Prog.Triple.ite (fun _ => comesBack_fail _) fun _ => comesBack_uvmCopyLoop _ _ _ _

end Memory

section Table

/-- Between `s` and `s'` nothing but the slot `j` of the process table changed. -/
structure OnlySlot (s : Sys) (j : Nat) (s' : Sys) : Prop where
  current : s'.current = s.current
  link : ∀ k, k ≠ j → s'.link k = s.link k

namespace OnlySlot

theorem refl (s : Sys) (j : Nat) : OnlySlot s j s := ⟨rfl, fun _ _ => rfl⟩

theorem withMm (h : OnlySlot s j s') (mm : Mm) : OnlySlot s j { s' with mm := mm } :=
  ⟨h.current, h.link⟩

theorem setProc (h : OnlySlot s j s') (p : Proc) : OnlySlot s j (s'.setProc j p) where
  current := h.current
  link k hk := by
    rw [Sys.link, Sys.setProc_of_ne s' hk]
    exact h.link k hk

theorem onlyFiles (h : OnlySlot s j s') (hfiles : OnlyFiles s' t) : OnlySlot s j t where
  current := hfiles.current.trans h.current
  link k hk := (hfiles.link k).trans (h.link k hk)

end OnlySlot

/-- Slots in use keep their process and its state, and no slot is taken. -/
structure Settled (s s' : Sys) : Prop where
  current : s'.current = s.current
  link : ∀ k, s'.link k = s.link k ∨ (s.procs k).state = .unused ∧ (s'.procs k).state = .unused

theorem Settled.refl (s : Sys) : Settled s s := ⟨rfl, fun _ => Or.inl rfl⟩

theorem SameProcs.settled (h : SameProcs s s') : Settled s s' where
  current := h.current
  link k := Or.inl (by rw [Sys.link, Sys.link, h.pid, h.state, h.parent])

theorem OnlyFiles.settled (h : OnlyFiles s s') : Settled s s' where
  current := h.current
  link k := Or.inl (h.link k)

theorem OnlySlot.settled (h : OnlySlot s j s') (hbefore : (s.procs j).state = .unused)
    (hafter : (s'.procs j).state = .unused) : Settled s s' where
  current := h.current
  link k := by
    by_cases hk : k = j
    · subst hk
      exact Or.inr ⟨hbefore, hafter⟩
    · exact Or.inl (h.link k hk)

/-- The slot `j`, which was free, is in the state `state` and has the parent `parent`. -/
structure Filled (s : Sys) (j : Nat) (state : ProcState) (parent : Option Nat) (s' : Sys) :
    Prop where
  find : procFindUnused s = some j
  only : OnlySlot s j s'
  state : (s'.procs j).state = state
  parent : (s'.procs j).parent = parent

namespace Filled

variable {state : ProcState} {parent : Option Nat}

theorem lt (h : Filled s j state parent s') : j < nproc := (procFindUnused_some h.find).1

theorem unused (h : Filled s j state parent s') : (s.procs j).state = .unused :=
  (procFindUnused_some h.find).2

theorem setProc (h : Filled s j state parent s') {state' : ProcState} {parent' : Option Nat}
    {p : Proc} (hstate : p.state = state') (hparent : p.parent = parent') :
    Filled s j state' parent' (s'.setProc j p) where
  find := h.find
  only := h.only.setProc p
  state := by rw [Sys.setProc_self, hstate]
  parent := by rw [Sys.setProc_self, hparent]

theorem onlyFiles (h : Filled s j state parent s') (hfiles : OnlyFiles s' t) :
    Filled s j state parent t where
  find := h.find
  only := h.only.onlyFiles hfiles
  state := (Sys.link_eq (hfiles.link j)).2.1.trans h.state
  parent := (Sys.link_eq (hfiles.link j)).2.2.trans h.parent

theorem settled (h : Filled s j .unused parent s') : Settled s s' :=
  h.only.settled h.unused h.state

variable {α : Type}

/-- Memory is of no matter to the table. -/
theorem onMm {m : Vm α} (h : ComesBack m) :
    Prog.Triple (Filled s j state parent) (onMm m) (fun _ => Filled s j state parent)
      (fun _ => Filled s j state parent) (fun _ => False) := by
  refine Prog.Triple.zoom fun u hu mm _ => ?_
  have hrun := h mm trivial
  have hkeep : ∀ mm, Filled s j state parent { u with mm := mm } := fun mm =>
    ⟨hu.find, hu.only.withMm mm, hu.state, hu.parent⟩
  split at hrun
  · exact hkeep _
  · exact hkeep _
  · exact hrun
  · exact hrun

theorem onMm_ok {m : Vm α} (h : Delivers m) :
    Prog.Triple (Filled s j state parent) (OsAgentLab.onMm m) (fun _ => Filled s j state parent)
      (fun _ _ => False) (fun _ => False) := by
  refine Prog.Triple.zoom fun u hu mm _ => ?_
  have hrun := h mm trivial
  split at hrun
  · exact ⟨hu.find, hu.only.withMm _, hu.state, hu.parent⟩
  · exact hrun
  · exact hrun
  · exact hrun

theorem modify {state' : ProcState} {parent' : Option Nat} {f : Sys → Proc}
    (hf : ∀ t, (t.procs j).state = state → (t.procs j).parent = parent →
      (f t).state = state' ∧ (f t).parent = parent')
    {E : Errno → Sys → Prop} {C : Sys → Prop} :
    Prog.Triple (Filled s j state parent) (Prog.modify fun s => s.setProc j (f s))
      (fun _ => Filled s j state' parent') E C :=
  Prog.Triple.modify fun t h =>
    h.setProc (hf t h.state h.parent).1 (hf t h.state h.parent).2

end Filled

theorem procDrop_filled {state : ProcState} {parent : Option Nat} :
    Prog.Triple (Filled s j state parent) (procDrop j)
      (fun r s' => r = none ∧ Settled s s') (fun _ _ => False) (fun _ => False) :=
  Prog.Triple.bind (R := fun _ => Filled s j .unused parent)
    (Prog.Triple.modify fun _ h => h.setProc rfl h.parent)
    fun _ => Prog.Triple.pure fun _ h => ⟨rfl, h.settled⟩

/-- `proc_alloc` takes a free slot, or none. -/
theorem procAlloc_filled :
    Prog.Triple (fun t => t = s) procAlloc
      (fun r s' => (r = none → Settled s s') ∧ ∀ j, r = some j → Filled s j .used none s')
      (fun _ _ => False) (fun _ => False) := by
  have hdrop : ∀ j, Prog.Triple (Filled s j .used none) (procDrop j)
      (fun r s' => (r = none → Settled s s') ∧ ∀ j, r = some j → Filled s j .used none s')
      (fun _ _ => False) (fun _ => False) := fun j =>
    procDrop_filled.post fun r t ⟨hr, h⟩ => ⟨fun _ => h, fun k hk => by simp [hr] at hk⟩
  refine Prog.Triple.get_bind fun t ht => Prog.Triple.pre (P := fun u => u = s) ?_
    fun u hu => hu.trans ht
  subst ht
  refine Prog.Triple.elim (Prog.Triple.pure fun u hu => ?_) fun j hj => ?_
  · exact ⟨fun _ => hu ▸ Settled.refl _, fun j hj => by cases hj⟩
  refine Prog.Triple.bind (R := fun _ => Filled t j .used none)
    (Prog.Triple.modify fun u hu => ?_) fun _ => ?_
  · subst hu
    have honly := (OnlySlot.refl u j).setProc { Proc.zero with state := .used, pid := u.nextPid }
    exact ⟨hj, ⟨honly.current, honly.link⟩, by simp, by simp [Proc.zero]⟩
  refine Prog.Triple.bind (Filled.onMm_ok delivers_kalloc) fun tf =>
    Prog.Triple.elim (hdrop j) fun tf _ => ?_
  refine Prog.Triple.bind (R := fun _ => Filled t j .used none)
    (Filled.modify fun _ hstate hparent => by exact ⟨hstate, hparent⟩) fun _ => ?_
  refine Prog.Triple.bind (Filled.onMm_ok delivers_uvmCreate) fun pt =>
    Prog.Triple.elim ?_ fun pt _ => ?_
  · exact Prog.Triple.bind (Filled.onMm_ok (delivers_kfree tf)) fun _ => hdrop j
  refine Prog.Triple.bind (R := fun _ => Filled t j .used none)
    (Filled.modify fun _ hstate hparent => by exact ⟨hstate, hparent⟩) fun _ => ?_
  exact Prog.Triple.pure fun u h =>
    ⟨fun hnone => (by cases hnone), fun k hk => Option.some.inj hk ▸ h⟩

/-- Copying the address space leaves the new slot as it is, or gives it back. -/
theorem forkSpace_filled :
    Prog.Triple (Filled s j .used none) (forkSpace i j) (fun _ => Filled s j .used none)
      (fun _ => Settled s) (fun _ => False) := by
  refine Prog.Triple.get_bind fun t ht => Prog.Triple.pre ?_ fun u hu => hu ▸ ht
  refine Prog.Triple.onErr (F := fun _ => Filled s j .used none) ?_ fun e => ?_
  · exact Filled.onMm (Prog.Triple.bind (comesBack_uvmCopyLoop _ _ _ _) fun _ =>
      comesBack_uvmCopyRange _ _ _ _)
  have hmm : ∀ m : Vm Unit, Delivers m → Prog.Triple (Filled s j .used none) (onMm m)
      (fun _ => Filled s j .used none) (fun _ => Settled s) (fun _ => False) := fun m hm =>
    (Filled.onMm_ok hm).conseq (fun _ => id) (fun _ _ => id) (fun _ _ => False.elim) fun _ => id
  refine Prog.Triple.bind (hmm _ (delivers_uvmFree _)) fun _ => ?_
  refine Prog.Triple.bind (hmm _ (delivers_kfree _)) fun _ => ?_
  exact Prog.Triple.bind (R := fun _ => Filled s j .unused none)
    (Prog.Triple.modify fun _ h => h.setProc rfl h.parent)
    fun _ => Prog.Triple.fail fun t h => h.settled

/-- `proc_fork` makes one runnable child of the current process, or it fails and takes no
slot. -/
theorem procFork_filled (tf : Nat) :
    Prog.Triple (fun t => t = s) (procFork tf)
      (fun _ s' => ∃ i j, s.current = some i ∧ Filled s j .runnable (some i) s')
      (fun _ => Settled s) (fun _ => False) := by
  refine Prog.Triple.bind (R := fun i t => t = s ∧ s.current = some i) ?_ fun i => ?_
  · intro t ht
    subst ht
    unfold procCurrent
    cases hcur : t.current with
    | none => exact Settled.refl t
    | some i => exact ⟨rfl, rfl⟩
  refine Prog.Triple.assume (p := s.current = some i) (fun hcur => ?_) fun t h => h.2
  refine Prog.Triple.bind ((procAlloc_filled.pre fun t h => h.1).conseq (fun _ => id)
    (fun _ _ => id) (fun _ _ => False.elim) fun _ => id) fun np => ?_
  cases np with
  | none => exact Prog.Triple.fail fun t h => h.1 rfl
  | some j =>
      refine Prog.Triple.pre (P := Filled s j .used none) ?_ fun t h => h.2 j rfl
      rw [Option.elim_some]
      refine Prog.Triple.bind forkSpace_filled fun _ => ?_
      refine Prog.Triple.bind (R := fun _ => Filled s j .used none)
        (Filled.modify fun _ hstate hparent => by exact ⟨hstate, hparent⟩) fun _ => ?_
      refine Prog.Triple.get_bind fun t ht => Prog.Triple.pre ?_ fun u hu => hu ▸ ht
      refine Prog.Triple.bind (R := fun _ => Filled s j .used none)
        ((Filled.onMm_ok ?_).conseq (fun _ => id) (fun _ _ => id) (fun _ _ => False.elim)
          fun _ => id) fun _ => ?_
      · exact Prog.Triple.bind (delivers_modify _) fun _ => delivers_store64 _ _
      refine Prog.Triple.bind (R := fun _ => Filled s j .used (some i))
        (Filled.modify fun _ hstate _ => by exact ⟨hstate, rfl⟩) fun _ => ?_
      refine Prog.Triple.bind (R := fun _ => Filled s j .used (some i))
        (Prog.Triple.of_ok fun u h => ?_) fun _ => ?_
      · obtain ⟨u', hrun, hfilled⟩ := Prog.forCount_inv (forkFile i j)
          (fun _ => Filled s j .used (some i)) nofile 0 u h fun fd v _ _ hv => by
            obtain ⟨v', hrun, hsame⟩ := forkFile_onlyFiles i j fd v
            exact ⟨v', hrun, hv.onlyFiles hsame⟩
        exact ⟨(), u', hrun, hfilled⟩
      refine Prog.Triple.bind (R := fun _ => Filled s j .runnable (some i))
        (Filled.modify fun _ _ hparent => by exact ⟨rfl, hparent⟩) fun _ => ?_
      exact Prog.Triple.get_bind fun u hu => Prog.Triple.pure fun v hv => ⟨i, j, hcur, hv ▸ hu⟩

end Table

section Switch

/-- A running process becomes runnable, and nobody has the processor. -/
theorem unrun_link (hrunning : (s.procs i).state = .running) :
    ((s.unrun i).procs i).state = .runnable ∧
      ((s.unrun i).procs i).parent = (s.procs i).parent ∧
      ∀ k, k ≠ i → (s.unrun i).link k = s.link k := by
  unfold Sys.unrun
  rw [if_pos hrunning]
  refine ⟨by rw [Sys.setState, Sys.setProc_self], by rw [Sys.setState, Sys.setProc_self],
    fun k hk => ?_⟩
  rw [Sys.link, Sys.setState, Sys.setProc_of_ne s hk]
  rfl

/-- `proc_exit` makes a zombie of the process, and gives up the processor. -/
theorem procExit_link {status : Int} (hrun : procExit i status s = (.ok (), s')) :
    s'.current = none ∧ (s'.procs i).state = .zombie ∧
      (s'.procs i).parent = (s.procs i).parent ∧ ∀ k, k ≠ i → s'.link k = s.link k := by
  have hclose : Prog.Keeps (OnlyFiles s) (Prog.forCount (closeIfOpen i) nofile 0) :=
    Prog.Keeps.forCount (fun fd => closeIfOpen_onlyFiles i fd) _ _
  have hexit : Prog.Triple (OnlyFiles s) (procExit i status)
      (fun _ s' => s'.current = none ∧ (s'.procs i).state = .zombie ∧
        (s'.procs i).parent = (s.procs i).parent ∧ ∀ k, k ≠ i → s'.link k = s.link k)
      (fun _ _ => True) (fun _ => True) := by
    refine Prog.Triple.bind (hclose.conseq (fun _ => id) (fun _ _ => id) (fun _ _ _ => trivial)
      fun _ _ => trivial) fun _ => ?_
    refine Prog.Triple.bind (R := fun _ s' => (s'.procs i).state = .zombie ∧
        (s'.procs i).parent = (s.procs i).parent ∧ ∀ k, k ≠ i → s'.link k = s.link k)
      (Prog.Triple.modify fun t h => ⟨by rw [Sys.setProc_self], ?_, fun k hk => ?_⟩) fun _ => ?_
    · rw [Sys.setProc_self]
      exact (Sys.link_eq (h.link i)).2.2
    · rw [Sys.link, Sys.setProc_of_ne t hk]
      exact h.link k
    · refine Prog.Triple.modify fun t h => ?_
      have hunrun : t.unrun i = t := by
        unfold Sys.unrun
        rw [if_neg (by simp [h.1])]
      rw [hunrun]
      exact ⟨rfl, h⟩
  exact hexit.ok (.refl s) hrun

/-- Calls other than `proc_fork` leave the table as it is. -/
theorem call_settled {c : Call} (hc : c ≠ .fork) {v : Outcome Errno Int}
    (hrun : c.run s = (v, s')) : Settled s s' := by
  have hfiles : ∀ m : SysM Int, Prog.Keeps (OnlyFiles s) m → m s = (v, s') → Settled s s' :=
    fun m h hm => (h.returns (.refl s) hm).settled
  have hprocs : ∀ m : SysM Int, Prog.Keeps (SameProcs s) m → m s = (v, s') → Settled s s' :=
    fun m h hm => (h.returns (.refl s) hm).settled
  cases c with
  | openat dirfd path flags => exact hfiles _ (sysOpenat_onlyFiles _ _ _) hrun
  | close fd => exact hfiles _ (sysClose_onlyFiles fd) hrun
  | dup fd => exact hfiles _ (sysDup_onlyFiles fd) hrun
  | dup3 oldfd newfd => exact hfiles _ (sysDup3_onlyFiles oldfd newfd) hrun
  | fork => exact absurd rfl hc
  | exec path argv => exact hprocs _ (procExec_sameProcs path argv) hrun
  | brk addr => exact hprocs _ (sysBrk_sameProcs addr) hrun

end Switch

namespace Run

variable {r r' : Run} {e : Event}

/-- The step ends the running process, by `proc_exit` or because the kernel runs into an
invalid access on its behalf. -/
def Ends (e : Event) (r : Run) : Prop :=
  (∃ status, e = .exit status) ∨ ∃ c s', e = .call c ∧ c.run r.sys = (.fault, s')

/-- What one step does to the slot `k`. -/
inductive SlotStep (r : Run) (e : Event) (r' : Run) (k : Nat) : Prop
  | same (hstate : (r'.sys.procs k).state = (r.sys.procs k).state)
      (hparent : (r.sys.procs k).state ≠ .unused →
        (r'.sys.procs k).parent = (r.sys.procs k).parent)
  | claimed (hlt : k < nproc) (hboot : r.booting = true) (hbefore : (r.sys.procs k).state = .unused)
      (hafter : (r'.sys.procs k).state = .used) (hparent : (r'.sys.procs k).parent = none)
  | readied (hboot : r.booting = true) (hbefore : (r.sys.procs k).state = .used)
      (hafter : (r'.sys.procs k).state = .runnable)
      (hparent : (r'.sys.procs k).parent = (r.sys.procs k).parent)
  | selected (hidle : r.sys.current = none) (hcur : r'.sys.current = some k) (hbefore : (r.sys.procs k).state = .runnable)
      (hafter : (r'.sys.procs k).state = .running)
      (hparent : (r'.sys.procs k).parent = (r.sys.procs k).parent)
  | released (hcur : r.sys.current = some k) (hidle : r'.sys.current = none)
      (hafter : (r'.sys.procs k).state = .runnable)
      (hparent : (r'.sys.procs k).parent = (r.sys.procs k).parent)
  | ended (hcur : r.sys.current = some k) (hidle : r'.sys.current = none) (he : Ends e r)
      (hafter : (r'.sys.procs k).state = .zombie)
      (hparent : (r'.sys.procs k).parent = (r.sys.procs k).parent)
  | born {i : Nat} (hlt : k < nproc) (hcur : r.sys.current = some i)
      (hstays : r'.sys.current = some i) (hbefore : (r.sys.procs k).state = .unused) (hafter : (r'.sys.procs k).state = .runnable)
      (hparent : (r'.sys.procs k).parent = some i)
  | reaped {i : Nat} (hcur : r.sys.current = some i) (hstays : r'.sys.current = some i)
      (hbefore : (r.sys.procs k).state = .zombie) (hafter : (r'.sys.procs k).state = .unused)
      (hparent : (r.sys.procs k).parent = some i)

/-- The step leaves slot `k` alone. -/
theorem SlotStep.of_link (h : r'.sys.link k = r.sys.link k) : SlotStep r e r' k :=
  .same (Sys.link_eq h).2.1 fun _ => (Sys.link_eq h).2.2

theorem SlotStep.of_settled (h : Settled r.sys r'.sys) : SlotStep r e r' k := by
  rcases h.link k with hlink | ⟨hbefore, hafter⟩
  · exact .of_link hlink
  · exact .same (hafter.trans hbefore.symm) fun hused => absurd hbefore hused

theorem procWaitPass_current {cur : Option Nat} (i : Nat) (pid : Int) :
    Prog.Keeps (CurrentIs cur) (procWaitPass i pid) := by
  refine Prog.Keeps.get_bind fun t => Prog.Keeps.elim ?_ fun c => ?_
  · exact Prog.Keeps.ite (Prog.Keeps.pure _) (Prog.Keeps.fail _)
  refine Prog.Keeps.bind (Prog.Keeps.get_bind fun u => ?_) fun v => Prog.Keeps.pure _
  refine Prog.Keeps.bind (onMm_current _) fun _ => Prog.Keeps.bind (onMm_current _) fun _ => ?_
  exact Prog.Keeps.bind (Prog.Keeps.modify fun _ h => h) fun _ => Prog.Keeps.pure _

/-- Every step does one of these things to each slot. -/
theorem Step.slot (hcounted : Counted r.sys none) (hstep : Step r e r') (k : Nat) :
    SlotStep r e r' k := by
  cases hstep with
  | @alloc np s' hboot hrun =>
      have hpost := procAlloc_filled.ok rfl hrun
      cases np with
      | none => exact .of_settled (hpost.1 rfl)
      | some j =>
          have hfilled := hpost.2 j rfl
          by_cases hk : k = j
          · subst hk
            exact .claimed hfilled.lt hboot hfilled.unused hfilled.state hfilled.parent
          · exact .of_link (hfilled.only.link k hk)
  | @execOn i _ _ _ s' hboot hlt hused hrun =>
      have hsame := (procExecCommon_sameProcs _ _ _).ok (.refl r.sys) hrun
      by_cases hk : k = i
      · subst hk
        refine .readied hboot hused ?_ ?_
        · exact congrArg Proc.state (s'.setProc_self k _)
        · exact (congrArg Proc.parent (s'.setProc_self k _)).trans (by rw [hsame.parent])
      · refine .same ?_ fun _ => ?_
        · exact (congrArg Proc.state (s'.setProc_of_ne hk _)).trans (by rw [hsame.state])
        · exact (congrArg Proc.parent (s'.setProc_of_ne hk _)).trans (by rw [hsame.parent])
  | execOnFails hboot hlt hused hrun =>
      exact .of_settled ((procExecCommon_sameProcs _ _ _).err (.refl r.sys) hrun).settled
  | @schedule i hlt hidle hready =>
      by_cases hk : k = i
      · subst hk
        have hproc := r.sys.setProc_self k { r.sys.procs k with state := .running }
        refine .selected hidle rfl hready ?_ ?_
        · exact (congrArg Proc.state hproc).trans rfl
        · exact (congrArg Proc.parent hproc).trans rfl
      · have hproc := r.sys.setProc_of_ne hk { r.sys.procs i with state := .running }
        exact .same (congrArg Proc.state hproc) fun _ => congrArg Proc.parent hproc
  | @preempt i s' hcur hwait hrun =>
      obtain rfl : { r.sys.unrun i with current := none } = s' := (Prod.mk.inj hrun).2
      obtain ⟨hstate, hparent, hothers⟩ := unrun_link (hcounted.current i hcur).2
      by_cases hk : k = i
      · subst hk
        exact .released hcur rfl hstate hparent
      · exact .of_link (hothers k hk)
  | store hcur hwait hva hwalk hpa => exact .same rfl fun _ => rfl
  | @call i c v s' hcur hwait hrun hreturns =>
      by_cases hc : c = .fork
      · subst hc
        rcases hreturns with hok | herr
        · cases v with
          | ok v =>
              obtain ⟨i', j, hmaker, hfilled⟩ := (procFork_filled (callFrame r.sys)).ok rfl hrun
              have hstays := (procFork_current (callFrame r.sys)).returns hmaker hrun
              by_cases hk : k = j
              · subst hk
                exact .born hfilled.lt hmaker hstays hfilled.unused hfilled.state hfilled.parent
              · exact .of_link (hfilled.only.link k hk)
          | _ => cases hok
        · cases v with
          | err e => exact .of_settled ((procFork_filled (callFrame r.sys)).err rfl hrun)
          | _ => cases herr
      · exact .of_settled (call_settled hc hrun)
  | @trap i c s' s'' hcur hwait hrun hexit =>
      have hsettled : Settled r.sys s' := by
        by_cases hc : c = .fork
        · subst hc
          exact ((procFork_filled (callFrame r.sys)).fault rfl hrun).elim
        · exact call_settled hc hrun
      obtain ⟨hidle, hzombie, hparent, hothers⟩ := procExit_link hexit
      by_cases hk : k = i
      · subst hk
        have hrunning := (hcounted.current k hcur).2
        have hlink : s'.link k = r.sys.link k := by
          rcases hsettled.link k with hlink | ⟨hunused, _⟩
          · exact hlink
          · rw [hrunning] at hunused
            cases hunused
        exact .ended hcur hidle (Or.inr ⟨c, s', rfl, hrun⟩) hzombie
          (hparent.trans (Sys.link_eq hlink).2.2)
      · obtain ⟨_, hstate, hparent⟩ := Sys.link_eq (hothers k hk)
        rcases hsettled.link k with hlink | ⟨hbefore, hafter⟩
        · exact .of_link ((hothers k hk).trans hlink)
        · exact .same ((hstate.trans hafter).trans hbefore.symm) fun hused => absurd hbefore hused
  | @exit i status s' hcur hwait hrun =>
      obtain ⟨hidle, hzombie, hparent, hothers⟩ := procExit_link hrun
      by_cases hk : k = i
      · subst hk
        exact .ended hcur hidle (Or.inl ⟨status, rfl⟩) hzombie hparent
      · exact .of_link (hothers k hk)
  | @wait i pid v s' hcur hwait hrun hreturns hdone =>
      rcases hreturns with hval | herr
      · cases v with
        | ok v =>
            cases v with
            | none => exact absurd rfl hdone
            | some v =>
                obtain ⟨c, hzombie, _, hreaped⟩ := (procWaitPass_links i pid).ok rfl hrun
                have hstays := (procWaitPass_current i pid).returns hcur hrun
                by_cases hk : k = c
                · subst hk
                  obtain ⟨_, hparent, _, hstate⟩ := waitZombie_some hzombie
                  exact .reaped hcur hstays hstate hreaped.state hparent
                · exact .of_link (hreaped.link k hk)
        | _ => cases hval
      · cases v with
        | err e => exact .of_link ((procWaitPass_links i pid).err rfl hrun k)
        | _ => cases herr
  | @waitYields i pid s' s'' hcur hwait hrun hyield =>
      have hlinks := (procWaitPass_links i pid).ok rfl hrun
      obtain rfl : { s'.unrun i with current := none } = s'' := (Prod.mk.inj hyield).2
      have hrunning : (s'.procs i).state = .running :=
        (Sys.link_eq (hlinks i)).2.1.trans (hcounted.current i hcur).2
      obtain ⟨hstate, hparent, hothers⟩ := unrun_link hrunning
      by_cases hk : k = i
      · subst hk
        exact .released hcur rfl hstate (hparent.trans (Sys.link_eq (hlinks k)).2.2)
      · exact .of_link ((hothers k hk).trans (hlinks k))

/-- Who has the processor before and after a step. -/
inductive CurrentStep (r : Run) (e : Event) (r' : Run) : Prop
  | stays (h : r'.sys.current = r.sys.current)
  | picks {i : Nat} (he : e = .schedule i) (hidle : r.sys.current = none)
      (h : r'.sys.current = some i)
  | gives {i : Nat} (hcur : r.sys.current = some i) (hidle : r'.sys.current = none)
      (hstate : (r'.sys.procs i).state = .runnable ∨ (r'.sys.procs i).state = .zombie)

theorem Step.current (hcounted : Counted r.sys none) (hstep : Step r e r') :
    CurrentStep r e r' := by
  cases hstep with
  | alloc hboot hrun => exact .stays (procAlloc_current.returns rfl hrun)
  | execOn hboot hlt hused hrun =>
      exact .stays ((procExecCommon_sameProcs _ _ _).ok (.refl r.sys) hrun).current
  | execOnFails hboot hlt hused hrun =>
      exact .stays ((procExecCommon_sameProcs _ _ _).err (.refl r.sys) hrun).current
  | schedule hlt hidle hready => exact .picks rfl hidle rfl
  | @preempt i s' hcur hwait hrun =>
      obtain rfl : { r.sys.unrun i with current := none } = s' := (Prod.mk.inj hrun).2
      exact .gives hcur rfl (Or.inl (unrun_link (hcounted.current i hcur).2).1)
  | store hcur hwait hva hwalk hpa => exact .stays rfl
  | call hcur hwait hrun hreturns => exact .stays ((Call.run_current _).returns rfl hrun)
  | trap hcur hwait hrun hexit =>
      obtain ⟨hidle, hzombie, _⟩ := procExit_link hexit
      exact .gives hcur hidle (Or.inr hzombie)
  | exit hcur hwait hrun =>
      obtain ⟨hidle, hzombie, _⟩ := procExit_link hrun
      exact .gives hcur hidle (Or.inr hzombie)
  | wait hcur hwait hrun hreturns hdone => exact .stays ((procWaitPass_current _ _).returns rfl hrun)
  | @waitYields i pid s' s'' hcur hwait hrun hyield =>
      have hlinks := (procWaitPass_links i pid).ok rfl hrun
      obtain rfl : { s'.unrun i with current := none } = s'' := (Prod.mk.inj hyield).2
      have hrunning : (s'.procs i).state = .running :=
        (Sys.link_eq (hlinks i)).2.1.trans (hcounted.current i hcur).2
      exact .gives hcur rfl (Or.inl (unrun_link hrunning).1)

end Run

end OsAgentLab
