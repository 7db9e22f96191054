/-
Opens of one file with `O_APPEND`, and the writes through them in any order.
The position of an open is set once, when the file is opened.
-/
import OsAgentLab.Proc.FileBytes

namespace OsAgentLab

section Lookup

/-- What a path lookup leaves behind: new entries in the tables of vnodes and
nodes, and nothing else. -/
structure LookedUp (k k' : Kernel) : Prop where
  vol : k'.vol = k.vol
  ramNodes : k'.ramNodes = k.ramNodes
  vnode : ∀ vn, k.vnodes.used vn = true →
    k'.vnodes.used vn = true ∧ k'.vnodes.slot vn = k.vnodes.slot vn
  fatNode : ∀ n, k.fatNodes.used n = true →
    k'.fatNodes.used n = true ∧ k'.fatNodes.slot n = k.fatNodes.slot n

variable {k k' : Kernel}

namespace LookedUp

theorem refl (k : Kernel) : LookedUp k k := ⟨rfl, rfl, fun _ h => ⟨h, rfl⟩, fun _ h => ⟨h, rfl⟩⟩

/-- A vnode is taken that was free. -/
theorem takeVnode (h : LookedUp k k') {i : Nat} (hfree : k'.vnodes.used i = false) (vnode : Vnode) :
    LookedUp k { k' with vnodes := k'.vnodes.take i vnode } where
  vol := h.vol
  ramNodes := h.ramNodes
  vnode vn hused := by
    obtain ⟨hused', hslot⟩ := h.vnode vn hused
    have hne : vn ≠ i := by
      rintro rfl
      rw [hfree] at hused'
      cases hused'
    simp only [Pool.take_used, Pool.take_slot, if_neg hne]
    exact ⟨hused', hslot⟩
  fatNode := h.fatNode

/-- A FAT32 node is taken that was free. -/
theorem takeFatNode (h : LookedUp k k') {i : Nat} (hfree : k'.fatNodes.used i = false)
    (node : Fat32Node) : LookedUp k { k' with fatNodes := k'.fatNodes.take i node } where
  vol := h.vol
  ramNodes := h.ramNodes
  vnode := h.vnode
  fatNode n hused := by
    obtain ⟨hused', hslot⟩ := h.fatNode n hused
    have hne : n ≠ i := by
      rintro rfl
      rw [hfree] at hused'
      cases hused'
    simp only [Pool.take_used, Pool.take_slot, if_neg hne]
    exact ⟨hused', hslot⟩

end LookedUp

theorem fat32OpenHit_lookedUp (dir c : Nat) (hit : DirHit) (name : CName) :
    Prog.Keeps (LookedUp k) (fat32OpenHit dir c hit name) := by
  intro k' h
  rcases fat32OpenHit_cases dir c hit name k' with ⟨_, hrun⟩ | ⟨n, hn, hrest⟩
  · rw [hrun]
    exact h
  have hnode := h.takeFatNode (Pool.firstFree_eq_some hn).2 (hit.toNode c)
  rcases hrest with ⟨_, hrun⟩ | ⟨i, hi, hrun⟩
  · rw [hrun]
    exact hnode
  · rw [hrun]
    exact hnode.takeVnode (Pool.firstFree_eq_some hi).2 _

/-- The loops over the slots of one cluster keep what the callback keeps. -/
theorem iterCluster_ends {β : Type} {J : β → Prop} {cb : DirHit → β → CbRet × β}
    (hcb : ∀ hit ctx, J ctx → J (cb hit ctx).2) (v : Vol) (cluster base : Nat)
    (state : LfnState × β) (h : J state.2) :
    (iterCluster v cb cluster base state).Ends (fun st => J st.2) fun r => J r.2 := by
  refine Flow.loop_ends (fun s state hstate => ?_) _ state h
  dsimp only
  cases v.disk.read (fat32ClusterToLba v.fs cluster + s) with
  | none => exact hstate
  | some sector =>
      refine Flow.loop_ends (fun slot state hstate => ?_) _ state hstate
      obtain ⟨st, ctx⟩ := state
      rw [iterSlot]
      cases slotStep slot st with
      | endMark => exact hstate
      | skip st' => exact hstate
      | entry hit st' =>
          have hnext := hcb hit ctx hstate
          simp only
          cases hret : cb hit ctx with
          | mk ret ctx' =>
              rw [hret] at hnext
              cases ret <;> exact hnext

/-- The iteration over a directory keeps what its callback keeps. -/
theorem iterChain_keeps {β : Type} {J : β → Prop} {cb : DirHit → β → CbRet × β}
    (hcb : ∀ hit ctx, J ctx → J (cb hit ctx).2) (v : Vol) (fuel cluster base : Nat)
    (state : LfnState × β) (h : J state.2) {r : CbRet × β}
    (hrun : iterChain v cb fuel cluster base state = some r) : J r.2 := by
  induction fuel generalizing cluster base state with
  | zero => cases hrun
  | succ fuel ih =>
      rw [iterChain] at hrun
      by_cases hend : fat32Eoc ≤ cluster
      · rw [if_pos hend] at hrun
        cases hrun
        exact h
      rw [if_neg hend] at hrun
      have hflow := iterCluster_ends hcb v cluster base state h
      cases hcluster : iterCluster v cb cluster base state with
      | done result =>
          rw [hcluster] at hflow hrun
          cases hrun
          exact hflow
      | next state' =>
          rw [hcluster] at hflow hrun
          simp only at hrun
          cases hnext : (fat32ReadFatEntry cluster v).1 with
          | ok next =>
              rw [hnext] at hrun
              exact ih next _ state' hflow hrun
          | err e =>
              rw [hnext] at hrun
              cases hrun
              exact hflow
          | fault =>
              rw [hnext] at hrun
              cases hrun
              exact hflow
          | diverges =>
              rw [hnext] at hrun
              cases hrun
              exact hflow

theorem fat32LookupOp_lookedUp (dir : Nat) (name : CName) :
    Prog.Keeps (LookedUp k) (fat32LookupOp dir name) := by
  intro k' h
  have hkeeps : ∀ hit ctx, LookedUp k ctx.1 →
      LookedUp k (fat32LookupCb name dir (k'.fatNode dir).cluster hit ctx).2.1 := by
    intro hit ctx hctx
    rw [fat32LookupCb]
    by_cases hname : (!nameEqNocase hit.name name) = true
    · rw [if_pos hname]
      exact hctx
    rw [if_neg hname]
    have hopen := fat32OpenHit_lookedUp dir (k'.fatNode dir).cluster hit hit.name ctx.1 hctx
    cases hrun : fat32OpenHit dir (k'.fatNode dir).cluster hit hit.name ctx.1 with
    | mk r k₁ =>
        rw [hrun] at hopen
        cases r <;> exact hopen
  simp only [fat32LookupOp]
  cases hiter : fat32IterDir k'.vol (k'.fatNode dir).cluster
      (fat32LookupCb name dir (k'.fatNode dir).cluster) (k', none) with
  | none => exact h
  | some r =>
      have hlast := iterChain_keeps (J := fun ctx => LookedUp k ctx.1) hkeeps _ _ _ _ _ h hiter
      obtain ⟨ret, k₁, found⟩ := r
      cases ret with
      | goOn => exact hlast
      | fail e => exact hlast
      | stop => cases found <;> exact hlast

theorem ramfsLookup_lookedUp (dir : Nat) (name : CName) :
    Prog.Keeps (LookedUp k) (ramfsLookup dir name) := by
  refine Prog.Keeps.bind (fun k' h => ?_) fun found => ?_
  · unfold ramfsFind
    cases ramfsSearch k' name ramfsMaxNodes none (k'.ramNode dir).child with
    | none => exact h
    | some found => exact h
  · cases found with
    | none => exact Prog.Keeps.fail _
    | some found =>
        intro k' h
        simp only [ramfsWrapNode, vfsAllocVnode]
        cases hi : k'.vnodes.firstFree vnodePoolSize with
        | none => exact h
        | some i => exact h.takeVnode (Pool.firstFree_eq_some hi).2 _

theorem vnodeLookup_lookedUp (ops : FsOps) (dir : Nat) (name : CName) :
    Prog.Keeps (LookedUp k) (vnodeLookup ops dir name) := by
  cases ops with
  | fat32 => exact Prog.Keeps.bind (fat32LookupOp_lookedUp dir name) fun vn => Prog.Keeps.pure _
  | ramfs => exact ramfsLookup_lookedUp dir name

theorem vfsEnter_lookedUp (cur : Option Nat) (name : CName) :
    Prog.Keeps (LookedUp k) (vfsEnter false cur name) := by
  refine Prog.Keeps.ite (Prog.Keeps.pure _) (Prog.Keeps.bind ?_ fun dir => ?_)
  · cases cur with
    | none => exact Prog.Keeps.crash
    | some vn => exact Prog.Keeps.pure _
  refine Prog.Keeps.get_bind fun t => Prog.Keeps.ite ?_ ?_
  · cases (t.vnode dir).parent with
    | none => exact Prog.Keeps.pure _
    | some p => exact Prog.Keeps.pure _
  · cases (t.vnode dir).type with
    | file => exact Prog.Keeps.fail _
    | dir =>
        cases (t.vnode dir).ops with
        | none => exact Prog.Keeps.fail _
        | some ops =>
            refine Prog.Keeps.bind (Prog.Keeps.attempt (vnodeLookup_lookedUp ops dir name))
              fun found => ?_
            cases found with
            | ok next => exact Prog.Keeps.get_bind fun _ => Prog.Keeps.pure _
            | error e =>
                refine Prog.Triple.ite (fun hparents => ?_) fun _ => Prog.Keeps.fail e
                exact absurd hparents.2 Bool.false_ne_true

theorem vfsWalk_lookedUp (names : List CName) (cur : Option Nat) :
    Prog.Keeps (LookedUp k) (vfsWalk cur names) := by
  induction names generalizing cur with
  | nil => exact Prog.Keeps.pure _
  | cons name rest ih => exact Prog.Keeps.bind (vfsEnter_lookedUp cur name) fun next => ih next

/-- A path lookup changes no file. -/
theorem vfsLookupAt_lookedUp (cwd : Option Nat) (path : CName) :
    Prog.Keeps (LookedUp k) (vfsLookupAt cwd path) := by
  refine Prog.Keeps.bind (Prog.Keeps.of_snd fun k' => ?_) fun start => vfsWalk_lookedUp _ start
  unfold vfsStart
  dsimp only
  split <;> rfl

end Lookup

section Openat

variable {k k' k'' : Kernel} {s s' : Sys} {cwd : Option Nat} {path : CName} {i vn flags : Nat}

/-- The checks of the flags do not change the file system without `O_TRUNC`. -/
theorem openFlags_ok {vn' : Nat} (htrunc : flags &&& oTrunc = 0)
    (hrun : (do
      let k ← Prog.get
      if (k.vnode vn).type = .dir then
        if flags &&& (oWronly ||| oRdwr ||| oTrunc) ≠ 0 then Prog.fail .isdir else pure vn
      else if flags &&& oDirectory ≠ 0 then Prog.fail .notdir
      else if flags &&& oTrunc ≠ 0 then do
        vfsTruncate (some vn) 0
        pure vn
      else pure vn : Kern Nat) k = (.ok vn', k')) : vn' = vn ∧ k' = k := by
  rw [Prog.get_bind] at hrun
  by_cases hdir : (k.vnode vn).type = .dir
  · rw [if_pos hdir] at hrun
    by_cases hwrite : flags &&& (oWronly ||| oRdwr ||| oTrunc) ≠ 0
    · rw [if_pos hwrite] at hrun
      cases hrun
    · rw [if_neg hwrite] at hrun
      cases hrun
      exact ⟨rfl, rfl⟩
  · rw [if_neg hdir] at hrun
    by_cases honly : flags &&& oDirectory ≠ 0
    · rw [if_pos honly] at hrun
      cases hrun
    · rw [if_neg honly, if_neg (by simp [htrunc])] at hrun
      cases hrun
      exact ⟨rfl, rfl⟩

/-- Without `O_TRUNC`, an open of an existing file is its lookup. -/
theorem openVnode_found {vn' : Nat} (hlook : vfsLookupAt cwd path k = (.ok (some vn), k'))
    (htrunc : flags &&& oTrunc = 0) (hrun : openVnode cwd path flags k = (.ok vn', k'')) :
    vn' = vn ∧ k'' = k' := by
  dsimp only [openVnode] at hrun
  by_cases hcreat : flags &&& oCreat ≠ 0
  · rw [if_pos hcreat] at hrun
    obtain ⟨found, k₁, hfound, hrest⟩ := Prog.of_bind_ok hrun
    rw [vfsCreateAt, Prog.bind_ok (Prog.attempt_ok hlook)] at hfound
    dsimp only [deref] at hfound
    rw [Prog.pure_bind_apply, Prog.get_bind] at hfound
    by_cases hdir : (k'.vnode vn).type = .dir
    · rw [if_pos hdir] at hfound
      cases hfound
    · rw [if_neg hdir] at hfound
      cases hfound
      exact openFlags_ok htrunc hrest
  · rw [if_neg hcreat, Prog.bind_ok hlook] at hrun
    exact openFlags_ok htrunc hrun

/-- A new open file at the vnode `vn`; the other ones are as they were. -/
structure OpenedAt (s s' : Sys) (i fd : Nat) (k : Kernel) (vn off : Nat) (f : Nat) : Prop where
  fs : s'.fs = k
  free : s.files.used f = false
  used : s'.files.used f = true
  vnode : (s'.files.slot f).vn = some vn
  off : (s'.files.slot f).off = off
  other : ∀ g, g ≠ f → s'.files.used g = s.files.used g ∧ s'.files.slot g = s.files.slot g
  ofile : (s'.procs i).ofile fd = some f

theorem vfsStat_run (vn : Option Nat) (k : Kernel) : (vfsStat vn k).2 = k := by
  cases vn with
  | none => rfl
  | some vn =>
      rw [vfsStat, vfsDispatch, Prog.get_bind]
      cases (k.vnode vn).ops with
      | none => rfl
      | some ops => cases ops <;> rfl

theorem copyinPath_reads (i ptr : Nat) : Prog.Keeps (fun t => t = s) (copyinPath i ptr) := by
  refine Prog.Keeps.get_bind fun t => Prog.Keeps.bind (Prog.Keeps.orElse ?_) fun _ =>
    Prog.Keeps.pure _
  refine Prog.Triple.zoom fun u hu => ?_
  refine (@copyinstr_reads u.mm _ _ _).conseq (fun _ => id) ?_ ?_ ?_
  · rintro _ _ rfl
    exact hu
  · rintro _ _ rfl
    exact hu
  · rintro _ rfl
    exact hu

theorem fileClose_fail_ne {f : Nat} (e : Errno) (s s' : Sys) (a : Nat) :
    (do fileClose f; Prog.fail e : SysM Nat) s ≠ (.ok a, s') := by
  intro h
  cases h

/-- An open with `O_APPEND` that comes back starts at the size that `vfs_stat`
reports. -/
theorem sysOpenat_append {path_ptr : Nat} {fd : Int} (hcur : s.current = some i)
    (happend : flags &&& oAppend ≠ 0) (htrunc : flags &&& oTrunc = 0)
    (hpath : (copyinPath i path_ptr s).1 = .ok path)
    (hlook : vfsLookupAt (s.procs i).cwd path s.fs = (.ok (some vn), k'))
    (hrun : sysOpenat atFdcwd path_ptr flags s = (.ok fd, s')) :
    ∃ f st, vfsStat (some vn) k' = (.ok st, k') ∧ OpenedAt s s' i fd.toNat k' vn st.stSize f := by
  obtain ⟨i', s₁, hproc, hrest⟩ := Prog.of_bind_ok hrun
  rw [procCurrent, hcur] at hproc
  cases hproc
  rw [if_neg (fun h => h rfl)] at hrest
  obtain ⟨path', s₁, hcopy, hcheck⟩ := Prog.of_bind_ok hrest
  have hsame : s₁ = s := (@copyinPath_reads s _ _).ok rfl hcopy
  subst hsame
  rw [hcopy] at hpath
  obtain rfl := Outcome.ok.inj hpath
  rw [if_neg (fun h => h.1 htrunc), Prog.get_bind] at hcheck
  obtain ⟨vn', s₂, hopen, halloc⟩ := Prog.of_bind_ok hcheck
  obtain ⟨k₁, hvnode, rfl⟩ := Prog.of_zoom_ok hopen
  obtain ⟨rfl, rfl⟩ := openVnode_found hlook htrunc hvnode
  obtain ⟨found, s₃, hfound, hfill⟩ := Prog.of_bind_ok halloc
  rw [fileAlloc] at hfound
  dsimp only at hfound
  cases hfree : s₁.files.firstFree nfile with
  | none =>
      rw [hfree] at hfound
      cases hfound
      cases hfill
  | some f =>
      rw [hfree] at hfound
      cases hfound
      obtain ⟨_, s₄, hblank, hoffset⟩ := Prog.of_bind_ok hfill
      cases hblank
      obtain ⟨off, s₅, hoff, hstore⟩ := Prog.of_bind_ok hoffset
      rw [openOffset, if_pos happend] at hoff
      obtain ⟨st, s₆, hstat, hsize⟩ :=
        Prog.of_bind_ok (Prog.of_onErr_ok fileClose_fail_ne hoff)
      cases hsize
      obtain ⟨k₂, hstat', rfl⟩ := Prog.of_zoom_ok hstat
      have hk₂ := vfsStat_run (some vn') k₁
      rw [hstat'] at hk₂
      obtain rfl : k₂ = k₁ := hk₂
      obtain ⟨_, s₇, hstored, hslot⟩ := Prog.of_bind_ok hstore
      cases hstored
      obtain ⟨fd', s₈, hfd, hlast⟩ := Prog.of_bind_ok hslot
      have hfd' := Prog.of_onErr_ok fileClose_fail_ne hfd
      unfold fdalloc at hfd'
      split at hfd'
      · cases hfd'
      · cases hfd'
        cases hlast
        refine ⟨f, st, hstat', ?_⟩
        exact
          { fs := rfl
            free := (Pool.firstFree_eq_some hfree).2
            used := by simp
            vnode := by simp
            off := by simp
            other := fun g hg => by simp [hg]
            ofile := by simp [Sys.setOfile] }

end Openat

section Run

/-- The vnode and its FAT32 node are entries in use. -/
def Kernel.Live (k : Kernel) (vn : Nat) : Prop :=
  k.vnodes.used vn = true ∧
    ((k.vnode vn).ops = some .fat32 → k.fatNodes.used (k.vnode vn).data = true)

/-- The kernel, the terminal, and the open files through which one file is
appended to. -/
structure AppendState where
  sys : Sys
  tty : Tty
  opens : List Nat

/-- One step of the processes that append to `file`, with the bytes it writes.  `P`
tells through which open files how much may be written. -/
inductive AppendStep (file : FileRef) (P : Sys → Nat → Nat → Prop) :
    AppendState → List UInt8 → AppendState → Prop
  | opened {σ : AppendState} {i path_ptr flags vn f : Nat} {path : CName} {k : Kernel} {fd : Int}
      {s : Sys} :
      σ.sys.current = some i → flags &&& oAppend ≠ 0 → flags &&& oTrunc = 0 →
      (copyinPath i path_ptr σ.sys).1 = .ok path →
      vfsLookupAt (σ.sys.procs i).cwd path σ.sys.fs = (.ok (some vn), k) →
      k.Live vn → k.Stands vn file → k.InSync vn file →
      sysOpenat atFdcwd path_ptr flags σ.sys = (.ok fd, s) →
      (s.procs i).ofile fd.toNat = some f →
      AppendStep file P σ [] ⟨s, σ.tty, f :: σ.opens⟩
  | wrote {σ : AppendState} {i fd f buf len : Nat} {data : List UInt8} {s : Sys} {tty : Tty} :
      σ.sys.current = some i → fd < nofile → (σ.sys.procs i).ofile fd = some f → f ∈ σ.opens →
      userBytes σ.sys.mm (σ.sys.procs i).pagetable (u64 buf) len = some data →
      P σ.sys f len →
      sysWrite fd buf len (σ.sys, σ.tty) = (.ok len, (s, tty)) →
      AppendStep file P σ data ⟨s, tty, σ.opens⟩
  -- other processes run, descriptors are copied and closed
  | other {σ σ' : AppendState} : σ'.sys.fs = σ.sys.fs →
      (∀ f ∈ σ'.opens, f ∈ σ.opens ∧ σ'.sys.files.used f = σ.sys.files.used f ∧
        (σ'.sys.files.slot f).vn = (σ.sys.files.slot f).vn ∧
        (σ'.sys.files.slot f).off = (σ.sys.files.slot f).off) →
      AppendStep file P σ [] σ'

/-- Any number of steps, with the bytes written in their order. -/
inductive AppendRun (file : FileRef) (P : Sys → Nat → Nat → Prop) :
    AppendState → List UInt8 → AppendState → Prop
  | nil (σ : AppendState) : AppendRun file P σ [] σ
  | step {σ σ' σ'' : AppendState} {data data' : List UInt8} : AppendRun file P σ data σ' →
      AppendStep file P σ' data' σ'' → AppendRun file P σ (data ++ data') σ''

/-- The position of the open file is the size of the file, and the file system can
record the size with `len` more bytes. -/
def AtEnd (file : FileRef) (s : Sys) (f len : Nat) : Prop :=
  ∀ w, s.fs.Contents file w →
    (s.files.slot f).off = w.length ∧ file.Fits (w.length + len)

/-- The file has the contents `w`, and an open file that stands at its end knows so. -/
structure Appendable (file : FileRef) (w : List UInt8) (σ : AppendState) : Prop where
  contents : σ.sys.fs.Contents file w
  opens : ∀ f ∈ σ.opens, σ.sys.files.used f = true ∧ ∃ vn,
    (σ.sys.files.slot f).vn = some vn ∧ σ.sys.fs.Live vn ∧ σ.sys.fs.Stands vn file ∧
      (σ.sys.files.slot f).off ≤ w.length ∧
      ((σ.sys.files.slot f).off = w.length → σ.sys.fs.InSync vn file)

variable {file : FileRef} {σ σ' : AppendState} {w data : List UInt8} {k k' : Kernel} {vn : Nat}

namespace LookedUp

theorem vnode_eq (h : LookedUp k k') (hlive : k.Live vn) : k'.vnode vn = k.vnode vn :=
  (h.vnode vn hlive.1).2

theorem fatNode_eq (h : LookedUp k k') (hlive : k.Live vn)
    (hops : (k.vnode vn).ops = some .fat32) : k'.fatNode vn = k.fatNode vn := by
  rw [Kernel.fatNode, h.vnode_eq hlive]
  exact (h.fatNode _ (hlive.2 hops)).2

theorem live (h : LookedUp k k') (hlive : k.Live vn) : k'.Live vn := by
  refine ⟨(h.vnode vn hlive.1).1, fun hops => ?_⟩
  rw [h.vnode_eq hlive] at hops ⊢
  exact (h.fatNode _ (hlive.2 hops)).1

theorem contents (h : LookedUp k k') (hc : k.Contents file w) : k'.Contents file w := by
  cases file with
  | ramfs n =>
      simp only [Kernel.Contents, h.ramNodes]
      exact hc
  | fat32 d i =>
      simp only [Kernel.Contents, h.vol]
      exact hc

theorem stands (h : LookedUp k k') (hlive : k.Live vn) (hs : k.Stands vn file) :
    k'.Stands vn file := by
  cases file with
  | ramfs n =>
      simp only [Kernel.Stands, h.vnode_eq hlive]
      exact hs
  | fat32 d i =>
      simp only [Kernel.Stands, h.vnode_eq hlive, h.fatNode_eq hlive hs.1, h.vol]
      exact hs

theorem inSync (h : LookedUp k k') (hlive : k.Live vn) (hs : k.Stands vn file)
    (hsync : k.InSync vn file) : k'.InSync vn file := by
  cases file with
  | ramfs n => trivial
  | fat32 d i =>
      simp only [Kernel.InSync, h.fatNode_eq hlive hs.1, h.vol]
      exact hsync

end LookedUp

/-- `vfs_stat` of a vnode in sync reports the size of the file. -/
theorem vfsStat_size {st : VfsStat} (hc : k.Contents file w) (hs : k.Stands vn file)
    (hsync : k.InSync vn file) (hstat : vfsStat (some vn) k = (.ok st, k)) :
    st.stSize = w.length := by
  cases file with
  | ramfs n =>
      rw [vfsStat, vfsDispatch, Prog.get_bind, hs.1] at hstat
      cases hstat
      have hsize := congrArg List.length hc.2
      rw [List.length_map, List.length_range, ← hs.2] at hsize
      exact hsize.symm
  | fat32 d i =>
      obtain ⟨l, m, raw, hfile⟩ := hc
      obtain ⟨l', raw', hl', hraw', _, hsize⟩ := hsync
      obtain rfl := hfile.geometry.chain_unique hfile.dir hl'
      rw [hfile.slot] at hraw'
      obtain rfl := Option.some.inj hraw'
      rw [vfsStat, vfsDispatch, Prog.get_bind, hs.1] at hstat
      cases hstat
      exact hsize.trans hfile.size

/-- A further open starts at the end of the file. -/
theorem Appendable.opened {i path_ptr flags f : Nat} {path : CName} {fd : Int} {s : Sys}
    (h : Appendable file w σ) (hcur : σ.sys.current = some i) (happend : flags &&& oAppend ≠ 0)
    (htrunc : flags &&& oTrunc = 0) (hpath : (copyinPath i path_ptr σ.sys).1 = .ok path)
    (hlook : vfsLookupAt (σ.sys.procs i).cwd path σ.sys.fs = (.ok (some vn), k))
    (hlive : k.Live vn) (hstands : k.Stands vn file) (hsync : k.InSync vn file)
    (hrun : sysOpenat atFdcwd path_ptr flags σ.sys = (.ok fd, s))
    (hfd : (s.procs i).ofile fd.toNat = some f) :
    Appendable file w ⟨s, σ.tty, f :: σ.opens⟩ := by
  have hlooked : LookedUp σ.sys.fs k :=
    (@vfsLookupAt_lookedUp σ.sys.fs _ _).ok (LookedUp.refl _) hlook
  obtain ⟨g, st, hstat, hopened⟩ := sysOpenat_append hcur happend htrunc hpath hlook hrun
  obtain rfl : f = g := Option.some.inj (hfd.symm.trans hopened.ofile)
  have hcontents := hlooked.contents h.contents
  have hsize := vfsStat_size hcontents hstands hsync hstat
  constructor
  · rw [hopened.fs]
    exact hcontents
  · intro g hg
    rw [hopened.fs]
    rcases List.mem_cons.mp hg with rfl | hg
    · refine ⟨hopened.used, vn, hopened.vnode, hlive, hstands, ?_, fun _ => hsync⟩
      rw [hopened.off, hsize]
    · obtain ⟨hused, vn', hvn, hlive', hstands', hle, hend⟩ := h.opens g hg
      have hne : g ≠ f := by
        rintro rfl
        rw [hopened.free] at hused
        cases hused
      obtain ⟨hused', hslot⟩ := hopened.other g hne
      rw [hused', hslot]
      exact ⟨hused, vn', hvn, hlooked.live hlive', hlooked.stands hlive' hstands', hle,
        fun heq => hlooked.inSync hlive' hstands' (hend heq)⟩

/-- `sys_write` through a descriptor that is open. -/
theorem sysWrite_file {s s' : Sys} {tty tty' : Tty} {i fd f buf len : Nat} {n : Int}
    (hcur : s.current = some i) (hlt : fd < nofile) (hfile : (s.procs i).ofile fd = some f)
    (hrun : sysWrite fd buf len (s, tty) = (.ok n, (s', tty'))) :
    sysWriteFile i f buf len s = (.ok n, s') := by
  rw [sysWrite_open hcur hlt hfile] at hrun
  obtain ⟨hr, hpair⟩ := Prod.mk.inj hrun
  exact Prod.ext hr (Prod.mk.inj hpair).1

/-- A write at the end of the file appends, and leaves the other opens behind. -/
theorem Appendable.wrote {i fd f buf len : Nat} {s : Sys} {tty : Tty}
    (h : Appendable file w σ) (hcur : σ.sys.current = some i) (hlt : fd < nofile)
    (hfile : (σ.sys.procs i).ofile fd = some f) (hmem : f ∈ σ.opens)
    (hdata : userBytes σ.sys.mm (σ.sys.procs i).pagetable (u64 buf) len = some data)
    (hend : AtEnd file σ.sys f len)
    (hrun : sysWrite fd buf len (σ.sys, σ.tty) = (.ok len, (s, tty))) :
    Appendable file (w ++ data) ⟨s, tty, σ.opens⟩ := by
  have hwrite := sysWrite_file hcur hlt hfile hrun
  obtain ⟨hoff, hfits⟩ := hend w h.contents
  have hlen := userBytes_length hdata
  by_cases hzero : len = 0
  · -- nothing is written, and the other opens may stand at the end as well
    subst hzero
    cases hwrite
    obtain rfl := List.length_eq_zero_iff.mp hlen
    rw [List.append_nil]
    exact ⟨h.contents, h.opens⟩
  obtain ⟨hused, vn, hvn, hlive, hstands, _, hsync⟩ := h.opens f hmem
  have hopen : OpenAtEnd σ.sys f vn file w := ⟨h.contents, hvn, hoff, hstands, hsync hoff⟩
  obtain ⟨data', hdata', happ⟩ := sysWriteFile_append hopen hfits hwrite
  obtain rfl : data = data' := Option.some.inj (hdata.symm.trans hdata')
  refine ⟨happ.contents, fun g hg => ?_⟩
  have hlive_of : ∀ vn', σ.sys.fs.Live vn' → s.fs.Live vn' := by
    intro vn' hlive'
    simp only [Kernel.Live, Kernel.vnode, happ.same.vnodes, happ.same.used]
    exact hlive'
  by_cases hgf : g = f
  · subst hgf
    have hslot := happ.slot
    have hused' : s.files.used g = σ.sys.files.used g := by
      rw [happ.state]
      rfl
    refine ⟨hused'.trans hused, vn, ?_, hlive_of vn hlive, happ.same.stands vn hstands, ?_,
      fun _ => happ.sync⟩
    · rw [hslot]
      exact hvn
    · rw [hslot, List.length_append]
  · obtain ⟨hused', vn', hvn', hlive', hstands', hle, _⟩ := h.opens g hg
    have hslot : s.files.slot g = σ.sys.files.slot g := by
      rw [happ.state]
      simp [hgf]
    have hsame : s.files.used g = σ.sys.files.used g := by
      rw [happ.state]
      rfl
    refine ⟨hsame.trans hused', vn', ?_, hlive_of vn' hlive', happ.same.stands vn' hstands', ?_, ?_⟩
    · rw [hslot]
      exact hvn'
    · rw [hslot, List.length_append]
      omega
    · intro heq
      rw [hslot, List.length_append] at heq
      omega

theorem Appendable.step (h : Appendable file w σ) (hstep : AppendStep file (AtEnd file) σ data σ') :
    Appendable file (w ++ data) σ' := by
  cases hstep with
  | opened hcur happend htrunc hpath hlook hlive hstands hsync hrun hfd =>
      rw [List.append_nil]
      exact h.opened hcur happend htrunc hpath hlook hlive hstands hsync hrun hfd
  | wrote hcur hlt hfile hmem hdata hend hrun =>
      exact h.wrote hcur hlt hfile hmem hdata hend hrun
  | other hfs hopens =>
      rw [List.append_nil]
      constructor
      · rw [hfs]
        exact h.contents
      · intro f hf
        obtain ⟨hmem, hused, hvn, hoff⟩ := hopens f hf
        rw [hused, hvn, hoff, hfs]
        exact h.opens f hmem

/-- As long as every write starts at the end of the file, the data of all writes
follows the old contents in the order of the writes. -/
theorem appendRun_contents {old : List UInt8} (hrun : AppendRun file (AtEnd file) σ data σ')
    (hnone : σ.opens = []) (hold : σ.sys.fs.Contents file old) :
    σ'.sys.fs.Contents file (old ++ data) := by
  have hinv : Appendable file (old ++ data) σ' := by
    induction hrun with
    | nil =>
        rw [List.append_nil]
        refine ⟨hold, fun f hf => ?_⟩
        rw [hnone] at hf
        cases hf
    | step _ hstep ih =>
        rw [← List.append_assoc]
        exact ih.step hstep
  exact hinv.contents

theorem atEnd_ramfs {s : Sys} {f n len : Nat}
    (h : (s.files.slot f).off = (s.fs.ramNodes.slot n).size) : AtEnd (.ramfs n) s f len := by
  intro w hc
  have hsize := congrArg List.length hc.2
  rw [List.length_map, List.length_range] at hsize
  exact ⟨h.trans hsize.symm, trivial⟩

end Run

section Found

variable {k k' : Kernel} {dir d vn : Nat} {l : List Nat} {name : CName} {hit : DirHit}

/-- The vnode that `fat32_lookup_op` makes for a regular file is in sync with it. -/
theorem fat32LookupOp_inSync (g : Geometry k.vol) (hdir : (k.fatNode dir).cluster = d)
    (hl : k.vol.Chain d l) (hfind : k.find l name = some hit) (hfile : hit.raw.isDir = false)
    (hrun : fat32LookupOp dir name k = (.ok vn, k')) :
    k'.Live vn ∧ k'.Stands vn (.fat32 d hit.entryIndex) ∧
      k'.InSync vn (.fat32 d hit.entryIndex) := by
  obtain ⟨_, hraw, hplace⟩ := Vol.listing_slot (List.mem_of_find?_eq_some hfind)
  rw [fat32LookupOp_eq g hdir hl, hfind] at hrun
  dsimp only at hrun
  rcases fat32OpenHit_cases dir d hit hit.name k with ⟨_, hopen⟩ | ⟨n, _, ⟨_, hopen⟩ | ⟨i, _, hopen⟩⟩
  · rw [hopen] at hrun
    cases hrun
  · rw [hopen] at hrun
    cases hrun
  · rw [hopen] at hrun
    cases hrun
    refine ⟨⟨by simp, fun _ => by simp [Kernel.vnode]⟩, ⟨by simp [Kernel.vnode], ?_, l, hl, ?_⟩,
      l, hit.raw, hl, hraw, ?_, ?_⟩
    · simp [Kernel.vnode, hfile]
    · simp only [Fat32Node.At, Kernel.fatNode, Kernel.vnode, Pool.take_slot, if_true, ← hplace]
      exact ⟨rfl, rfl⟩
    · simp [Kernel.fatNode, Kernel.vnode, DirHit.toNode]
    · simp [Kernel.fatNode, Kernel.vnode, DirHit.toNode]

end Found

section Example

/-- Memory with one page of a process behind three page tables: the path "f", and
the bytes "ab" at address 8. -/
def appendMem (a : Nat) : UInt8 :=
  if a = 4096 then 1 else if a = 4097 then 8
  else if a = 8192 then 1 else if a = 8193 then 12
  else if a = 12288 then 19 else if a = 12289 then 16
  else if a = 16384 then 102 else if a = 16392 then 97 else if a = 16393 then 98
  else 0

/-- A ramfs with the empty file "f". -/
def appendKernel : Kernel where
  vol := ⟨⟨fun _ _ => 0, fun _ => false⟩, ⟨0, 0, 0, 0, 0, 0, 0, 0, 0, 0, 0, 0⟩⟩
  fatNodes := ⟨fun _ => false, fun _ => ⟨0, 0, 0, 0, 0, 0, 0, 0⟩⟩
  vnodes := ⟨fun vn => vn == 0, fun _ => ⟨.dir, some .ramfs, 0, none, []⟩⟩
  ramNodes := ⟨fun n => n < 2, fun n =>
    if n = 0 then ⟨.dir, [], none, some 1, none, 0, fun _ => 0⟩
    else ⟨.file, [102], some 0, none, none, 0, fun _ => 0⟩⟩
  mounts := []
  root := some 0
  cwd := some 0

def appendSys : Sys where
  fs := appendKernel
  mm := ⟨appendMem, 0, 4096⟩
  files := ⟨fun _ => false, fun _ => ⟨0, false, false, 0, none⟩⟩
  procs _ := { Proc.zero with state := .running, pagetable := 4096, cwd := some 0 }
  current := some 0
  nextPid := 2
  image := ⟨0, 0⟩
  sstatus := 0

def appendTty : Tty := ⟨iCanon ||| ttyEcho, [], []⟩

/-- The file is opened with `O_WRONLY | O_APPEND`. -/
def openF (σ : AppendState) (f : Nat) : AppendState :=
  ⟨(sysOpenat atFdcwd 0 (oWronly ||| oAppend) σ.sys).2, σ.tty, f :: σ.opens⟩

/-- One byte from `buf` is written to the descriptor `fd`. -/
def writeF (σ : AppendState) (fd buf : Nat) : AppendState :=
  ⟨(sysWrite fd buf 1 (σ.sys, σ.tty)).2.1, (sysWrite fd buf 1 (σ.sys, σ.tty)).2.2, σ.opens⟩

def appendStart : AppendState := ⟨appendSys, appendTty, []⟩

/-- The second open comes behind the first write. -/
def inTurn : AppendState := writeF (openF (writeF (openF appendStart 0) 3 8) 1) 4 9

/-- Both opens come before the first write. -/
def atOnce : AppendState := writeF (writeF (openF (openF appendStart 0) 1) 3 8) 4 9

/-- An open of the file, from what is found and returned on the way. -/
theorem openF_step {P : Sys → Nat → Nat → Prop} {σ : AppendState} {f vn : Nat} {fd : Int}
    (hcur : σ.sys.current = some 0) (hpath : (copyinPath 0 0 σ.sys).1 = .ok [102])
    (hlook : (vfsLookupAt (σ.sys.procs 0).cwd [102] σ.sys.fs).1 = .ok (some vn))
    (hused : (vfsLookupAt (σ.sys.procs 0).cwd [102] σ.sys.fs).2.vnodes.used vn = true)
    (hops : ((vfsLookupAt (σ.sys.procs 0).cwd [102] σ.sys.fs).2.vnode vn).ops = some .ramfs)
    (hdata : ((vfsLookupAt (σ.sys.procs 0).cwd [102] σ.sys.fs).2.vnode vn).data = 1)
    (hrun : (sysOpenat atFdcwd 0 (oWronly ||| oAppend) σ.sys).1 = .ok fd)
    (hfd : (((openF σ f).sys.procs 0).ofile fd.toNat) = some f) :
    AppendStep (.ramfs 1) P σ [] (openF σ f) := by
  refine .opened hcur (by decide) (by decide) hpath (Prod.ext hlook rfl) ⟨hused, fun h => ?_⟩
    ⟨hops, hdata⟩ trivial (Prod.ext hrun rfl) hfd
  rw [hops] at h
  cases h

/-- A write of one byte, from what it reads and returns. -/
theorem writeF_step {P : Sys → Nat → Nat → Prop} {σ : AppendState} {fd f buf : Nat} {b : UInt8}
    (hcur : σ.sys.current = some 0) (hlt : fd < nofile) (hfile : (σ.sys.procs 0).ofile fd = some f)
    (hmem : f ∈ σ.opens)
    (hdata : userBytes σ.sys.mm (σ.sys.procs 0).pagetable (u64 buf) 1 = some [b])
    (hP : P σ.sys f 1) (hrun : (sysWrite fd buf 1 (σ.sys, σ.tty)).1 = .ok 1) :
    AppendStep (.ramfs 1) P σ [b] (writeF σ fd buf) :=
  .wrote hcur hlt hfile hmem hdata hP (Prod.ext hrun rfl)

theorem appendRun_contents_inTurn : inTurn.sys.fs.Contents (.ramfs 1) [97, 98] := by
  have hopen : AppendStep (.ramfs 1) (AtEnd (.ramfs 1)) appendStart [] (openF appendStart 0) :=
    @openF_step _ appendStart 0 1 3 rfl (by decide +kernel) (by decide +kernel)
      (by decide +kernel) (by decide +kernel) (by decide +kernel) (by decide +kernel)
      (by decide +kernel)
  have hwrite : AppendStep (.ramfs 1) (AtEnd (.ramfs 1)) (openF appendStart 0) [97]
      (writeF (openF appendStart 0) 3 8) :=
    @writeF_step _ (openF appendStart 0) 3 0 8 97 (by decide +kernel) (by decide)
      (by decide +kernel) (by decide +kernel) (by decide +kernel) (atEnd_ramfs (by decide +kernel))
      (by decide +kernel)
  have hopen' : AppendStep (.ramfs 1) (AtEnd (.ramfs 1)) (writeF (openF appendStart 0) 3 8) []
      (openF (writeF (openF appendStart 0) 3 8) 1) :=
    @openF_step _ (writeF (openF appendStart 0) 3 8) 1 2 4 (by decide +kernel) (by decide +kernel)
      (by decide +kernel) (by decide +kernel) (by decide +kernel) (by decide +kernel)
      (by decide +kernel) (by decide +kernel)
  have hwrite' : AppendStep (.ramfs 1) (AtEnd (.ramfs 1))
      (openF (writeF (openF appendStart 0) 3 8) 1) [98] inTurn :=
    @writeF_step _ (openF (writeF (openF appendStart 0) 3 8) 1) 4 1 9 98 (by decide +kernel)
      (by decide) (by decide +kernel) (by decide +kernel) (by decide +kernel)
      (atEnd_ramfs (by decide +kernel)) (by decide +kernel)
  have hrun := ((((AppendRun.nil appendStart).step hopen).step hwrite).step hopen').step hwrite'
  exact appendRun_contents hrun rfl ⟨rfl, rfl⟩

/-- With both opens at position zero, the second write replaces the byte of the first. -/
theorem appendRun_overwrites : ¬ ∀ (file : FileRef) (σ σ' : AppendState) (old data : List UInt8),
    AppendRun file (fun _ _ _ => True) σ data σ' → σ.opens = [] →
    σ.sys.fs.Contents file old → σ'.sys.fs.Contents file (old ++ data) := by
  intro hall
  have hopen : AppendStep (.ramfs 1) (fun _ _ _ => True) appendStart [] (openF appendStart 0) :=
    @openF_step _ appendStart 0 1 3 rfl (by decide +kernel) (by decide +kernel)
      (by decide +kernel) (by decide +kernel) (by decide +kernel) (by decide +kernel)
      (by decide +kernel)
  have hopen' : AppendStep (.ramfs 1) (fun _ _ _ => True) (openF appendStart 0) []
      (openF (openF appendStart 0) 1) :=
    @openF_step _ (openF appendStart 0) 1 2 4 (by decide +kernel) (by decide +kernel)
      (by decide +kernel) (by decide +kernel) (by decide +kernel) (by decide +kernel)
      (by decide +kernel) (by decide +kernel)
  have hwrite : AppendStep (.ramfs 1) (fun _ _ _ => True) (openF (openF appendStart 0) 1) [97]
      (writeF (openF (openF appendStart 0) 1) 3 8) :=
    @writeF_step _ (openF (openF appendStart 0) 1) 3 0 8 97 (by decide +kernel) (by decide)
      (by decide +kernel) (by decide +kernel) (by decide +kernel) trivial (by decide +kernel)
  have hwrite' : AppendStep (.ramfs 1) (fun _ _ _ => True)
      (writeF (openF (openF appendStart 0) 1) 3 8) [98] atOnce :=
    @writeF_step _ (writeF (openF (openF appendStart 0) 1) 3 8) 4 1 9 98 (by decide +kernel)
      (by decide) (by decide +kernel) (by decide +kernel) (by decide +kernel) trivial
      (by decide +kernel)
  have hrun := ((((AppendRun.nil appendStart).step hopen).step hopen').step hwrite).step hwrite'
  have hcontents := hall (.ramfs 1) appendStart atOnce [] _ hrun rfl ⟨rfl, rfl⟩
  have hsize := congrArg List.length hcontents.2
  rw [List.length_map, List.length_range] at hsize
  exact absurd hsize (by decide +kernel)

end Example

end OsAgentLab
