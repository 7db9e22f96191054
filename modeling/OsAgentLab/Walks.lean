/-
Invariants of walks along paths.  What holds where a walk starts, at the parent of a
vnode, and at a child behind the mounts, holds wherever a call by path can get to.
-/
import OsAgentLab.Vnodes

namespace OsAgentLab

/-- A name that a resolver looks up. -/
structure IsComponent (name : CName) : Prop where
  ne_nil : name ≠ []
  noSlash : 47 ∉ name
  short : name.length ≤ 255
  ne_dot : name ≠ dotName
  ne_dotDot : name ≠ dotDotName

/-- A component is a name to look up, or one of the two that the resolvers handle. -/
def PathName (name : CName) : Prop := name ≠ dotName → name ≠ dotDotName → IsComponent name

/-- `I` holds between two calls, and `At vn` while a walk stands on `vn`. -/
structure WalkInvariant (I : Kernel → Prop) (At : Nat → Kernel → Prop) : Prop where
  rest : ∀ {vn : Nat} {k : Kernel}, At vn k → I k
  used : ∀ {vn : Nat} {k : Kernel}, At vn k → k.vnodes.used vn = true
  under : ∀ vn, TakesUnder vn (At vn)
  root : ∀ {vn : Nat} {k : Kernel}, I k → k.root = some vn → At (vfsFollowMounts k vn k.mounts) k
  cwd : ∀ {vn : Nat} {k : Kernel}, I k → k.cwd = some vn → At (vfsFollowMounts k vn k.mounts) k
  parent : ∀ {dir p : Nat} {k : Kernel}, At dir k → (k.vnode dir).parent = some p → At p k
  child : ∀ {dir vn : Nat} {name : CName} {k : Kernel}, At dir k → (k.vnode dir).type = .dir →
    IsComponent name → ChildOf dir name vn k → At (vfsFollowMounts k vn k.mounts) k

/-- The place of a walk, or a null pointer once the vnodes have run out. -/
def Standing (I : Kernel → Prop) (At : Nat → Kernel → Prop) (cur : Option Nat) (k : Kernel) : Prop :=
  cur.elim (I k ∧ NoVnode k) fun vn => At vn k

section Components

variable {path name rest : CName}

theorem dropSlashes_head {c : UInt8} {tail : CName} (h : path.dropWhile (· = 47) = c :: tail) :
    c ≠ 47 := by
  induction path with
  | nil => cases h
  | cons b path ih =>
      by_cases hb : b = 47
      · rw [List.dropWhile_cons_of_pos (by simpa using hb)] at h
        exact ih h
      · rw [List.dropWhile_cons_of_neg (by simpa using hb)] at h
        cases h
        exact hb

theorem mem_takeWhile_ne {c : UInt8} {l : CName} (h : c ∈ l.takeWhile (· ≠ 47)) : c ≠ 47 := by
  simpa using List.mem_takeWhile_imp h

theorem pathNext_name (h : pathNext path = some (name, rest)) : PathName name := by
  rw [pathNext] at h
  cases hdrop : path.dropWhile (· = 47) with
  | nil =>
      rw [hdrop] at h
      cases h
  | cons c tail =>
      rw [hdrop] at h
      have hc := dropSlashes_head hdrop
      simp only [Option.some.injEq, Prod.mk.injEq] at h
      obtain ⟨rfl, _⟩ := h
      intro hdot hdotDot
      refine ⟨?_, fun hslash => ?_, List.length_take_le _ _, hdot, hdotDot⟩
      · rw [List.takeWhile_cons_of_pos (by simpa using hc)]
        exact List.cons_ne_nil _ _
      · exact mem_takeWhile_ne (List.mem_of_mem_take hslash) rfl

/-- What the resolvers get from `path_next`. -/
theorem pathComponents_name (path : CName) : ∀ name ∈ pathComponents path, PathName name := by
  suffices hloop : ∀ fuel path, ∀ name ∈ pathComponentsLoop fuel path, PathName name from
    hloop _ path
  intro fuel
  induction fuel with
  | zero => exact fun path name h => by cases h
  | succ fuel ih =>
      intro path name h
      rw [pathComponentsLoop] at h
      cases hnext : pathNext path with
      | none =>
          rw [hnext] at h
          cases h
      | some r =>
          obtain ⟨first, rest⟩ := r
          rw [hnext] at h
          rcases List.mem_cons.mp h with rfl | h
          · exact pathNext_name hnext
          · exact ih rest name h

end Components

section Rules

variable {I : Kernel → Prop} {At : Nat → Kernel → Prop} {dir : Nat} {name : CName}

theorem TakesUnder.and {J : Kernel → Prop} (h : TakesUnder dir I) (h' : TakesUnder dir J) :
    TakesUnder dir fun k => I k ∧ J k where
  frame hk hv hm hr hc hn := ⟨h.frame hk.1 hv hm hr hc hn, h'.frame hk.2 hv hm hr hc hn⟩
  take hk hi hparent hdata := ⟨h.take hk.1 hi hparent hdata, h'.take hk.2 hi hparent hdata⟩

/-- A vnode in use stays as it is. -/
theorem takesUnder_vnode (vn : Nat) (vnode : Vnode) :
    TakesUnder dir fun k => k.vnodes.used vn = true ∧ k.vnode vn = vnode where
  frame := by
    intro k k' hk hv _ _ _ _
    exact ⟨hv ▸ hk.1, (congrArg (fun p => p.slot vn) hv).trans hk.2⟩
  take := by
    intro k i v hk hi _ _
    have hne : vn ≠ i := by
      rintro rfl
      rw [hi] at hk
      cases hk.1
    exact ⟨by simp [hk.1], by simpa [Kernel.vnode, hne] using hk.2⟩

theorem deref_some_bind {α : Type} (vn : Nat) (f : Nat → Kern α) :
    (deref (some vn) >>= f) = f vn := rfl

/-- One component that is looked up: what holds at a child with the mounts followed holds at
the next place. -/
theorem vfsEnter_child {P : Kernel → Prop} {Q : Nat → Kernel → Prop} (parents : Bool)
    (hunder : TakesUnder dir P) (hused : ∀ k, P k → k.vnodes.used dir = true)
    (hdot : name ≠ dotName) (hdotDot : name ≠ dotDotName)
    (hchild : ∀ vn k, P k → (k.vnode dir).type = .dir → ChildOf dir name vn k →
      Q (vfsFollowMounts k vn k.mounts) k) :
    Prog.Triple P (vfsEnter parents (some dir) name)
      (fun next k => next.elim (P k ∧ NoVnode k) fun vn => Q vn k) (fun _ => P) P := by
  rw [vfsEnter, if_neg hdot, deref_some_bind]
  refine Prog.Triple.get_bind fun t ht => ?_
  rw [if_neg hdotDot]
  have hfix : ∀ s, s = t → P s := fun s hs => hs ▸ ht
  cases htype : (t.vnode dir).type with
  | file => exact Prog.Triple.fail hfix
  | dir =>
      cases (t.vnode dir).ops with
      | none => exact Prog.Triple.fail hfix
      | some ops =>
          let P' : Kernel → Prop := fun k =>
            P k ∧ k.vnodes.used dir = true ∧ k.vnode dir = t.vnode dir
          have htakes : TakesUnder dir P' := hunder.and (takesUnder_vnode dir (t.vnode dir))
          have hpre : ∀ s, s = t → P' s := by
            rintro s rfl
            exact ⟨ht, hused s ht, rfl⟩
          -- what a lookup or a mkdir delivers, with the mounts followed
          have hlast : ∀ next k, P' k → Delivered dir name next k →
              (vfsFollowMount k next).elim (P k ∧ NoVnode k) fun vn => Q vn k := by
            intro next k hk hnext
            cases next with
            | none => exact ⟨hk.1, hnext⟩
            | some vn => exact hchild vn k hk.1 (hk.2.2 ▸ htype) hnext
          refine (@Prog.Triple.bind _ _ _ _ _ _ _ _
            (fun r k => P' k ∧ ∀ next, r = .ok next → Delivered dir name next k) _ _ ?_
            fun r => ?_).pre hpre
          · refine Prog.Triple.attempt ((vnodeLookup_child htakes ops name).conseq (fun _ => id)
              (fun next s hs => ⟨hs.1, ?_⟩) (fun e s hs => ⟨hs, ?_⟩) fun s hs => hs.1)
            · rintro _ ⟨⟩
              exact hs.2
            · rintro _ ⟨⟩
          cases r with
          | ok next =>
              refine Prog.Triple.get_bind fun u hu => Prog.Triple.pure fun s hs => ?_
              subst hs
              exact hlast next s hu.1 (hu.2 next rfl)
          | error e =>
              refine Prog.Triple.ite (fun _ => ?_) fun _ => Prog.Triple.fail fun s hs => hs.1.1
              refine Prog.Triple.bind ((vnodeMkdir_child htakes ops name true).conseq
                (fun s hs => hs.1) (fun _ _ => id) (fun _ s hs => hs.1) fun s hs => hs.1)
                fun next => ?_
              refine Prog.Triple.get_bind fun u hu => Prog.Triple.pure fun s hs => ?_
              subst hs
              exact hlast next s hu.1 (hu.2 rfl)

namespace WalkInvariant

variable {cur cwd : Option Nat} (w : WalkInvariant I At)

include w

theorem standing_rest {k : Kernel} (h : Standing I At cur k) : I k := by
  cases cur with
  | none => exact h.1
  | some vn => exact w.rest h

theorem enter (parents : Bool) (cur : Option Nat) (hname : PathName name) :
    Prog.Triple (Standing I At cur) (vfsEnter parents cur name) (Standing I At) (fun _ => I) I := by
  by_cases hdot : name = dotName
  · rw [vfsEnter, if_pos hdot]
    exact Prog.Triple.pure fun _ hk => hk
  cases cur with
  | none =>
      rw [vfsEnter, if_neg hdot]
      exact fun k hk => hk.1
  | some dir =>
      by_cases hdotDot : name = dotDotName
      · rw [vfsEnter, if_neg hdot, deref_some_bind]
        refine Prog.Triple.get_bind fun t ht => ?_
        rw [if_pos hdotDot]
        cases hparent : (t.vnode dir).parent with
        | none => exact Prog.Triple.pure fun s hs => hs ▸ ht
        | some p => exact Prog.Triple.pure fun s hs => hs ▸ w.parent ht hparent
      · exact (vfsEnter_child parents (w.under dir) (fun _ => w.used) hdot hdotDot
          fun vn k hk htype hchild => w.child hk htype (hname hdot hdotDot) hchild).conseq
          (fun _ => id) (fun next k hk => by
            cases next with
            | none => exact ⟨w.rest hk.1, hk.2⟩
            | some vn => exact hk) (fun _ _ hk => w.rest hk) fun _ hk => w.rest hk

theorem walk {names : List CName} (hnames : ∀ name ∈ names, PathName name) (cur : Option Nat) :
    Prog.Triple (Standing I At cur) (vfsWalk cur names) (Standing I At) (fun _ => I) I := by
  induction names generalizing cur with
  | nil => exact Prog.Triple.pure fun _ hk => hk
  | cons name rest ih =>
      exact Prog.Triple.bind (w.enter false cur (hnames name List.mem_cons_self)) fun next =>
        ih (fun name hname => hnames name (List.mem_cons_of_mem _ hname)) next

theorem walkParent (parents : Bool) {names : List CName}
    (hnames : ∀ name ∈ names, PathName name) (cur : Option Nat) :
    Prog.Triple (Standing I At cur) (vfsWalkParent parents cur names)
      (fun r => Standing I At r.1) (fun _ => I) I := by
  induction names generalizing cur with
  | nil => exact Prog.Triple.fail fun _ hk => w.standing_rest hk
  | cons name rest ih =>
      cases rest with
      | nil => exact Prog.Triple.pure fun _ hk => hk
      | cons next rest =>
          exact Prog.Triple.bind (w.enter parents cur (hnames name List.mem_cons_self)) fun cur =>
            ih (fun name hname => hnames name (List.mem_cons_of_mem _ hname)) cur

/-- The call may be made relative to `cwd`. -/
def CwdAt (I : Kernel → Prop) (At : Nat → Kernel → Prop) (cwd : Option Nat) : Prop :=
  ∀ vn, cwd = some vn → ∀ k, I k → At (vfsFollowMounts k vn k.mounts) k

theorem start (hcwd : CwdAt I At cwd) (path : CName) :
    Prog.Triple I (vfsStart cwd path) (Standing I At) (fun _ => I) I := by
  intro k hk
  by_cases habsolute : path.head? = some 47
  · simp only [vfsStart, if_pos habsolute]
    cases hroot : k.root with
    | none => exact hk
    | some vn => exact w.root hk hroot
  · simp only [vfsStart, if_neg habsolute]
    cases cwd with
    | some vn => exact hcwd vn rfl k hk
    | none =>
        cases hglobal : k.cwd with
        | none => exact hk
        | some vn => exact w.cwd hk hglobal

theorem lookupAt (hcwd : CwdAt I At cwd) (path : CName) :
    Prog.Triple I (vfsLookupAt cwd path) (Standing I At) (fun _ => I) I :=
  Prog.Triple.bind (w.start hcwd path) fun start => w.walk (pathComponents_name path) start

theorem resolveParentAt (hcwd : CwdAt I At cwd) (path : CName) (parents : Bool) :
    Prog.Triple I (vfsResolveParentAt cwd path parents) (fun r => Standing I At r.1) (fun _ => I) I :=
  Prog.Triple.bind (w.start hcwd path) fun start =>
    w.walkParent parents (pathComponents_name path) start

/-- The last step of a create, a mkdir or an unlink, in the directory that was resolved. -/
theorem inParent {α : Type} {op : FsOps → Nat → CName → Kern α} (cur : Option Nat) (name : CName)
    (hop : ∀ {dir : Nat} {J : Kernel → Prop}, TakesUnder dir J → ∀ ops name,
      Prog.Keeps J (op ops dir name)) :
    Prog.Triple (Standing I At cur) (if name = [] then Prog.fail .inval
      else do
        let parent ← deref cur
        let k ← Prog.get
        match (k.vnode parent).ops with
        | none => Prog.fail .nosys
        | some ops => op ops parent name) (fun _ => I) (fun _ => I) I := by
  refine Prog.Triple.ite (fun _ => Prog.Triple.fail fun s hs => w.standing_rest hs) fun _ => ?_
  cases cur with
  | none => exact fun k hk => hk.1
  | some dir =>
      rw [deref_some_bind]
      refine Prog.Triple.get_bind fun t ht => ?_
      cases (t.vnode dir).ops with
      | none => exact Prog.Triple.fail fun s hs => hs ▸ w.rest ht
      | some ops =>
          exact (hop (w.under dir) ops name).conseq (fun s hs => hs ▸ ht) (fun _ _ => w.rest)
            (fun _ _ => w.rest) fun _ => w.rest

theorem makeAt {make : FsOps → Nat → CName → Bool → Kern (Option Nat)}
    (hmake : ∀ {dir : Nat} {J : Kernel → Prop}, TakesUnder dir J → ∀ ops name out,
      Prog.Keeps J (make ops dir name out))
    (hcwd : CwdAt I At cwd) (path : CName) (out : Bool) :
    Prog.Keeps I (vfsMakeAt make cwd path out) :=
  Prog.Triple.bind (w.resolveParentAt hcwd path true) fun r =>
    w.inParent r.1 r.2 fun h ops name => hmake h ops name out

/-- `vfs_create_at` and `vfs_mkdir_at` look the path up and go on by the result. -/
theorem lookupThen (hcwd : CwdAt I At cwd) (path : CName)
    {f : Except Errno (Option Nat) → Kern (Option Nat)} (hf : ∀ r, Prog.Keeps I (f r)) :
    Prog.Keeps I (Prog.attempt (vfsLookupAt cwd path) >>= f) := by
  have hlookup : Prog.Keeps I (vfsLookupAt cwd path) :=
    (w.lookupAt hcwd path).post fun _ _ hk => w.standing_rest hk
  exact Prog.Keeps.bind hlookup.attempt hf

theorem createAt (hcwd : CwdAt I At cwd) (path : CName) (out : Bool) :
    Prog.Keeps I (vfsCreateAt cwd path out) := by
  refine w.lookupThen hcwd path fun r => ?_
  cases r with
  | ok vn =>
      cases vn with
      | none => exact Prog.Keeps.crash
      | some vn =>
          exact Prog.Keeps.bind (Prog.Keeps.pure vn) fun vn => Prog.Keeps.get_bind fun t =>
            Prog.Keeps.ite (Prog.Keeps.fail _) (Prog.Keeps.pure _)
  | error e =>
      cases e with
      | noent =>
          exact w.makeAt (fun h ops name out =>
            (vnodeCreate_child h ops name out).post fun _ _ hk => hk.1) hcwd path out
      | _ => exact Prog.Keeps.fail _

theorem mkdirAt (hcwd : CwdAt I At cwd) (path : CName) (out : Bool) :
    Prog.Keeps I (vfsMkdirAt cwd path out) := by
  refine w.lookupThen hcwd path fun r => ?_
  cases r with
  | ok vn =>
      cases vn with
      | none => exact Prog.Keeps.crash
      | some vn =>
          exact Prog.Keeps.bind (Prog.Keeps.pure vn) fun vn => Prog.Keeps.get_bind fun t =>
            Prog.Keeps.ite (Prog.Keeps.pure _) (Prog.Keeps.fail _)
  | error e =>
      cases e with
      | noent =>
          exact w.makeAt (fun h ops name out =>
            (vnodeMkdir_child h ops name out).post fun _ _ hk => hk.1) hcwd path out
      | _ => exact Prog.Keeps.fail _

theorem unlinkAt (hcwd : CwdAt I At cwd) (path : CName) :
    Prog.Keeps I (vfsUnlinkAt cwd path) :=
  Prog.Triple.bind (w.resolveParentAt hcwd path false) fun r =>
    w.inParent r.1 r.2 fun h ops name => vnodeUnlink_keeps h ops _ name

end WalkInvariant

end Rules

end OsAgentLab
