/-
The name of the current directory: `vfs_getcwd_at` reads it off the parent pointers, and a
lookup of it leads back when every directory on the way is still found under its name.
-/
import OsAgentLab.Found

namespace OsAgentLab

/-- The first loop of `vfs_getcwd_at`: the names from `cur` up to the root, as many as the
stack takes. -/
def getcwdStack (k : Kernel) : Nat → Option Nat → List CName
  | 0, _ => []
  | _ + 1, none => []
  | depth + 1, some vn =>
      if k.root = some vn then []
      else (k.vnode vn).name :: getcwdStack k depth (k.vnode vn).parent

/-- The second loop: the names behind what is in the buffer, with slashes between them. -/
def getcwdJoin (len : Nat) : List CName → CName → Except Errno CName
  | [], buf => .ok buf
  | name :: rest, buf =>
      if len ≤ buf.length + name.length + 1 then .error .range
      else getcwdJoin len rest (if rest = [] then buf ++ name else buf ++ name ++ [47])

/-- `vfs_getcwd_at` with a buffer of `len` bytes: the string stored, without its NUL. -/
def vfsGetcwdAt (cwd : Option Nat) (len : Nat) : Kern CName := fun k =>
  if len = 0 then (.err .inval, k)
  else
    match cwd.or k.cwd, k.root with
    | some vn, some root =>
        let stack := getcwdStack k 16 (some vn)
        if vn = root ∨ stack = [] then
          if len < 2 then (.err .range, k) else (.ok [47], k)
        else
          match getcwdJoin len stack.reverse [47] with
          | .ok path => (.ok path, k)
          | .error e => (.err e, k)
    | _, _ => (.err .noent, k)

/-- The absolute path made of `names`. -/
def pathString (names : List CName) : CName :=
  if names = [] then [47] else (names.map fun name => 47 :: name).flatten

/-- The innermost names, as many as `vfs_getcwd_at` keeps. -/
def innerNames (names : List CName) : List CName := (names.reverse.take 16).reverse

variable {k k' : Kernel} {vn d f : Nat} {names : List CName} {name : CName}

section Join

theorem getcwdJoin_eq {len : Nat} (first : CName) (rest : List CName) (buf : CName) :
    getcwdJoin len (first :: rest) buf =
      if len ≤ (buf ++ first ++ (rest.map fun name => 47 :: name).flatten).length + 1 then
        .error .range
      else .ok (buf ++ first ++ (rest.map fun name => 47 :: name).flatten) := by
  induction rest generalizing first buf with
  | nil =>
      rw [getcwdJoin, if_pos rfl, getcwdJoin]
      simp
  | cons next rest ih =>
      rw [getcwdJoin, if_neg (List.cons_ne_nil _ _), ih]
      have hlist : buf ++ first ++ [47] ++ next ++ (rest.map fun name => 47 :: name).flatten =
          buf ++ first ++ ((next :: rest).map fun name => 47 :: name).flatten := by simp
      rw [hlist]
      by_cases hearly : len ≤ buf.length + first.length + 1
      · have hlen : len ≤ (buf ++ first ++
            ((next :: rest).map fun name => 47 :: name).flatten).length + 1 := by
          rw [List.length_append, List.length_append]
          omega
        rw [if_pos hearly, if_pos hlen]
      · rw [if_neg hearly]

/-- The second loop fails as soon as the path and two more bytes do not fit. -/
theorem getcwdJoin_path {len : Nat} (hne : names ≠ []) :
    getcwdJoin len names [47] =
      if len ≤ (pathString names).length + 1 then .error .range else .ok (pathString names) := by
  cases names with
  | nil => exact absurd rfl hne
  | cons first rest =>
      have hpath : pathString (first :: rest) =
          [47] ++ first ++ (rest.map fun name => 47 :: name).flatten := by simp [pathString]
      rw [getcwdJoin_eq, hpath]

/-- The stack holds the names of the path, innermost first. -/
theorem getcwdStack_path (h : PathOf k vn names) (depth : Nat) :
    getcwdStack k depth (some vn) = names.reverse.take depth := by
  induction h generalizing depth with
  | root hroot _ =>
      cases depth with
      | zero => rfl
      | succ depth => simp [getcwdStack, hroot]
  | child hp hparent _ hroot _ _ ih =>
      cases depth with
      | zero => rfl
      | succ depth =>
          rw [getcwdStack, if_neg hroot, hparent, ih, List.reverse_append]
          rfl

theorem innerNames_ne_nil (hne : names ≠ []) : innerNames names ≠ [] := by
  intro hnil
  have hlen := congrArg List.length hnil
  simp only [innerNames, List.length_reverse, List.length_take, List.length_nil] at hlen
  have hpos := List.length_pos_iff.mpr hne
  omega

/-- What `vfs_getcwd_at` returns for a vnode with a path. -/
theorem vfsGetcwdAt_path (h : PathOf k d names) {r : Nat} (hroot : k.root = some r) {len : Nat}
    (hlen : 0 < len) :
    vfsGetcwdAt (some d) len k =
      if names = [] then (if len < 2 then (.err .range, k) else (.ok [47], k))
      else if len ≤ (pathString (innerNames names)).length + 1 then (.err .range, k)
      else (.ok (pathString (innerNames names)), k) := by
  have hstack := getcwdStack_path h 16
  rw [vfsGetcwdAt, if_neg (by omega)]
  simp only [Option.some_or, hroot, hstack]
  by_cases hnil : names = []
  · rw [if_pos (Or.inr (by simp [hnil])), if_pos hnil]
  · have hinner := innerNames_ne_nil hnil
    have hnot : ¬ (d = r ∨ names.reverse.take 16 = []) := by
      rintro (rfl | htake)
      · exact hnil (h.eq_nil_iff.mpr hroot)
      · exact hinner (by rw [innerNames, htake]; rfl)
    have hreverse : (names.reverse.take 16).reverse = innerNames names := rfl
    rw [if_neg hnot, if_neg hnil, hreverse, getcwdJoin_path hinner]
    by_cases hfits : len ≤ (pathString (innerNames names)).length + 1
    · rw [if_pos hfits, if_pos hfits]
    · rw [if_neg hfits, if_neg hfits]

end Join

section Components

theorem IsComponent.slashless (h : IsComponent name) : ∀ c ∈ name, c ≠ 47 :=
  fun _ hc heq => h.noSlash (heq ▸ hc)

theorem pathComponents_single (h : IsComponent name) : pathComponents name = [name] := by
  have hnext : pathNext name = some (name, []) := by
    cases name with
    | nil => exact absurd rfl h.ne_nil
    | cons c rest =>
        have hc : c ≠ 47 := h.slashless c List.mem_cons_self
        have hkeep : (c :: rest).dropWhile (· = 47) = c :: rest :=
          List.dropWhile_cons_of_neg (by simpa using hc)
        have hall : ∀ b ∈ c :: rest, (decide (b ≠ 47)) = true :=
          fun b hb => by simpa using h.slashless b hb
        rw [pathNext, hkeep]
        simp only [List.takeWhile_eq_self_iff.mpr hall, List.dropWhile_eq_nil_iff.mpr hall,
          List.take_of_length_le h.short]
  rw [pathComponents_some hnext]
  rfl

/-- A leading slash is no component. -/
theorem pathComponents_slash (path : CName) : pathComponents (47 :: path) = pathComponents path :=
  pathComponents_append [] path

theorem pathComponents_flatten (h : ∀ name ∈ names, IsComponent name) :
    pathComponents (names.map fun name => 47 :: name).flatten = names := by
  induction names with
  | nil => rfl
  | cons first rest ih =>
      have hfirst := pathComponents_single (h first List.mem_cons_self)
      have hrest := ih fun name hname => h name (List.mem_cons_of_mem _ hname)
      rw [List.map_cons, List.flatten_cons, List.cons_append, pathComponents_slash]
      cases rest with
      | nil => simpa using hfirst
      | cons next rest =>
          rw [List.map_cons, List.flatten_cons, List.cons_append] at hrest ⊢
          rw [pathComponents_slash] at hrest
          rw [pathComponents_append, hfirst, hrest]
          rfl

/-- A lookup of the path of `names` goes through `names`. -/
theorem pathComponents_pathString (h : ∀ name ∈ names, IsComponent name) :
    pathComponents (pathString names) = names := by
  unfold pathString
  split
  · rename_i hnil
    rw [hnil]
    rfl
  · exact pathComponents_flatten h

theorem pathString_head (names : List CName) : (pathString names).head? = some 47 := by
  cases names with
  | nil => rfl
  | cons first rest => rfl

end Components

section Walk

/-- Every directory on the way from the root to `vn` still finds the next one under its
name; `f` of the lookups are on FAT32. -/
inductive StillThere (k : Kernel) : Nat → Nat → Prop
  | root {r : Nat} (hroot : k.root = some r) : StillThere k r 0
  | child {p vn f : Nat} (hp : StillThere k p f) (hparent : (k.vnode vn).parent = some p)
      (hroot : k.root ≠ some vn) (hentry : EntryOf k p vn) :
      StillThere k vn (f + fatStep k p)

theorem StillThere.root_some (h : StillThere k vn f) : ∃ r, k.root = some r := by
  induction h with
  | root hroot => exact ⟨_, hroot⟩
  | child _ _ _ _ ih => exact ih

theorem StillThere.of_root (h : StillThere k vn f) (hroot : k.root = some vn) : f = 0 := by
  cases h with
  | root _ => rfl
  | child _ _ hne _ => exact absurd hroot hne

theorem PathOf.components (h : PathOf k vn names) : ∀ name ∈ names, IsComponent name := by
  induction h with
  | root _ _ => exact fun name hname => by cases hname
  | child _ _ _ _ _ hcomponent ih =>
      intro name hname
      rcases List.mem_append.mp hname with hname | hname
      · exact ih name hname
      · cases List.mem_singleton.mp hname
        exact hcomponent

theorem vfsWalk_single (cur : Option Nat) (name : CName) :
    vfsWalk cur [name] = vfsEnter false cur name := by
  funext k
  rw [vfsWalk]
  simp only [bind]
  cases vfsEnter false cur name k with
  | mk r k' => cases r <;> rfl

/-- A walk that delivers a vnode keeps what walks keep. -/
theorem vfsWalk_naming (hn : Named k) {r w : Nat} (hroot : k.root = some r)
    (hnames : ∀ name ∈ names, IsComponent name)
    (hrun : vfsWalk (some r) names k = (.ok (some w), k')) :
    Named k' ∧ ∃ names', PathOf k' w names' := by
  have hstart : Naming [r] k :=
    Naming.cons ⟨hn, fun _ h => by cases h⟩ ⟨_, .root hroot (hn.root r hroot).1⟩
  have hlast := ((naming_walks []).walk (fun name hname _ _ => hnames name hname) (some r)).ok
    hstart hrun
  exact ⟨hlast.named, Naming.head hlast⟩

/-- A walk along the path of `vn` comes to a vnode of the same directory, exactly when the
tables have room for the vnodes on the way. -/
theorem vfsWalk_back (hn : Named k) (hm : Mounted k) (hstill : StillThere k vn f)
    (hpath : PathOf k vn names) (hstable : Stable k vn) {r : Nat} (hroot : k.root = some r) :
    (RoomFor k names.length f → ∃ w k', vfsWalk (some r) names k = (.ok (some w), k') ∧
      Reaches k k' vn w ∧
      k'.vnodes.room vnodePoolSize + names.length = k.vnodes.room vnodePoolSize ∧
      k'.fatNodes.room fat32NodePoolSize + f = k.fatNodes.room fat32NodePoolSize) ∧
    (¬ RoomFor k names.length f → ∀ w k', vfsWalk (some r) names k ≠ (.ok (some w), k')) := by
  induction hstill generalizing names with
  | @root vn hvn =>
      cases hroot.symm.trans hvn
      cases hpath.eq_nil_iff.mpr hvn
      refine ⟨fun _ => ⟨r, k, rfl, ⟨Walked.refl k, hn, .refl r, _, hpath⟩, rfl, rfl⟩,
        fun hroom => absurd ⟨Nat.zero_le _, Nat.zero_le _⟩ hroom⟩
  | @child p vn f hp hparent hne hentry ih =>
      have hcomponents := hpath.components
      cases hpath with
      | root hr _ => exact absurd hr hne
      | @child _ _ before hpathP hparent' htype _ hused hcomponent =>
          cases hparent.symm.trans hparent'
          obtain ⟨hyes, hno⟩ := ih hpathP (hm.parent vn p hused hparent)
          have hbelow : Below k p vn :=
            ⟨hn, hstable, hparent, ⟨_, hpathP⟩, htype, hne, hcomponent, hentry⟩
          rw [vfsWalk_append, List.length_append, List.length_singleton]
          constructor
          · intro hroom
            obtain ⟨w, k₁, hrun, hreaches, hvroom, hfroom⟩ :=
              hyes ⟨by have := hroom.1; omega, by have := hroom.2; omega⟩
            have hstep : RoomFor k₁ 1 (fatStep k p) :=
              ⟨by have := hroom.1; omega, by have := hroom.2; omega⟩
            obtain ⟨w', k₂, hrun', hwalked, hsame, hvroom', hfroom'⟩ :=
              (hreaches.enter hbelow).1 hstep
            have hall : vfsWalk (some r) (before ++ [(k.vnode vn).name]) k = (.ok (some w'), k₂) := by
              rw [vfsWalk_append, Prog.bind_ok hrun, vfsWalk_single, hrun']
            obtain ⟨hnamed, hpath'⟩ := vfsWalk_naming hn hroot hcomponents hall
            refine ⟨w', k₂, ?_, ⟨hreaches.walked.trans hwalked, hnamed, hsame, hpath'⟩, by omega,
              by omega⟩
            rw [Prog.bind_ok hrun, vfsWalk_single, hrun']
          · intro hroom w k' hrun
            obtain ⟨c, k₁, hfirst, hlast⟩ := Prog.of_bind_ok hrun
            rw [vfsWalk_single] at hlast
            cases c with
            | none =>
                rw [vfsEnter, if_neg hcomponent.ne_dot] at hlast
                cases hlast
            | some c =>
                by_cases hbefore : RoomFor k before.length f
                · obtain ⟨w₁, k₂, hrun₁, hreaches, hvroom, hfroom⟩ := hyes hbefore
                  cases hfirst.symm.trans hrun₁
                  refine (hreaches.enter hbelow).2 (fun hstep => hroom ?_) w k' hlast
                  exact ⟨by have := hstep.1; omega, by have := hstep.2; omega⟩
                · exact hno hbefore c k₁ hfirst

/-- A lookup of the path of `vn` starts at the root. -/
theorem vfsLookupAt_path (hm : Mounted k) (hpath : PathOf k vn names) {r : Nat}
    (hroot : k.root = some r) (cwd : Option Nat) :
    vfsLookupAt cwd (pathString names) k = vfsWalk (some r) names k := by
  have hstart : vfsStart cwd (pathString names) k = (.ok (some r), k) := by
    simp only [vfsStart, if_pos (pathString_head names), hroot, vfsFollowMount,
      (hm.root r hroot).fixed]
  rw [vfsLookupAt, Prog.bind_ok hstart, pathComponents_pathString hpath.components]

end Walk

section Depth

/-- `vn` lies `n` names below the root, and `d` under `path`. -/
def DeepIn (d : Nat) (path : List CName) (n vn : Nat) (k : Kernel) : Prop :=
  Naming [] k ∧ PathOf k d path ∧ ∃ names, PathOf k vn names ∧ names.length = n

variable {path : List CName}

theorem takesUnder_deep (n dir : Nat) : TakesUnder dir (DeepIn d path n dir) where
  frame := by
    intro k k' h hvnodes hmounts hroot hcwd hnodes
    obtain ⟨hnaming, hd, names, hpath, hlen⟩ := h
    have he := Extends.frame hvnodes hroot
    exact ⟨(takesUnder_naming dir).frame hnaming hvnodes hmounts hroot hcwd hnodes, hd.extends he,
      names, hpath.extends he, hlen⟩
  take := by
    intro k i vnode h hi hparent hdata
    obtain ⟨hnaming, hd, names, hpath, hlen⟩ := h
    have he := Extends.take hi vnode
    exact ⟨(takesUnder_naming dir).take hnaming hi hparent hdata, hd.extends he, names,
      hpath.extends he, hlen⟩

/-- Every component of a path leads one name further down. -/
theorem vfsWalk_deep (hnames : ∀ name ∈ names, IsComponent name) (n vn : Nat) :
    Prog.Triple (DeepIn d path n vn) (vfsWalk (some vn) names)
      (fun cur k => ∀ w, cur = some w → DeepIn d path (n + names.length) w k)
      (fun _ _ => True) (fun _ => True) := by
  induction names generalizing n vn with
  | nil =>
      refine Prog.Triple.pure fun k hk w hw => ?_
      cases hw
      exact hk
  | cons name rest ih =>
      have hname := hnames name List.mem_cons_self
      have hchild : ∀ w k, DeepIn d path n vn k → (k.vnode vn).type = .dir →
          ChildOf vn name w k → DeepIn d path (n + 1) (vfsFollowMounts k w k.mounts) k := by
        intro w k hk htype hw
        obtain ⟨hnaming, hd, names, hpath, hlen⟩ := hk
        obtain ⟨last, hlast⟩ := hnaming.named.child hpath htype hname hw
        exact ⟨hnaming, hd, _, hlast, by simp [hlen]⟩
      have henter := vfsEnter_child false (takesUnder_deep n vn)
        (fun k hk => hk.2.2.choose_spec.1.used) hname.ne_dot hname.ne_dotDot hchild
      rw [vfsWalk]
      refine Prog.Triple.bind (henter.conseq (fun _ => id) (fun _ _ => id) (fun _ _ _ => trivial)
        fun _ _ => trivial) fun next => ?_
      cases next with
      | none =>
          intro k _
          cases rest with
          | nil => exact fun w hw => by cases hw
          | cons second rest =>
              have hsecond := hnames second (List.mem_cons_of_mem _ List.mem_cons_self)
              have hfault : vfsWalk none (second :: rest) k = (.fault, k) := by
                rw [vfsWalk, vfsEnter, if_neg hsecond.ne_dot]
                rfl
              rw [hfault]
              trivial
      | some w =>
          have hrest := ih (fun name hname => hnames name (List.mem_cons_of_mem _ hname)) (n + 1) w
          have hlen : n + 1 + rest.length = n + (name :: rest).length := by
            rw [List.length_cons]
            omega
          exact hlen ▸ hrest

end Depth

section Names

/-- What `vfs_getcwd_at` promises: a path that any lookup leads back to the directory, or
`-ERANGE` when the path with its NUL is too long for the buffer. -/
def GetcwdNames (k : Kernel) (d : Nat) (names : List CName) (len : Nat) : Prop :=
  match (vfsGetcwdAt (some d) len k).1 with
  | .ok path => ∀ cwd, ∃ w k', vfsLookupAt cwd path k = (.ok (some w), k') ∧ SameDir k' d w
  | .err e => e = .range ∧ len < (pathString names).length + 1
  | _ => False

/-- The cases in which it does: the root; a directory not too deep, where the path is shorter
than the buffer by two bytes, and the tables have room for a lookup, or the path with its
NUL does not fit; a directory that is too deep, where not even the inner names fit. -/
def GetcwdFits (k : Kernel) (names : List CName) (f len : Nat) : Prop :=
  0 < len ∧ (names = [] ∨
    if names.length ≤ 16 then
      len ≤ (pathString names).length ∨
        ((pathString names).length + 1 < len ∧ RoomFor k names.length f)
    else len ≤ (pathString (innerNames names)).length + 1)

theorem innerNames_short (h : names.length ≤ 16) : innerNames names = names := by
  rw [innerNames, List.take_of_length_le (by simpa using h), List.reverse_reverse]

theorem mem_innerNames (h : name ∈ innerNames names) : name ∈ names := by
  have htake := List.mem_of_mem_take (List.mem_reverse.mp h)
  exact List.mem_reverse.mp htake

theorem pathString_append_length {first second : List CName} (hfirst : first ≠ [])
    (hsecond : second ≠ []) :
    (pathString second).length < (pathString (first ++ second)).length := by
  have happ : first ++ second ≠ [] := fun hnil => hsecond (List.append_eq_nil_iff.mp hnil).2
  rw [pathString, if_neg hsecond, pathString, if_neg happ, List.map_append, List.flatten_append,
    List.length_append]
  cases first with
  | nil => exact absurd rfl hfirst
  | cons name rest =>
      simp only [List.map_cons, List.flatten_cons, List.cons_append, List.length_cons]
      omega

/-- The path of the inner names of a deep directory is shorter than the whole one. -/
theorem innerNames_length (hdeep : 16 < names.length) :
    (pathString (innerNames names)).length < (pathString names).length := by
  have hsplit : (names.reverse.drop 16).reverse ++ innerNames names = names := by
    rw [innerNames, ← List.reverse_append, List.take_append_drop, List.reverse_reverse]
  have hfirst : (names.reverse.drop 16).reverse ≠ [] := by
    intro hnil
    have hlen := congrArg List.length hnil
    simp only [List.length_reverse, List.length_drop, List.length_nil] at hlen
    omega
  have hne : names ≠ [] := List.ne_nil_of_length_pos (by omega)
  have hlen := pathString_append_length hfirst (innerNames_ne_nil hne)
  rwa [hsplit] at hlen

/-- A lookup of the path of `vn` leads back to its directory exactly when the tables have
room for the vnodes on the way. -/
theorem lookup_back (hn : Named k) (hm : Mounted k) (hstill : StillThere k d f)
    (hpath : PathOf k d names) (hstable : Stable k d) {r : Nat} (hroot : k.root = some r)
    (cwd : Option Nat) :
    (∃ w k', vfsLookupAt cwd (pathString names) k = (.ok (some w), k') ∧ SameDir k' d w) ↔
      RoomFor k names.length f := by
  obtain ⟨hyes, hno⟩ := vfsWalk_back hn hm hstill hpath hstable hroot
  rw [vfsLookupAt_path hm hpath hroot]
  constructor
  · rintro ⟨w, k', hrun, _⟩
    by_contra hroom
    exact hno hroom w k' hrun
  · intro hroom
    obtain ⟨w, k', hrun, hreaches, _⟩ := hyes hroom
    exact ⟨w, k', hrun, hreaches.same⟩

/-- The inner names alone lead to a directory that is not as deep. -/
theorem lookup_inner (hn : Named k) (hm : Mounted k) (hpath : PathOf k d names)
    (hdeep : 16 < names.length) {r : Nat} (hroot : k.root = some r) {w : Nat}
    (hrun : vfsLookupAt none (pathString (innerNames names)) k = (.ok (some w), k')) :
    ¬ SameDir k' d w := by
  intro hsame
  have hcomponents : ∀ name ∈ innerNames names, IsComponent name :=
    fun name hname => hpath.components name (mem_innerNames hname)
  have hstart : vfsStart none (pathString (innerNames names)) k = (.ok (some r), k) := by
    simp only [vfsStart, if_pos (pathString_head _), hroot, vfsFollowMount, (hm.root r hroot).fixed]
  rw [vfsLookupAt, Prog.bind_ok hstart, pathComponents_pathString hcomponents] at hrun
  have hr : PathOf k r [] := .root hroot (hn.root r hroot).1
  have hzero : DeepIn d names 0 r k := ⟨⟨hn, fun _ h => by cases h⟩, hpath, [], hr, rfl⟩
  obtain ⟨_, hd, names', hpath', hlen'⟩ := (vfsWalk_deep hcomponents 0 r).ok hzero hrun w rfl
  have hsixteen : (innerNames names).length ≤ 16 := by
    simp only [innerNames, List.length_reverse, List.length_take]
    omega
  have hsame := hsame.length_eq hd hpath'
  omega

theorem getcwdNames_ok {len : Nat} {path : CName}
    (hrun : (vfsGetcwdAt (some d) len k).1 = .ok path) :
    GetcwdNames k d names len ↔
      ∀ cwd, ∃ w k', vfsLookupAt cwd path k = (.ok (some w), k') ∧ SameDir k' d w := by
  rw [GetcwdNames, hrun]

theorem getcwdNames_err {len : Nat} {e : Errno} (hrun : (vfsGetcwdAt (some d) len k).1 = .err e) :
    GetcwdNames k d names len ↔ e = .range ∧ len < (pathString names).length + 1 := by
  rw [GetcwdNames, hrun]

/-- What `vfs_getcwd_at` returns names a directory of the run exactly in the cases above. -/
theorem vfsGetcwdAt_names {held : List Nat} (h : Reached held k) (hd : d ∈ held)
    (hstill : StillThere k d f) :
    ∃ names, PathOf k d names ∧ ∀ len, GetcwdNames k d names len ↔ GetcwdFits k names f len := by
  obtain ⟨names, hpath⟩ := h.naming.held d hd
  have hn := h.naming.named
  have hm := h.holding.mounted
  obtain ⟨r, hroot⟩ := hstill.root_some
  have hback := lookup_back hn hm hstill hpath (h.holding.held d hd) hroot
  refine ⟨names, hpath, fun len => ?_⟩
  rcases Nat.eq_zero_or_pos len with rfl | hlen
  · have hrun : (vfsGetcwdAt (some d) 0 k).1 = .err .inval := rfl
    simp [getcwdNames_err hrun, GetcwdFits]
  have hpathRun := vfsGetcwdAt_path hpath hroot hlen
  rw [GetcwdFits]
  simp only [hlen, true_and]
  by_cases hnil : names = []
  · refine ⟨fun _ => Or.inl hnil, fun _ => ?_⟩
    subst hnil
    rw [if_pos rfl] at hpathRun
    by_cases hshort : len < 2
    · rw [if_pos hshort] at hpathRun
      exact (getcwdNames_err (congrArg Prod.fst hpathRun)).mpr ⟨rfl, hshort⟩
    · rw [if_neg hshort] at hpathRun
      have hzero := hstill.of_root (hpath.eq_nil_iff.mp rfl)
      exact (getcwdNames_ok (congrArg Prod.fst hpathRun)).mpr fun cwd =>
        (hback cwd).mpr ⟨Nat.zero_le _, hzero ▸ Nat.zero_le _⟩
  rw [if_neg hnil] at hpathRun
  simp only [hnil, false_or]
  by_cases hdeep : names.length ≤ 16
  · rw [innerNames_short hdeep] at hpathRun
    rw [if_pos hdeep]
    by_cases hfits : len ≤ (pathString names).length + 1
    · rw [if_pos hfits] at hpathRun
      rw [getcwdNames_err (congrArg Prod.fst hpathRun)]
      constructor
      · intro hnames
        exact Or.inl (Nat.lt_succ_iff.mp hnames.2)
      · rintro (hless | ⟨hmore, _⟩)
        · exact ⟨rfl, Nat.lt_succ_of_le hless⟩
        · exact absurd hmore (Nat.not_lt.mpr hfits)
    · rw [if_neg hfits] at hpathRun
      rw [getcwdNames_ok (congrArg Prod.fst hpathRun)]
      refine ⟨fun hall => Or.inr ⟨by omega, (hback none).mp (hall none)⟩, fun hcase cwd => ?_⟩
      refine (hback cwd).mpr (hcase.elim (fun hless => ?_) And.right)
      omega
  · have hdeep := Nat.not_le.mp hdeep
    have hless := innerNames_length hdeep
    rw [if_neg (Nat.not_le.mpr hdeep)]
    by_cases hfits : len ≤ (pathString (innerNames names)).length + 1
    · rw [if_pos hfits] at hpathRun
      refine ⟨fun _ => hfits, fun _ => ?_⟩
      exact (getcwdNames_err (congrArg Prod.fst hpathRun)).mpr ⟨rfl, by omega⟩
    · rw [if_neg hfits] at hpathRun
      refine ⟨fun hnames => ?_, fun hfits' => absurd hfits' hfits⟩
      obtain ⟨w, k', hrun, hsame⟩ := (getcwdNames_ok (congrArg Prod.fst hpathRun)).mp hnames none
      exact absurd hsame (lookup_inner hn hm hpath hdeep hroot hrun)

/-- The name of the directory in the root of `ramDirDisk`, and of what is mounted there. -/
def ramDirName : CName := [82, 65, 77]

/-- The kernel of `ramKernel` after a lookup of `/ram`. -/
def ramVisited : Kernel := (vfsLookupAt none ramPath ramKernel).2

/-- The search found a directory. -/
def foundDir : Outcome Errno DirHit → Bool
  | .ok hit => hit.raw.isDir
  | _ => false

theorem ramVisited_still : (∃ held, Reached held ramVisited ∧ 1 ∈ held) ∧
    StillThere ramVisited 1 1 ∧ ramVisited.root = some 0 ∧
      (ramVisited.vnode 1).name = ramDirName ∧ (ramVisited.vnode 1).parent = some 0 := by
  have hboot : (mountRoot (zeroKernel ramDirDisk)).1 = .ok () := by decide +kernel
  have hrun : mountRoot (zeroKernel ramDirDisk) = (.ok (), ramKernel) := by
    rw [ramKernel, ← hboot]
  have hrootBoot : ramKernel.root = some 0 := by decide +kernel
  have hlookup : (vfsLookupAt none ramPath ramKernel).1 = .ok (some 1) := by decide +kernel
  have hvisit : vfsLookupAt none ramPath ramKernel = (.ok (some 1), ramVisited) := by
    rw [ramVisited, ← hlookup]
  have hreached := Reached.lookup (Reached.boot hrun hrootBoot) (fun _ hnone => by cases hnone) hvisit
  have hroot : ramVisited.root = some 0 := by decide +kernel
  have hparent : (ramVisited.vnode 1).parent = some 0 := by decide +kernel
  have hops : (ramVisited.vnode 0).ops = some .fat32 := by decide +kernel
  have hmount : (2, 1) ∈ ramVisited.mounts := by decide +kernel
  have hfind : foundDir (fat32FindEntry (ramVisited.fatNode 0).cluster
      (ramVisited.vnode 1).name ramVisited.vol).1 = true := by decide +kernel
  have hentry : EntryOf ramVisited 0 1 := by
    unfold foundDir at hfind
    split at hfind
    · rename_i hit hhit
      exact .mount hops hmount rfl hhit hfind
    · cases hfind
  have hstill : StillThere ramVisited 1 (0 + fatStep ramVisited 0) :=
    .child (.root hroot) hparent (by rw [hroot]; decide) hentry
  rw [fatStep, if_pos hops] at hstill
  exact ⟨⟨_, hreached, List.mem_cons_self⟩, hstill, hroot, by decide +kernel, hparent⟩

/-- What `vfs_getcwd_at` returns in `/ram`. -/
theorem vfsGetcwdAt_names_ram : ∃ names, PathOf ramVisited 1 names ∧
    ∀ len, GetcwdNames ramVisited 1 names len ↔ GetcwdFits ramVisited names 1 len := by
  obtain ⟨⟨held, hreached, hheld⟩, hstill, _⟩ := ramVisited_still
  exact vfsGetcwdAt_names hreached hheld hstill

/-- `/RAM` with its NUL fits into five bytes, but `vfs_getcwd_at` returns `-ERANGE`. -/
theorem vfsGetcwdAt_exact_fit :
    (∃ held, Reached held ramVisited ∧ 1 ∈ held) ∧ StillThere ramVisited 1 1 ∧
      PathOf ramVisited 1 [ramDirName] ∧ (pathString [ramDirName]).length + 1 = 5 ∧
        (vfsGetcwdAt (some 1) 5 ramVisited).1 = .err .range ∧
          ¬ GetcwdNames ramVisited 1 [ramDirName] 5 := by
  obtain ⟨⟨held, hreached, hheld⟩, hstill, hroot, hname, hparent⟩ := ramVisited_still
  obtain ⟨names, hpath⟩ := hreached.naming.held 1 hheld
  have hnames : names = [ramDirName] := by
    cases hpath with
    | root hr _ => rw [hroot] at hr; cases hr
    | child hp hparent' _ _ _ _ =>
        cases hparent.symm.trans hparent'
        rw [hp.eq_nil_iff.mpr hroot, hname]
        rfl
  subst hnames
  have hrange : (vfsGetcwdAt (some 1) 5 ramVisited).1 = .err .range := by decide +kernel
  have hnot : ¬ GetcwdNames ramVisited 1 [ramDirName] 5 := by
    rw [getcwdNames_err hrange]
    decide
  exact ⟨⟨held, hreached, hheld⟩, hstill, hpath, by decide, hrange, hnot⟩

end Names

end OsAgentLab
