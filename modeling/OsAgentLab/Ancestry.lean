/-
The way back to the root.  From every vnode that a walk can stand on the parent pointers
lead to the root, past directories whose names could have been looked up; the names on the
way are the path of the vnode.
-/
import OsAgentLab.Mounted

namespace OsAgentLab

/-- `names` are the names on the way from the root to `vn`. -/
inductive PathOf (k : Kernel) : Nat → List CName → Prop
  | root {r : Nat} (hroot : k.root = some r) (hused : k.vnodes.used r = true) : PathOf k r []
  | child {p vn : Nat} {names : List CName} (hp : PathOf k p names)
      (hparent : (k.vnode vn).parent = some p) (htype : (k.vnode p).type = .dir)
      (hroot : k.root ≠ some vn) (hused : k.vnodes.used vn = true)
      (hname : IsComponent (k.vnode vn).name) : PathOf k vn (names ++ [(k.vnode vn).name])

/-- The mount of a directory of the root, under the name of that directory. -/
structure RamMount (k : Kernel) (m : Nat × Nat) : Prop where
  usedPoint : k.vnodes.used m.1 = true
  usedRoot : k.vnodes.used m.2 = true
  parents : ∃ r, k.root = some r ∧ k.vnodes.used r = true ∧ (k.vnode r).type = .dir ∧
    (k.vnode m.1).parent = some r ∧ (k.vnode m.2).parent = some r
  ne_root : k.root ≠ some m.2
  type : (k.vnode m.2).type = .dir
  name : (k.vnode m.2).name = (k.vnode m.1).name
  component : IsComponent (k.vnode m.1).name

/-- The root is its own parent and has no name, one mount at most stands on a directory of
the root, and vnodes of FAT32 have nodes in use. -/
structure Named (k : Kernel) : Prop where
  root : ∀ r, k.root = some r →
    k.vnodes.used r = true ∧ (k.vnode r).parent = some r ∧ (k.vnode r).name = []
  cwd : ∀ c, k.cwd = some c → ∃ names, PathOf k c names
  mount : ∀ m ∈ k.mounts, RamMount k m
  one : k.mounts.length ≤ 1
  node : ∀ vn, k.vnodes.used vn = true → (k.vnode vn).ops = some .fat32 →
    k.fatNodes.used (k.vnode vn).data = true

/-- A named state in which the vnodes of `held` have paths. -/
structure Naming (held : List Nat) (k : Kernel) : Prop where
  named : Named k
  held : ∀ vn ∈ held, ∃ names, PathOf k vn names

/-- The vnodes in use are the same, and the root is. -/
structure Extends (k k' : Kernel) : Prop where
  root : k'.root = k.root
  vnode : ∀ vn, k.vnodes.used vn = true →
    k'.vnodes.used vn = true ∧ k'.vnode vn = k.vnode vn

variable {k k' : Kernel} {held : List Nat} {dir vn : Nat} {name : CName} {names : List CName}

section Component

theorem lowerChar_small {c d : UInt8} (hd : d < 65) (h : lowerChar c = d) : c = d := by
  unfold lowerChar at h
  split at h
  · rename_i hc
    exfalso
    have hlow := hc.1
    have hhigh := hc.2
    subst h
    simp only [UInt8.lt_iff_toNat_lt, UInt8.le_iff_toNat_le, UInt8.toNat_add,
      UInt8.toNat_sub] at *
    simp at *
    omega
  · exact h

theorem lowerChar_of_small {d : UInt8} (hd : d < 65) : lowerChar d = d := by
  unfold lowerChar
  rw [if_neg fun hc => absurd hd (UInt8.not_lt.mpr hc.1)]

/-- A name without letters is matched by itself alone. -/
theorem eq_of_nocase {a b : CName} (hb : ∀ c ∈ b, c < 65) (h : nameEqNocase a b = true) :
    a = b := by
  induction a generalizing b with
  | nil =>
      cases b with
      | nil => rfl
      | cons d b => cases h
  | cons c a ih =>
      cases b with
      | nil => cases h
      | cons d b =>
          have hmap := nameEqNocase_iff.mp h
          simp only [List.map_cons, List.cons.injEq] at hmap
          have hd := hb d List.mem_cons_self
          rw [lowerChar_small hd (hmap.1.trans (lowerChar_of_small hd)),
            ih (fun c hc => hb c (List.mem_cons_of_mem _ hc)) (nameEqNocase_iff.mpr hmap.2)]

theorem IsComponent.of_nocase (h : IsComponent name) {name' : CName}
    (hmatch : nameEqNocase name' name = true) : IsComponent name' := by
  have hmap := nameEqNocase_iff.mp hmatch
  have hlen : name'.length = name.length := by simpa using congrArg List.length hmap
  refine ⟨?_, fun hslash => ?_, hlen ▸ h.short, ?_, ?_⟩
  · rintro rfl
    exact h.ne_nil (List.length_eq_zero_iff.mp hlen.symm)
  · have hmem : (47 : UInt8) ∈ name.map lowerChar := by
      rw [← hmap]
      exact List.mem_map.mpr ⟨47, hslash, rfl⟩
    obtain ⟨c, hc, hlower⟩ := List.mem_map.mp hmem
    exact h.noSlash (lowerChar_small (by decide) hlower ▸ hc)
  · rintro rfl
    exact h.ne_dot (eq_of_nocase (by simp [dotName]) (nameEqNocase_symm hmatch))
  · rintro rfl
    exact h.ne_dotDot (eq_of_nocase (by simp [dotDotName]) (nameEqNocase_symm hmatch))

end Component

section Path

theorem PathOf.used (h : PathOf k vn names) : k.vnodes.used vn = true := by
  cases h with
  | root _ hused => exact hused
  | child _ _ _ _ hused _ => exact hused

theorem PathOf.extends (h : PathOf k vn names) (he : Extends k k') : PathOf k' vn names := by
  induction h with
  | root hroot hused => exact .root (he.root.trans hroot) (he.vnode _ hused).1
  | child hp hparent htype hroot hused hname ih =>
      obtain ⟨hused', hvnode⟩ := he.vnode _ hused
      rw [← hvnode]
      exact .child ih (hvnode ▸ hparent) ((he.vnode _ hp.used).2 ▸ htype) (he.root ▸ hroot) hused'
        (hvnode ▸ hname)

/-- The path of the root is empty, and no other vnode has an empty path. -/
theorem PathOf.eq_nil_iff (h : PathOf k vn names) : names = [] ↔ k.root = some vn := by
  cases h with
  | root hroot _ => exact ⟨fun _ => hroot, fun _ => rfl⟩
  | child _ _ _ hroot _ _ => exact ⟨fun hnil => by simp at hnil, fun heq => absurd heq hroot⟩

theorem PathOf.unique {names' : List CName} (h : PathOf k vn names) (h' : PathOf k vn names') :
    names = names' := by
  induction h generalizing names' with
  | root hroot _ => exact (h'.eq_nil_iff.mpr hroot).symm
  | child hp hparent _ hroot _ _ ih =>
      cases h' with
      | root hroot' _ => exact absurd hroot' hroot
      | child hp' hparent' _ _ _ _ =>
          cases hparent.symm.trans hparent'
          rw [ih hp']

/-- Only the root passes the test of `vfs_is_root_vnode`. -/
theorem PathOf.isRoot (h : PathOf k vn names) (hroot : vfsIsRootVnode k (some vn) = true) :
    k.root = some vn := by
  cases h with
  | root hroot _ => exact hroot
  | child _ _ _ _ _ hname =>
      simp only [vfsIsRootVnode, Bool.or_eq_true, beq_iff_eq, Bool.and_eq_true] at hroot
      rcases hroot with hroot | ⟨_, hempty⟩
      · exact hroot
      · exact absurd hempty hname.ne_nil

theorem Named.parent (h : Named k) (hvn : PathOf k vn names) {p : Nat}
    (hp : (k.vnode vn).parent = some p) : ∃ names', PathOf k p names' := by
  cases hvn with
  | root hroot hused =>
      cases (h.root vn hroot).2.1.symm.trans hp
      exact ⟨_, .root hroot hused⟩
  | child hpath hparent _ _ _ _ =>
      cases hparent.symm.trans hp
      exact ⟨_, hpath⟩

/-- The root of a mount is a directory of the root. -/
theorem RamMount.path {m : Nat × Nat} (h : RamMount k m) : PathOf k m.2 [(k.vnode m.2).name] := by
  obtain ⟨r, hroot, hused, htype, _, hparent⟩ := h.parents
  exact .child (.root hroot hused) hparent htype h.ne_root h.usedRoot (h.name ▸ h.component)

/-- A child of a directory, with the mounts followed, lies one name below the directory. -/
theorem Named.child (h : Named k) (hdir : PathOf k dir names) (htype : (k.vnode dir).type = .dir)
    (hname : IsComponent name) (hchild : ChildOf dir name vn k) :
    ∃ last, PathOf k (vfsFollowMounts k vn k.mounts) (names ++ [last]) := by
  have hcomponent := hname.of_nocase hchild.name
  have hnotRoot : k.root ≠ some vn := by
    intro hroot
    have hempty := (h.root vn hroot).2.2
    exact hcomponent.ne_nil hempty
  have hself : PathOf k vn (names ++ [(k.vnode vn).name]) :=
    .child hdir hchild.parent htype hnotRoot hchild.used hcomponent
  -- whichever way the mount is recognised, the directory is the root
  have hmount : ∀ m ∈ k.mounts, k.root = some dir →
      ∃ last, PathOf k m.2 (names ++ [last]) := by
    intro m hm hroot
    rw [hdir.eq_nil_iff.mpr hroot]
    exact ⟨_, (h.mount m hm).path⟩
  have hall : ∀ ms, (∀ m ∈ ms, m ∈ k.mounts) →
      ∃ last, PathOf k (vfsFollowMounts k vn ms) (names ++ [last]) := by
    intro ms
    induction ms with
    | nil => exact fun _ => ⟨_, hself⟩
    | cons m rest ih =>
        intro hsub
        have hm := hsub m List.mem_cons_self
        obtain ⟨mountpoint, root⟩ := m
        rw [vfsFollowMounts]
        by_cases hpoint : mountpoint = vn
        · rw [if_pos hpoint]
          obtain ⟨r, hroot, _, _, hparent, _⟩ := (h.mount _ hm).parents
          rw [hpoint] at hparent
          cases hchild.parent.symm.trans hparent
          exact hmount _ hm hroot
        rw [if_neg hpoint]
        by_cases hnamed : (k.vnode vn).type = .dir ∧ vfsIsRootVnode k (k.vnode vn).parent = true ∧
            nameEqNocase (k.vnode vn).name (k.vnode mountpoint).name = true
        · rw [if_pos hnamed]
          exact hmount _ hm (hdir.isRoot (hchild.parent ▸ hnamed.2.1))
        · rw [if_neg hnamed]
          exact ih fun m hm => hsub m (List.mem_cons_of_mem _ hm)
  exact hall k.mounts fun _ hm => hm

/-- The mounts followed from a vnode with a path lead to a vnode with a path. -/
theorem Named.follow (h : Named k) (hvn : PathOf k vn names) :
    ∃ names', PathOf k (vfsFollowMounts k vn k.mounts) names' := by
  rcases vfsFollowMounts_mem k vn k.mounts with hsame | ⟨m, hm, hroot⟩
  · rw [hsame]
    exact ⟨_, hvn⟩
  · rw [hroot]
    exact ⟨_, (h.mount m hm).path⟩

end Path

section Invariant

theorem RamMount.extends {m : Nat × Nat} (h : RamMount k m) (he : Extends k k') :
    RamMount k' m := by
  obtain ⟨r, hroot, hused, htype, hpoint, hmounted⟩ := h.parents
  obtain ⟨husedPoint, hvnodePoint⟩ := he.vnode _ h.usedPoint
  obtain ⟨husedRoot, hvnodeRoot⟩ := he.vnode _ h.usedRoot
  obtain ⟨husedR, hvnodeR⟩ := he.vnode r hused
  exact {
    usedPoint := husedPoint
    usedRoot := husedRoot
    parents := ⟨r, he.root.trans hroot, husedR, hvnodeR ▸ htype, hvnodePoint ▸ hpoint,
      hvnodeRoot ▸ hmounted⟩
    ne_root := he.root ▸ h.ne_root
    type := hvnodeRoot ▸ h.type
    name := by rw [hvnodeRoot, hvnodePoint, h.name]
    component := hvnodePoint ▸ h.component }

theorem Named.extends (h : Named k) (he : Extends k k') (hmounts : k'.mounts = k.mounts)
    (hcwd : k'.cwd = k.cwd)
    (hnode : ∀ vn, k'.vnodes.used vn = true → (k'.vnode vn).ops = some .fat32 →
      k'.fatNodes.used (k'.vnode vn).data = true) : Named k' where
  root r hr := by
    obtain ⟨hused, hparent, hname⟩ := h.root r (he.root ▸ hr)
    obtain ⟨hused', hvnode⟩ := he.vnode r hused
    exact ⟨hused', hvnode ▸ hparent, hvnode ▸ hname⟩
  cwd c hc := (h.cwd c (hcwd ▸ hc)).imp fun _ hpath => hpath.extends he
  mount m hm := (h.mount m (hmounts ▸ hm)).extends he
  one := hmounts ▸ h.one
  node := hnode

theorem Extends.take {i : Nat} (hi : k.vnodes.used i = false) (vnode : Vnode) :
    Extends k { k with vnodes := k.vnodes.take i vnode } where
  root := rfl
  vnode vn hused := by
    have hne : vn ≠ i := by
      rintro rfl
      rw [hi] at hused
      cases hused
    simp [Kernel.vnode, hused, hne]

theorem Extends.frame (hvnodes : k'.vnodes = k.vnodes) (hroot : k'.root = k.root) :
    Extends k k' where
  root := hroot
  vnode vn hused := ⟨hvnodes ▸ hused, congrArg (fun p => p.slot vn) hvnodes⟩

theorem takesUnder_naming (dir : Nat) : TakesUnder dir (Naming held) where
  frame := by
    intro k k' h hvnodes hmounts hroot hcwd hnodes
    have he := Extends.frame hvnodes hroot
    refine ⟨h.named.extends he hmounts hcwd fun vn hused hops => ?_,
      fun vn hvn => (h.held vn hvn).imp fun _ hpath => hpath.extends he⟩
    have hvnode : k'.vnode vn = k.vnode vn := congrArg (fun p => p.slot vn) hvnodes
    rw [hvnode] at hops ⊢
    exact hnodes _ (h.named.node vn (hvnodes ▸ hused) hops)
  take := by
    intro k i vnode h hi _ hdata
    have he := Extends.take hi vnode
    refine ⟨h.named.extends he rfl rfl fun vn hused hops => ?_,
      fun vn hvn => (h.held vn hvn).imp fun _ hpath => hpath.extends he⟩
    by_cases heq : vn = i
    · subst heq
      have hslot : ({ k with vnodes := k.vnodes.take vn vnode } : Kernel).vnode vn = vnode := by
        simp [Kernel.vnode]
      rw [hslot] at hops ⊢
      exact hdata hops
    · have hold : k.vnodes.used vn = true := by simpa [heq] using hused
      rw [(he.vnode vn hold).2] at hops ⊢
      exact h.named.node vn hold hops

theorem Naming.cons (h : Naming held k) (hvn : ∃ names, PathOf k vn names) :
    Naming (vn :: held) k := by
  refine ⟨h.named, fun i hi => ?_⟩
  rcases List.mem_cons.mp hi with rfl | hi
  · exact hvn
  · exact h.held i hi

theorem Naming.tail (h : Naming (vn :: held) k) : Naming held k :=
  ⟨h.named, fun i hi => h.held i (List.mem_cons_of_mem _ hi)⟩

theorem Naming.head (h : Naming (vn :: held) k) : ∃ names, PathOf k vn names :=
  h.held vn List.mem_cons_self

/-- A walk stands on vnodes with paths. -/
theorem naming_walks (held : List Nat) :
    WalkInvariant (Naming held) fun vn => Naming (vn :: held) where
  rest h := h.tail
  used h := h.head.choose_spec.used
  under vn := takesUnder_naming vn
  root h hroot := h.cons (h.named.follow (.root hroot (h.named.root _ hroot).1))
  cwd h hcwd := h.cons (h.named.follow (h.named.cwd _ hcwd).choose_spec)
  parent h hp := h.tail.cons (h.named.parent h.head.choose_spec hp)
  child h htype hname hchild := by
    obtain ⟨last, hpath⟩ := h.named.child h.head.choose_spec htype hname hchild
    exact h.tail.cons ⟨_, hpath⟩

theorem CwdOf.naming {cwd : Option Nat} (h : CwdOf held cwd) :
    WalkInvariant.CwdAt (Naming held) (fun vn => Naming (vn :: held)) cwd :=
  fun vn hvn _ hk => hk.cons (hk.named.follow (hk.held vn (h vn hvn)).choose_spec)

end Invariant

end OsAgentLab
