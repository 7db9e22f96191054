/-
Where a walk along a path can stand: on vnodes that stand for no mount point.  Every
call by path keeps this true of the root, of the parents of all vnodes, and of the
vnodes that earlier lookups have delivered.
-/
import OsAgentLab.Walks

namespace OsAgentLab

/-- A vnode in use that `vfs_follow_mount` leaves where it is. -/
structure Stable (k : Kernel) (vn : Nat) : Prop where
  used : k.vnodes.used vn = true
  fixed : vfsFollowMounts k vn k.mounts = vn

/-- A walk starts at a stable vnode, and `..` and the mounts lead to stable vnodes. -/
structure Mounted (k : Kernel) : Prop where
  root : ∀ vn, k.root = some vn → Stable k vn
  cwd : ∀ vn, k.cwd = some vn → Stable k vn
  mounts : ∀ m ∈ k.mounts, k.vnodes.used m.1 = true ∧ Stable k m.2
  parent : ∀ vn p, k.vnodes.used vn = true → (k.vnode vn).parent = some p → Stable k p

/-- A mounted state in which the vnodes of `held` are stable. -/
structure Holding (held : List Nat) (k : Kernel) : Prop where
  mounted : Mounted k
  held : ∀ vn ∈ held, Stable k vn

variable {k k' : Kernel} {held : List Nat} {dir vn : Nat}

section Follow

/-- Mounts lead to the vnode itself or to the root of a mount. -/
theorem vfsFollowMounts_mem (k : Kernel) (vn : Nat) (ms : List (Nat × Nat)) :
    vfsFollowMounts k vn ms = vn ∨ ∃ m ∈ ms, vfsFollowMounts k vn ms = m.2 := by
  induction ms with
  | nil => exact Or.inl rfl
  | cons m rest ih =>
      obtain ⟨mountpoint, root⟩ := m
      rw [vfsFollowMounts]
      split
      · exact Or.inr ⟨_, List.mem_cons_self, rfl⟩
      split
      · exact Or.inr ⟨_, List.mem_cons_self, rfl⟩
      · rcases ih with hsame | ⟨m, hm, hroot⟩
        · exact Or.inl hsame
        · exact Or.inr ⟨m, List.mem_cons_of_mem _ hm, hroot⟩

/-- Following the mounts once is enough. -/
theorem Mounted.follow (h : Mounted k) (hused : k.vnodes.used vn = true) :
    Stable k (vfsFollowMounts k vn k.mounts) := by
  rcases vfsFollowMounts_mem k vn k.mounts with hsame | ⟨m, hm, hroot⟩
  · rw [hsame]
    exact ⟨hused, hsame⟩
  · rw [hroot]
    exact (h.mounts m hm).2

/-- The mounts depend on the vnodes in use alone. -/
theorem vfsFollowMounts_congr (h : Mounted k) (hroot : k'.root = k.root)
    (hsame : ∀ i, k.vnodes.used i = true → k'.vnode i = k.vnode i)
    (hused : k.vnodes.used vn = true) {ms : List (Nat × Nat)}
    (hms : ∀ m ∈ ms, k.vnodes.used m.1 = true) :
    vfsFollowMounts k' vn ms = vfsFollowMounts k vn ms := by
  have hisRoot : vfsIsRootVnode k' (k.vnode vn).parent = vfsIsRootVnode k (k.vnode vn).parent := by
    cases hparent : (k.vnode vn).parent with
    | none => rfl
    | some p =>
        have hp := hsame p (h.parent vn p hused hparent).used
        simp only [vfsIsRootVnode, hroot, hp]
  induction ms with
  | nil => rfl
  | cons m rest ih =>
      obtain ⟨mountpoint, root⟩ := m
      have hmp : k'.vnode mountpoint = k.vnode mountpoint := hsame _ (hms _ List.mem_cons_self)
      have hrest := ih fun m hm => hms m (List.mem_cons_of_mem _ hm)
      rw [vfsFollowMounts, vfsFollowMounts, hsame vn hused, hisRoot, hmp, hrest]

end Follow

section Take

/-- A free vnode that is taken disturbs no stable vnode. -/
theorem Stable.take (h : Stable k vn) (hM : Mounted k) {i : Nat} {vnode : Vnode}
    (hi : k.vnodes.used i = false) : Stable { k with vnodes := k.vnodes.take i vnode } vn where
  used := by simp [h.used]
  fixed := by
    have hsame : ∀ j, k.vnodes.used j = true →
        ({ k with vnodes := k.vnodes.take i vnode } : Kernel).vnode j = k.vnode j := by
      intro j hj
      have hne : j ≠ i := by
        rintro rfl
        rw [hi] at hj
        cases hj
      simp [Kernel.vnode, hne]
    have hfollow := @vfsFollowMounts_congr k { k with vnodes := k.vnodes.take i vnode } vn hM rfl
      hsame h.used k.mounts fun m hm => (hM.mounts m hm).1
    exact hfollow.trans h.fixed

theorem Mounted.take (h : Mounted k) {i : Nat} {vnode : Vnode} (hi : k.vnodes.used i = false)
    (hparent : vnode.parent = some dir) (hdir : Stable k dir) :
    Mounted { k with vnodes := k.vnodes.take i vnode } where
  root vn hvn := (h.root vn hvn).take h hi
  cwd vn hvn := (h.cwd vn hvn).take h hi
  mounts m hm := ⟨by simp [(h.mounts m hm).1], (h.mounts m hm).2.take h hi⟩
  parent vn p hused hp := by
    by_cases heq : vn = i
    · subst heq
      have hslot : ({ k with vnodes := k.vnodes.take vn vnode } : Kernel).vnode vn = vnode := by
        simp [Kernel.vnode]
      rw [hslot, hparent] at hp
      cases hp
      exact hdir.take h hi
    · have hslot : ({ k with vnodes := k.vnodes.take i vnode } : Kernel).vnode vn = k.vnode vn := by
        simp [Kernel.vnode, heq]
      have hold : k.vnodes.used vn = true := by simpa [heq] using hused
      rw [hslot] at hp
      exact (h.parent vn p hold hp).take h hi

theorem Stable.frame (h : Stable k vn) (hvnodes : k'.vnodes = k.vnodes)
    (hmounts : k'.mounts = k.mounts) (hroot : k'.root = k.root) : Stable k' vn := by
  have hfollow : ∀ ms, vfsFollowMounts k' vn ms = vfsFollowMounts k vn ms := by
    intro ms
    induction ms with
    | nil => rfl
    | cons m rest ih =>
        obtain ⟨mountpoint, root⟩ := m
        have hvnode : ∀ i, k'.vnode i = k.vnode i := fun i => congrArg (fun p => p.slot i) hvnodes
        have hisRoot : ∀ p, vfsIsRootVnode k' p = vfsIsRootVnode k p := by
          intro p
          cases p with
          | none => rfl
          | some p => simp only [vfsIsRootVnode, hroot, hvnode]
        rw [vfsFollowMounts, vfsFollowMounts, hvnode, hvnode, hisRoot, ih]
  refine ⟨by rw [hvnodes, h.used], ?_⟩
  rw [hmounts, hfollow, h.fixed]

/-- Taking vnodes for children of a stable directory keeps a mounted state mounted. -/
theorem takesUnder_holds (hdir : dir ∈ held) : TakesUnder dir (Holding held) where
  frame := by
    intro k k' h hvnodes hmounts hroot hcwd _
    have hstable : ∀ {vn}, Stable k vn → Stable k' vn := fun hvn => hvn.frame hvnodes hmounts hroot
    refine ⟨⟨fun vn hvn => hstable (h.mounted.root vn (hroot ▸ hvn)),
      fun vn hvn => hstable (h.mounted.cwd vn (hcwd ▸ hvn)), fun m hm => ?_, fun vn p hused hp => ?_⟩,
      fun vn hvn => hstable (h.held vn hvn)⟩
    · have hold := h.mounted.mounts m (hmounts ▸ hm)
      exact ⟨hvnodes ▸ hold.1, hstable hold.2⟩
    · have hvnode : k'.vnode vn = k.vnode vn := congrArg (fun p => p.slot vn) hvnodes
      exact hstable (h.mounted.parent vn p (hvnodes ▸ hused) (hvnode ▸ hp))
  take := by
    intro k i vnode h hi hparent _
    exact ⟨h.mounted.take hi hparent (h.held dir hdir),
      fun vn hvn => (h.held vn hvn).take h.mounted hi⟩

end Take

section Walk

theorem Holding.tail (h : Holding (vn :: held) k) : Holding held k :=
  ⟨h.mounted, fun i hi => h.held i (List.mem_cons_of_mem _ hi)⟩

theorem Holding.head (h : Holding (vn :: held) k) : Stable k vn := h.held vn List.mem_cons_self

theorem Holding.cons (h : Holding held k) (hvn : Stable k vn) : Holding (vn :: held) k := by
  refine ⟨h.mounted, fun i hi => ?_⟩
  rcases List.mem_cons.mp hi with rfl | hi
  · exact hvn
  · exact h.held i hi

/-- A walk stands on stable vnodes. -/
theorem holding_walks (held : List Nat) :
    WalkInvariant (Holding held) fun vn => Holding (vn :: held) where
  rest h := h.tail
  used h := h.head.used
  under _ := takesUnder_holds List.mem_cons_self
  root h hroot := h.cons (h.mounted.follow (h.mounted.root _ hroot).used)
  cwd h hcwd := h.cons (h.mounted.follow (h.mounted.cwd _ hcwd).used)
  parent h hp := h.tail.cons (h.mounted.parent _ _ h.head.used hp)
  child h _ _ hchild := h.tail.cons (h.mounted.follow hchild.used)

/-- The vnode that a call is made relative to is one that an earlier lookup delivered. -/
def CwdOf (held : List Nat) (cwd : Option Nat) : Prop := ∀ vn, cwd = some vn → vn ∈ held

theorem CwdOf.holding {cwd : Option Nat} (h : CwdOf held cwd) :
    WalkInvariant.CwdAt (Holding held) (fun vn => Holding (vn :: held)) cwd :=
  fun vn hvn _ hk => hk.cons (hk.mounted.follow (hk.held vn (h vn hvn)).used)

end Walk

end OsAgentLab
