/-
The start of the file system in `kernel_main`: the FAT32 root, the root of the ramfs,
and the mount of the one at `/ram` of the other.  From there on every call by path
finds a mounted state and leaves one.
-/
import OsAgentLab.Ancestry
import OsAgentLab.Fat32.Mount

namespace OsAgentLab

/-- `MAX_MOUNTS`. -/
def maxMounts : Nat := 8

def Kernel.setVnode (k : Kernel) (vn : Nat) (vnode : Vnode) : Kernel :=
  { k with vnodes := k.vnodes.setSlot vn vnode }

/-- `fat32_init`; the result is a null pointer when there is no volume. -/
def fat32Init : Kern (Option Nat) := do
  match ← Prog.attempt (onVol fat32Mount) with
  | .error _ => pure none
  | .ok _ => do
      let k ← Prog.get
      let cluster := k.vol.fs.rootCluster
      match fat32AllocNode ⟨cluster, 0, 0x10, cluster, 0, 0, 0, 0⟩ k with
      | none => pure none
      | some (n, k) => do
          Prog.modify fun _ => k
          match vfsAllocVnode (fun vn => ⟨.dir, some .fat32, n, some vn, []⟩) k with
          | none => pure none
          | some (vn, k) => do
              Prog.modify fun _ => k
              pure (some vn)

/-- `ramfs_init`. -/
def ramfsInit : Kern (Option Nat) := do
  let k ← Prog.get
  match k.ramNodes.firstFree ramfsMaxNodes with
  | none => pure none
  | some n => do
      Prog.modify fun k =>
        { k with ramNodes := k.ramNodes.take n ⟨.dir, [], some n, none, none, 0, fun _ => 0⟩ }
      let k ← Prog.get
      match vfsAllocVnode (fun vn => ⟨.dir, some .ramfs, n, some vn, []⟩) k with
      | none => pure none
      | some (vn, k) => do
          Prog.modify fun _ => k
          pure (some vn)

/-- `vfs_mount`. -/
def vfsMount : Option Nat → Option Nat → Kern Unit
  | some mountpoint, some root => do
      let k ← Prog.get
      if maxMounts ≤ k.mounts.length then Prog.fail .nospc
      else do
        Prog.modify fun k => { k with mounts := k.mounts ++ [(mountpoint, root)] }
        Prog.modify fun k => k.setVnode root
          { k.vnode root with
            name := if (k.vnode root).name = [] then (k.vnode mountpoint).name
              else (k.vnode root).name
            parent := ((k.vnode mountpoint).parent).or (k.vnode root).parent }
  | _, _ => Prog.fail .inval

/-- The string `"/ram"`. -/
def ramPath : CName := [47, 114, 97, 109]

/-- The string `"ram"`. -/
def ramName : CName := [114, 97, 109]

/-- The part of `kernel_main` that sets the file system up.  The loop that lists the root
directory afterwards changes nothing. -/
def mountRoot : Kern Unit := do
  match ← fat32Init with
  | none => pure ()
  | some root => do
      Prog.modify fun k => { k with root := some root, cwd := some root }
      match ← ramfsInit with
      | none => pure ()
      | some ram => do
          match ← Prog.attempt (vfsLookupAt none ramPath) with
          | .error _ => pure ()
          | .ok mp => do
              let _ ← Prog.attempt (vfsMount mp (some ram))
              pure ()

/-- The kernel before its start; its variables are zero. -/
def zeroKernel (disk : Disk) : Kernel where
  vol := ⟨disk, .zero⟩
  fatNodes := ⟨fun _ => false, fun _ => ⟨0, 0, 0, 0, 0, 0, 0, 0⟩⟩
  vnodes := ⟨fun _ => false, fun _ => ⟨.file, none, 0, none, []⟩⟩
  ramNodes := ⟨fun _ => false, fun _ => ⟨.file, [], none, none, none, 0, fun _ => 0⟩⟩
  mounts := []
  root := none
  cwd := none

/-- The vnodes between the two inits and the mount: two roots, each its own parent, and
children of the first. -/
structure TwoRoots (fatRoot ramRoot : Nat) (k : Kernel) : Prop where
  mounts : k.mounts = []
  root : k.root = some fatRoot
  cwd : k.cwd = some fatRoot
  rootUsed : k.vnodes.used fatRoot = true
  ramUsed : k.vnodes.used ramRoot = true
  ne : ramRoot ≠ fatRoot
  rootVnode : (k.vnode fatRoot).parent = some fatRoot ∧ (k.vnode fatRoot).name = []
  rootType : (k.vnode fatRoot).type = .dir
  ramVnode : (k.vnode ramRoot).type = .dir ∧ (k.vnode ramRoot).name = []
  ramOps : (k.vnode ramRoot).ops = some .ramfs
  parent : ∀ vn p, k.vnodes.used vn = true → (k.vnode vn).parent = some p →
    p = fatRoot ∨ p = ramRoot
  node : ∀ vn, k.vnodes.used vn = true → (k.vnode vn).ops = some .fat32 →
    k.fatNodes.used (k.vnode vn).data = true

variable {k : Kernel} {root ram : Nat}

section Mount

/-- Without a mount every vnode is stable. -/
theorem holding_of_unmounted (hmounts : k.mounts = []) (hroot : k.root = some root)
    (hcwd : k.cwd = some root) (hused : k.vnodes.used root = true)
    (hparent : ∀ vn p, k.vnodes.used vn = true → (k.vnode vn).parent = some p →
      k.vnodes.used p = true) : Holding [root] k := by
  have hstable : ∀ vn, k.vnodes.used vn = true → Stable k vn := by
    intro vn hvn
    refine ⟨hvn, ?_⟩
    rw [hmounts]
    rfl
  refine ⟨⟨fun vn hvn => ?_, fun vn hvn => ?_, fun m hm => ?_,
    fun vn p hvn hp => hstable p (hparent vn p hvn hp)⟩, fun vn hvn => ?_⟩
  · cases hroot.symm.trans hvn
    exact hstable root hused
  · cases hcwd.symm.trans hvn
    exact hstable root hused
  · rw [hmounts] at hm
    cases hm
  · cases List.mem_singleton.mp hvn
    exact hstable root hused

theorem naming_of_unmounted (hmounts : k.mounts = []) (hroot : k.root = some root)
    (hcwd : k.cwd = some root) (hused : k.vnodes.used root = true)
    (hvnode : (k.vnode root).parent = some root ∧ (k.vnode root).name = [])
    (hnode : ∀ vn, k.vnodes.used vn = true → (k.vnode vn).ops = some .fat32 →
      k.fatNodes.used (k.vnode vn).data = true) : Naming [root] k := by
  have hpath : PathOf k root [] := .root hroot hused
  refine ⟨⟨fun vn hvn => ?_, fun vn hvn => ?_, fun m hm => ?_, ?_, hnode⟩, fun vn hvn => ?_⟩
  · cases hroot.symm.trans hvn
    exact ⟨hused, hvnode⟩
  · cases hcwd.symm.trans hvn
    exact ⟨_, hpath⟩
  · rw [hmounts] at hm
    cases hm
  · rw [hmounts]
    exact Nat.zero_le 1
  · cases List.mem_singleton.mp hvn
    exact ⟨_, hpath⟩

theorem TwoRoots.holding (h : TwoRoots root ram k) : Holding [root] k := by
  refine holding_of_unmounted h.mounts h.root h.cwd h.rootUsed fun vn p hused hp => ?_
  rcases h.parent vn p hused hp with rfl | rfl
  · exact h.rootUsed
  · exact h.ramUsed

theorem TwoRoots.naming (h : TwoRoots root ram k) : Naming [root] k :=
  naming_of_unmounted h.mounts h.root h.cwd h.rootUsed h.rootVnode h.node

theorem takesUnder_twoRoots : TakesUnder root (TwoRoots root ram) where
  frame := by
    intro k k' h hvnodes hmounts hroot hcwd hnodes
    have hvnode : ∀ vn, k'.vnode vn = k.vnode vn := fun vn => congrArg (fun p => p.slot vn) hvnodes
    exact {
      mounts := hmounts.trans h.mounts
      root := hroot.trans h.root
      cwd := hcwd.trans h.cwd
      rootUsed := hvnodes ▸ h.rootUsed
      ramUsed := hvnodes ▸ h.ramUsed
      ne := h.ne
      rootVnode := (hvnode root).symm ▸ h.rootVnode
      rootType := (hvnode root).symm ▸ h.rootType
      ramVnode := (hvnode ram).symm ▸ h.ramVnode
      ramOps := (hvnode ram).symm ▸ h.ramOps
      node := fun vn hused hops => by
        rw [hvnode] at hops ⊢
        exact hnodes _ (h.node vn (hvnodes ▸ hused) hops)
      parent := fun vn p hused hp => h.parent vn p (hvnodes ▸ hused) (hvnode vn ▸ hp) }
  take := by
    intro k i vnode h hi hparent hdata
    have hne : ∀ {vn}, k.vnodes.used vn = true → vn ≠ i := by
      rintro vn hused rfl
      rw [hi] at hused
      cases hused
    have hslot : ∀ {vn}, vn ≠ i →
        ({ k with vnodes := k.vnodes.take i vnode } : Kernel).vnode vn = k.vnode vn := by
      intro vn hvn
      simp [Kernel.vnode, hvn]
    exact {
      mounts := h.mounts
      root := h.root
      cwd := h.cwd
      rootUsed := by simp [h.rootUsed]
      ramUsed := by simp [h.ramUsed]
      ne := h.ne
      rootVnode := (hslot (hne h.rootUsed)).symm ▸ h.rootVnode
      rootType := (hslot (hne h.rootUsed)).symm ▸ h.rootType
      ramVnode := (hslot (hne h.ramUsed)).symm ▸ h.ramVnode
      ramOps := (hslot (hne h.ramUsed)).symm ▸ h.ramOps
      node := by
        intro vn hused hops
        by_cases heq : vn = i
        · subst heq
          have hnew : ({ k with vnodes := k.vnodes.take vn vnode } : Kernel).vnode vn = vnode := by
            simp [Kernel.vnode]
          rw [hnew] at hops ⊢
          exact hdata hops
        · rw [hslot heq] at hops ⊢
          exact h.node vn (by simpa [heq] using hused) hops
      parent := by
        intro vn p hused hp
        by_cases heq : vn = i
        · subst heq
          have hnew : ({ k with vnodes := k.vnodes.take vn vnode } : Kernel).vnode vn = vnode := by
            simp [Kernel.vnode]
          rw [hnew, hparent] at hp
          cases hp
          exact Or.inl rfl
        · rw [hslot heq] at hp
          exact h.parent vn p (by simpa [heq] using hused) hp }

/-- The vnodes with the ramfs mounted on `point`. -/
structure RamMounted (fatRoot ramRoot point : Nat) (k : Kernel) : Prop where
  mounts : k.mounts = [(point, ramRoot)]
  root : k.root = some fatRoot
  cwd : k.cwd = some fatRoot
  rootUsed : k.vnodes.used fatRoot = true
  ne : ramRoot ≠ fatRoot
  rootVnode : (k.vnode fatRoot).parent = some fatRoot ∧ (k.vnode fatRoot).name = []
  mount : RamMount k (point, ramRoot)
  parent : ∀ vn p, k.vnodes.used vn = true → (k.vnode vn).parent = some p →
    p = fatRoot ∨ p = ramRoot
  node : ∀ vn, k.vnodes.used vn = true → (k.vnode vn).ops = some .fat32 →
    k.fatNodes.used (k.vnode vn).data = true

/-- A mount whose place is a child of the FAT32 root. -/
theorem vfsMount_ramMounted {mp : Nat} {name : CName} (h : TwoRoots root ram k)
    (hmp : ChildOf root name mp k) (hname : IsComponent name) :
    ∃ k', vfsMount (some mp) (some ram) k = (.ok (), k') ∧ RamMounted root ram mp k' := by
  have hcomponent := hname.of_nocase hmp.name
  have hmpRam : mp ≠ ram := fun heq => hcomponent.ne_nil (heq ▸ h.ramVnode.2)
  let k' : Kernel := { k with mounts := [(mp, ram)] }.setVnode ram
    { k.vnode ram with name := (k.vnode mp).name, parent := some root }
  have hrun : vfsMount (some mp) (some ram) k = (.ok (), k') := by
    rw [vfsMount, Prog.get_bind, if_neg (by rw [h.mounts]; decide)]
    rw [Prog.modify_bind, Prog.modify_apply]
    have hvnode : ∀ vn, ({ k with mounts := k.mounts ++ [(mp, ram)] } : Kernel).vnode vn
      = k.vnode vn := fun _ => rfl
    rw [hvnode, hvnode, if_pos h.ramVnode.2, hmp.parent, h.mounts]
    rfl
  have hother : ∀ {vn}, vn ≠ ram → k'.vnode vn = k.vnode vn := by
    intro vn hvn
    simp [k', Kernel.vnode, Kernel.setVnode, hvn]
  have hram : k'.vnode ram = { k.vnode ram with name := (k.vnode mp).name, parent := some root } := by
    simp [k', Kernel.vnode, Kernel.setVnode]
  refine ⟨k', hrun, rfl, h.root, h.cwd, h.rootUsed, h.ne, ?_, ?_, fun vn p hused hp => ?_,
    fun vn hused hops => ?_⟩
  · rw [hother h.ne.symm]
    exact h.rootVnode
  · exact {
      usedPoint := hmp.used
      usedRoot := h.ramUsed
      parents := ⟨root, h.root, h.rootUsed, (hother h.ne.symm).symm ▸ h.rootType,
        (hother hmpRam).symm ▸ hmp.parent, by rw [hram]⟩
      ne_root := fun hroot => h.ne (Option.some.inj (hroot.symm.trans h.root))
      type := by
        rw [hram]
        exact h.ramVnode.1
      name := by rw [hram, hother hmpRam]
      component := (hother hmpRam).symm ▸ hcomponent }
  · by_cases heq : vn = ram
    · rw [heq, hram] at hp
      cases hp
      exact Or.inl rfl
    · rw [hother heq] at hp
      exact h.parent vn p hused hp
  · by_cases heq : vn = ram
    · rw [heq, hram] at hops
      cases h.ramOps.symm.trans hops
    · rw [hother heq] at hops ⊢
      exact h.node vn hused hops

theorem RamMounted.holding {point : Nat} (h : RamMounted root ram point k) : Holding [root] k := by
  have hnamed := h.mount.component.ne_nil
  have hpointRoot : point ≠ root := fun heq => hnamed (heq ▸ h.rootVnode.2)
  have hisRoot : vfsIsRootVnode k (some root) = true := by simp [vfsIsRootVnode, h.root]
  have hramParent : (k.vnode ram).parent = some root := by
    obtain ⟨r, hr, _, _, _, hparent⟩ := h.mount.parents
    rw [h.root.symm.trans hr, hparent]
  have hstableRoot : Stable k root := by
    refine ⟨h.rootUsed, ?_⟩
    have hnomatch : nameEqNocase [] (k.vnode point).name = false := by
      cases hname : (k.vnode point).name with
      | nil => exact absurd hname hnamed
      | cons c rest => rfl
    rw [h.mounts, vfsFollowMounts, if_neg hpointRoot, h.rootVnode.2, hnomatch,
      if_neg fun hall => Bool.false_ne_true hall.2.2]
    rfl
  have hstableRam : Stable k ram := by
    refine ⟨h.mount.usedRoot, ?_⟩
    rw [h.mounts, vfsFollowMounts]
    by_cases hpoint : point = ram
    · rw [if_pos hpoint]
    · rw [if_neg hpoint, hramParent,
        if_pos ⟨h.mount.type, hisRoot, h.mount.name.symm ▸ nameEqNocase_refl _⟩]
  refine ⟨⟨fun vn hvn => ?_, fun vn hvn => ?_, fun m hm => ?_, fun vn p hused hp => ?_⟩,
    fun vn hvn => ?_⟩
  · cases h.root.symm.trans hvn
    exact hstableRoot
  · cases h.cwd.symm.trans hvn
    exact hstableRoot
  · rw [h.mounts] at hm
    cases List.mem_singleton.mp hm
    exact ⟨h.mount.usedPoint, hstableRam⟩
  · rcases h.parent vn p hused hp with rfl | rfl
    · exact hstableRoot
    · exact hstableRam
  · cases List.mem_singleton.mp hvn
    exact hstableRoot

theorem RamMounted.naming {point : Nat} (h : RamMounted root ram point k) : Naming [root] k := by
  have hpath : PathOf k root [] := .root h.root h.rootUsed
  refine ⟨⟨fun vn hvn => ?_, fun vn hvn => ?_, fun m hm => ?_, ?_, h.node⟩, fun vn hvn => ?_⟩
  · cases h.root.symm.trans hvn
    exact ⟨h.rootUsed, h.rootVnode⟩
  · cases h.cwd.symm.trans hvn
    exact ⟨_, hpath⟩
  · rw [h.mounts] at hm
    cases List.mem_singleton.mp hm
    exact h.mount
  · rw [h.mounts]
    exact Nat.le_refl 1
  · cases List.mem_singleton.mp hvn
    exact ⟨_, hpath⟩

end Mount

section Start

/-- No vnode is in use, and nothing is mounted. -/
structure Unmounted (k : Kernel) : Prop where
  free : ∀ vn, k.vnodes.used vn = false
  mounts : k.mounts = []
  root : k.root = none

/-- The FAT32 root is the only vnode. -/
structure OneRoot (fatRoot : Nat) (k : Kernel) : Prop where
  used : ∀ vn, k.vnodes.used vn = true ↔ vn = fatRoot
  vnode : (k.vnode fatRoot).parent = some fatRoot ∧ (k.vnode fatRoot).name = []
  type : (k.vnode fatRoot).type = .dir
  node : k.fatNodes.used (k.vnode fatRoot).data = true
  mounts : k.mounts = []

/-- What the start leaves behind when there is a root. -/
def Ready (k : Kernel) : Prop := ∀ root, k.root = some root → Holding [root] k ∧ Naming [root] k

theorem ready_of_root (hroot : k.root = some root) (hholding : Holding [root] k)
    (hnaming : Naming [root] k) : Ready k := by
  intro r hr
  cases hroot.symm.trans hr
  exact ⟨hholding, hnaming⟩

theorem TwoRoots.ready (h : TwoRoots root ram k) : Ready k :=
  ready_of_root h.root h.holding h.naming

theorem fat32Init_oneRoot :
    Prog.Triple Unmounted fat32Init
      (fun r k => r.elim (k.root = none) fun root => OneRoot root k) (fun _ _ => True)
      (fun _ => True) := by
  have hmount : Prog.Keeps Unmounted (onVol fat32Mount) :=
    Prog.Keeps.zoom fun _ _ hk => ⟨hk.free, hk.mounts, hk.root⟩
  refine Prog.Triple.bind (hmount.attempt.conseq (fun _ => id) (fun _ _ => id)
    (fun _ _ _ => trivial) fun _ _ => trivial) fun r => ?_
  cases r with
  | error e => exact Prog.Triple.pure fun k hk => hk.root
  | ok _ =>
      refine Prog.Triple.get_bind fun t ht => ?_
      simp only [fat32AllocNode]
      cases t.fatNodes.firstFree fat32NodePoolSize with
      | none => exact Prog.Triple.pure fun s hs => hs ▸ ht.root
      | some n =>
          simp only [vfsAllocVnode]
          cases hi : t.vnodes.firstFree vnodePoolSize with
          | none =>
              exact fun s _ => ht.root
          | some i =>
              intro s _
              refine ⟨fun vn => ?_, ?_, ?_, ?_, ht.mounts⟩
              · simp [ht.free vn]
              · simp [Kernel.vnode]
              · simp [Kernel.vnode]
              · simp [Kernel.vnode]

theorem OneRoot.ready (h : OneRoot root k) (hroot : k.root = some root)
    (hcwd : k.cwd = some root) : Ready k := by
  have hused : k.vnodes.used root = true := (h.used root).mpr rfl
  refine ready_of_root hroot
    (holding_of_unmounted h.mounts hroot hcwd hused fun vn p hvn hp => ?_)
    (naming_of_unmounted h.mounts hroot hcwd hused h.vnode fun vn hvn _ => ?_)
  · cases (h.used vn).mp hvn
    cases h.vnode.1.symm.trans hp
    exact hused
  · cases (h.used vn).mp hvn
    exact h.node

theorem ramfsInit_twoRoots :
    Prog.Triple (fun k => OneRoot root k ∧ k.root = some root ∧ k.cwd = some root) ramfsInit
      (fun r k => r.elim (Ready k) fun ram => TwoRoots root ram k) (fun _ _ => True)
      (fun _ => True) := by
  refine Prog.Triple.get_bind fun t ht => ?_
  obtain ⟨hone, hroot, hcwd⟩ := ht
  cases t.ramNodes.firstFree ramfsMaxNodes with
  | none => exact Prog.Triple.pure fun s hs => hs ▸ hone.ready hroot hcwd
  | some n =>
      intro s hs
      subst hs
      dsimp only
      rw [Prog.modify_bind, Prog.get_bind, vfsAllocVnode]
      dsimp only
      cases hi : s.vnodes.firstFree vnodePoolSize with
      | none => exact OneRoot.ready ⟨hone.used, hone.vnode, hone.type, hone.node, hone.mounts⟩ hroot hcwd
      | some i =>
          have hne : i ≠ root := by
            rintro rfl
            have hfree := (Pool.firstFree_eq_some hi).2
            rw [(hone.used i).mpr rfl] at hfree
            cases hfree
          have hother : ∀ v, (s.vnodes.take i v).slot root = s.vnode root := by
            intro v
            simp [Kernel.vnode, hne.symm]
          refine ⟨hone.mounts, hroot, hcwd, ?_, ?_, hne, ?_, ?_, ?_, ?_, fun vn p hused hp => ?_,
            fun vn hused hops => ?_⟩
          · simp [(hone.used root).mpr rfl]
          · simp
          · simp only [Kernel.vnode, hother]
            exact hone.vnode
          · simp only [Kernel.vnode, hother]
            exact hone.type
          · simp [Kernel.vnode]
          · simp [Kernel.vnode]
          · by_cases heq : vn = i
            · subst heq
              simp only [Kernel.vnode, Pool.take_slot, if_true] at hp
              cases hp
              exact Or.inr rfl
            · have hold : vn = root := (hone.used vn).mp (by simpa [heq] using hused)
              subst hold
              simp only [Kernel.vnode, hother] at hp
              cases hone.vnode.1.symm.trans hp
              exact Or.inl rfl
          · by_cases heq : vn = i
            · subst heq
              simp only [Kernel.vnode, Pool.take_slot, if_true] at hops
              cases hops
            · have hold : vn = root := (hone.used vn).mp (by simpa [heq] using hused)
              subst hold
              simp only [Kernel.vnode, hother]
              exact hone.node

/-- The lookup of a name in the FAT32 root before anything is mounted. -/
theorem lookup_twoRoots {path name : CName} (hpath : pathComponents path = [name])
    (habsolute : path.head? = some 47) (hdot : name ≠ dotName) (hdots : name ≠ dotDotName) :
    Prog.Triple (TwoRoots root ram) (vfsLookupAt none path)
      (fun next k => TwoRoots root ram k ∧ Delivered root name next k)
      (fun _ => TwoRoots root ram) (TwoRoots root ram) := by
  refine @Prog.Triple.bind _ _ _ _ _ _ _ _
    (fun start k => TwoRoots root ram k ∧ start = some root) _ _ (fun k hk => ?_) fun start => ?_
  · simp only [vfsStart, if_pos habsolute, hk.root]
    refine ⟨hk, ?_⟩
    rw [vfsFollowMount, hk.mounts]
    rfl
  refine Prog.Triple.assume (fun hstart => ?_) fun s hs => hs.2
  subst hstart
  have hchild : ∀ vn k, TwoRoots root ram k → (k.vnode root).type = .dir →
      ChildOf root name vn k →
      TwoRoots root ram k ∧ ChildOf root name (vfsFollowMounts k vn k.mounts) k := by
    intro vn k hk _ hvn
    rw [hk.mounts]
    exact ⟨hk, hvn⟩
  rw [hpath, vfsWalk]
  have henter := @vfsEnter_child root name _
    (fun vn k => TwoRoots root ram k ∧ ChildOf root name vn k) false takesUnder_twoRoots
    (fun _ hk => hk.rootUsed) hdot hdots hchild
  refine Prog.Triple.bind (henter.pre fun _ hk => hk.1) fun next => Prog.Triple.pure fun k hk => ?_
  cases next with
  | none => exact hk
  | some vn => exact hk

theorem mountRoot_ready (disk : Disk) :
    Prog.Triple (fun k => k = zeroKernel disk) mountRoot (fun _ => Ready) (fun _ _ => True)
      (fun _ => True) := by
  have hzero : ∀ k, k = zeroKernel disk → Unmounted k := by
    rintro _ rfl
    exact ⟨fun _ => rfl, rfl, rfl⟩
  refine (Prog.Triple.bind fat32Init_oneRoot fun r => ?_).pre hzero
  cases r with
  | none =>
      refine Prog.Triple.pure fun k hk root hroot => ?_
      cases hk.symm.trans hroot
  | some root =>
      refine @Prog.Triple.bind _ _ _ _ _ _ _ _
        (fun _ k => OneRoot root k ∧ k.root = some root ∧ k.cwd = some root) _ _
        (Prog.Triple.modify fun k hk => ⟨⟨hk.used, hk.vnode, hk.type, hk.node, hk.mounts⟩, rfl, rfl⟩) fun _ => ?_
      refine Prog.Triple.bind ramfsInit_twoRoots fun r => ?_
      cases r with
      | none => exact Prog.Triple.pure fun _ hk => hk
      | some ram =>
          refine @Prog.Triple.bind _ _ _ _ _ _ _ _
            (fun r k => TwoRoots root ram k ∧ ∀ next, r = .ok next → Delivered root ramName next k)
            _ _ ?_ fun r => ?_
          · have hlookup := @lookup_twoRoots root ram ramPath ramName (by decide) rfl (by decide)
              (by decide)
            refine Prog.Triple.attempt (hlookup.conseq (fun _ => id) (fun next s hs => ⟨hs.1, ?_⟩)
              (fun e s hs => ⟨hs, ?_⟩) fun _ _ => trivial)
            · rintro _ ⟨⟩
              exact hs.2
            · rintro _ ⟨⟩
          cases r with
          | error e => exact Prog.Triple.pure fun k hk => hk.1.ready
          | ok mp =>
              refine @Prog.Triple.bind _ _ _ _ _ _ _ _ (fun _ => Ready) _ _ (fun k hk => ?_)
                fun _ => Prog.Triple.pure fun _ hk => hk
              cases mp with
              | none => exact hk.1.ready
              | some mp =>
                  have hname : IsComponent ramName :=
                    ⟨by decide, by decide, by decide, by decide, by decide⟩
                  obtain ⟨k', hrun, hmounted⟩ := vfsMount_ramMounted hk.1 (hk.2 _ rfl) hname
                  simp only [Prog.attempt, hrun]
                  exact ready_of_root hmounted.root hmounted.holding hmounted.naming

end Start

section Run

/-- A call on the file system that delivers no vnode to hold.  Calls that only read, such as
`vfs_stat`, leave the state as it is and are left out. -/
inductive VfsCall where
  | create (path : CName) (out : Bool)
  | mkdir (path : CName) (out : Bool)
  | unlink (path : CName)
  | read (vn : Option Nat) (len offset : Nat)
  | write (vn : Option Nat) (buf : List UInt8) (offset : Nat)
  | truncate (vn : Option Nat) (size : Nat)

/-- The call, made relative to `cwd`. -/
def VfsCall.run (cwd : Option Nat) : VfsCall → Kern Unit
  | .create path out => do
      let _ ← vfsCreateAt cwd path out
      pure ()
  | .mkdir path out => do
      let _ ← vfsMkdirAt cwd path out
      pure ()
  | .unlink path => vfsUnlinkAt cwd path
  | .read vn len offset => do
      let _ ← vfsRead vn len offset
      pure ()
  | .write vn buf offset => do
      let _ ← vfsWrite vn buf offset
      pure ()
  | .truncate vn size => vfsTruncate vn size

/-- The vnode that a lookup delivers to its caller. -/
def deliveredVnode : Outcome Errno (Option Nat) → List Nat
  | .ok (some vn) => [vn]
  | _ => []

/-- The states of the kernel after its start and any calls, with the vnodes that lookups
have delivered; a call is relative to one of them or to the global directory. -/
inductive Reached : List Nat → Kernel → Prop where
  | boot {disk : Disk} {k : Kernel} {root : Nat} (hrun : mountRoot (zeroKernel disk) = (.ok (), k))
      (hroot : k.root = some root) : Reached [root] k
  | lookup {held : List Nat} {k k' : Kernel} {cwd : Option Nat} {path : CName}
      {r : Outcome Errno (Option Nat)} (h : Reached held k) (hcwd : CwdOf held cwd)
      (hrun : vfsLookupAt cwd path k = (r, k')) : Reached (deliveredVnode r ++ held) k'
  | call {held : List Nat} {k : Kernel} {cwd : Option Nat} (h : Reached held k)
      (hcwd : CwdOf held cwd) (c : VfsCall) : Reached held (c.run cwd k).2
  | setCwd {held : List Nat} {k : Kernel} {vn : Nat} (h : Reached held k) (hvn : vn ∈ held) :
      Reached held { k with cwd := some vn }

theorem keeps_after {α : Type} {I : Kernel → Prop} {m : Kern α} (h : Prog.Keeps I m) (hk : I k) :
    I (m k).2 := by
  have hpost := h k hk
  cases hrun : m k with
  | mk r k' =>
      rw [hrun] at hpost
      cases r <;> exact hpost

/-- A call keeps what walks keep. -/
theorem VfsCall.keeps {I : Kernel → Prop} {At : Nat → Kernel → Prop} (w : WalkInvariant I At)
    {dir : Nat} (hframe : TakesUnder dir I) {cwd : Option Nat}
    (hcwd : WalkInvariant.CwdAt I At cwd) (c : VfsCall) : Prog.Keeps I (c.run cwd) := by
  have hdone : ∀ {α : Type} {m : Kern α}, Prog.Keeps I m →
      Prog.Keeps I (m >>= fun _ => (pure () : Kern Unit)) :=
    fun hm => Prog.Keeps.bind hm fun _ => Prog.Keeps.pure ()
  cases c with
  | create path out => exact hdone (w.createAt hcwd path out)
  | mkdir path out => exact hdone (w.mkdirAt hcwd path out)
  | unlink path => exact w.unlinkAt hcwd path
  | read vn len offset =>
      exact hdone (vfsDispatch_keeps (fun ops vn => vnodeRead_keeps hframe ops vn len offset) vn)
  | write vn buf offset =>
      exact hdone (vfsDispatch_keeps (fun ops vn => vnodeWrite_keeps hframe ops vn buf offset) vn)
  | truncate vn size =>
      exact vfsDispatch_keeps (fun ops vn => vnodeTruncate_keeps hframe ops vn size) vn

/-- The root is among the vnodes that are held. -/
theorem Reached.held_nonempty {held : List Nat} (h : Reached held k) : ∃ dir, dir ∈ held := by
  induction h with
  | boot _ _ => exact ⟨_, List.mem_singleton_self _⟩
  | lookup _ _ _ ih => exact ih.imp fun _ hdir => List.mem_append_right _ hdir
  | call _ _ _ ih => exact ih
  | setCwd _ _ ih => exact ih

/-- A fact about the kernel and the vnodes that are held that walks keep. -/
structure RunInvariant (I : List Nat → Kernel → Prop) : Prop where
  walks : ∀ held, WalkInvariant (I held) fun vn => I (vn :: held)
  frame : ∀ {held : List Nat} {dir : Nat}, dir ∈ held → TakesUnder dir (I held)
  cwd : ∀ {held : List Nat} {cwd : Option Nat}, CwdOf held cwd →
    WalkInvariant.CwdAt (I held) (fun vn => I (vn :: held)) cwd
  setCwd : ∀ {held : List Nat} {k : Kernel} {vn : Nat}, I held k → vn ∈ held →
    I held { k with cwd := some vn }

/-- What the start establishes and walks keep holds in every reached state. -/
theorem RunInvariant.reached {I : List Nat → Kernel → Prop} (hI : RunInvariant I)
    (hboot : ∀ k root, Ready k → k.root = some root → I [root] k) {held : List Nat}
    (h : Reached held k) : I held k := by
  induction h with
  | boot hrun hroot => exact hboot _ _ ((mountRoot_ready _).ok rfl hrun) hroot
  | @lookup held k k' cwd path r h hcwd hrun ih =>
      have hpost := (hI.walks held).lookupAt (hI.cwd hcwd) path k ih
      rw [hrun] at hpost
      cases r with
      | ok vn =>
          cases vn with
          | none => exact And.left hpost
          | some vn => exact hpost
      | err e => exact hpost
      | fault => exact hpost
      | diverges => exact hpost
  | call h hcwd c ih =>
      obtain ⟨dir, hdir⟩ := h.held_nonempty
      exact keeps_after (c.keeps (hI.walks _) (hI.frame hdir) (hI.cwd hcwd)) ih
  | setCwd _ hvn ih => exact hI.setCwd ih hvn

theorem holding_run : RunInvariant Holding where
  walks := holding_walks
  frame := takesUnder_holds
  cwd := CwdOf.holding
  setCwd := by
    intro held k vn h hvn
    have hstable : ∀ {i}, Stable k i → Stable { k with cwd := some vn } i :=
      fun hi => hi.frame rfl rfl rfl
    refine ⟨⟨fun i hi => hstable (h.mounted.root i hi), fun i hi => ?_, fun m hm => ?_,
      fun i p hused hp => hstable (h.mounted.parent i p hused hp)⟩,
      fun i hi => hstable (h.held i hi)⟩
    · cases hi
      exact hstable (h.held vn hvn)
    · exact ⟨(h.mounted.mounts m hm).1, hstable (h.mounted.mounts m hm).2⟩

theorem naming_run : RunInvariant Naming where
  walks := naming_walks
  frame _ := takesUnder_naming _
  cwd := CwdOf.naming
  setCwd := by
    intro held k vn h hvn
    have he : Extends k { k with cwd := some vn } := Extends.frame rfl rfl
    refine ⟨⟨h.named.root, fun c hc => ?_, fun m hm => (h.named.mount m hm).extends he,
      h.named.one, h.named.node⟩, fun i hi => (h.held i hi).imp fun _ hpath => hpath.extends he⟩
    cases hc
    exact (h.held vn hvn).imp fun _ hpath => hpath.extends he

/-- Every reached state is mounted, and the vnodes that are held are stable. -/
theorem Reached.holding {held : List Nat} (h : Reached held k) : Holding held k :=
  holding_run.reached (fun _ _ hready hroot => (hready _ hroot).1) h

/-- Every vnode that is held has a path from the root. -/
theorem Reached.naming {held : List Nat} (h : Reached held k) : Naming held k :=
  naming_run.reached (fun _ _ hready hroot => (hready _ hroot).2) h

end Run

end OsAgentLab
