/-
The table of vnodes under the operations of both file systems: an operation on a
directory takes vnodes that were free, with the directory as their parent, and
changes nothing else in the table.
-/
import OsAgentLab.Proc.Append
import OsAgentLab.Triple

namespace OsAgentLab

/-- A fact about the vnodes, the mounts and the root that stays true when a free vnode
is taken for a child of `dir`, with a FAT32 node in use if it is one of FAT32, and when
FAT32 nodes are taken. -/
structure TakesUnder (dir : Nat) (I : Kernel → Prop) : Prop where
  frame : ∀ {k k' : Kernel}, I k → k'.vnodes = k.vnodes → k'.mounts = k.mounts →
    k'.root = k.root → k'.cwd = k.cwd →
    (∀ n, k.fatNodes.used n = true → k'.fatNodes.used n = true) → I k'
  take : ∀ {k : Kernel} {i : Nat} {vnode : Vnode}, I k → k.vnodes.used i = false →
    vnode.parent = some dir →
    (vnode.ops = some .fat32 → k.fatNodes.used vnode.data = true) →
    I { k with vnodes := k.vnodes.take i vnode }

/-- `vn` is a child of `dir` with the name `name`, in upper or lower case. -/
structure ChildOf (dir : Nat) (name : CName) (vn : Nat) (k : Kernel) : Prop where
  used : k.vnodes.used vn = true
  parent : (k.vnode vn).parent = some dir
  name : nameEqNocase (k.vnode vn).name name = true

/-- All vnodes are in use. -/
def NoVnode (k : Kernel) : Prop := k.vnodes.firstFree vnodePoolSize = none

/-- What a successful lookup delivers: a child, or a null pointer when the vnodes have
run out. -/
def Delivered (dir : Nat) (name : CName) (r : Option Nat) (k : Kernel) : Prop :=
  r.elim (NoVnode k) fun vn => ChildOf dir name vn k

variable {I : Kernel → Prop} {dir : Nat} {name : CName} {k : Kernel}

/-- The fact together with a FAT32 node in use. -/
theorem TakesUnder.withUsed (h : TakesUnder dir I) (n : Nat) :
    TakesUnder dir fun k => I k ∧ k.fatNodes.used n = true where
  frame hk hv hm hr hc hn := ⟨h.frame hk.1 hv hm hr hc hn, hn n hk.2⟩
  take hk hi hparent hdata := ⟨h.take hk.1 hi hparent hdata, hk.2⟩

theorem ChildOf.taken {i : Nat} {vnode : Vnode} (hparent : vnode.parent = some dir)
    (hname : nameEqNocase vnode.name name = true) :
    ChildOf dir name i { k with vnodes := k.vnodes.take i vnode } := by
  have hslot : ({ k with vnodes := k.vnodes.take i vnode } : Kernel).vnode i = vnode := by
    simp [Kernel.vnode]
  exact ⟨by simp, by rw [hslot, hparent], by rw [hslot, hname]⟩

section Lookup

theorem onVol_keeps {α : Type} (h : TakesUnder dir I) (m : Fs α) : Prog.Keeps I (onVol m) :=
  Prog.Keeps.zoom fun _ _ hk => h.frame hk rfl rfl rfl rfl fun _ => id

/-- Opening an entry takes one vnode at most. -/
theorem fat32OpenHit_child (h : TakesUnder dir I) (c : Nat) (hit : DirHit) {name' : CName}
    (hname : nameEqNocase name' name = true) (hk : I k) :
    (∃ e, (fat32OpenHit dir c hit name' k).1 = .err e ∧
      (fat32OpenHit dir c hit name' k).2.vnodes = k.vnodes ∧ I (fat32OpenHit dir c hit name' k).2) ∨
    ∃ vn, (fat32OpenHit dir c hit name' k).1 = .ok vn ∧ I (fat32OpenHit dir c hit name' k).2 ∧
      ChildOf dir name vn (fat32OpenHit dir c hit name' k).2 := by
  have hnode : ∀ n node, I { k with fatNodes := k.fatNodes.take n node } :=
    fun n node => h.frame hk rfl rfl rfl rfl fun m hm => by simp [hm]
  rcases fat32OpenHit_cases dir c hit name' k with ⟨_, hrun⟩ | ⟨n, hn, ⟨_, hrun⟩ | ⟨i, hi, hrun⟩⟩
  · rw [hrun]
    exact Or.inl ⟨_, rfl, rfl, hk⟩
  · rw [hrun]
    exact Or.inl ⟨_, rfl, rfl, hnode _ _⟩
  · rw [hrun]
    have hfree : k.vnodes.used i = false := (Pool.firstFree_eq_some hi).2
    have htake := @TakesUnder.take dir I h { k with fatNodes := k.fatNodes.take n (hit.toNode c) } i
      ⟨if hit.raw.isDir then .dir else .file, some .fat32, n, some dir, name'⟩ (hnode _ _) hfree rfl
      fun _ => by simp
    refine Or.inr ⟨i, rfl, htake, ?_⟩
    exact @ChildOf.taken dir name { k with fatNodes := k.fatNodes.take n (hit.toNode c) } i
      ⟨if hit.raw.isDir then .dir else .file, some .fat32, n, some dir, name'⟩ rfl hname

theorem fat32LookupOp_child (h : TakesUnder dir I) (name : CName) :
    Prog.Triple I (fat32LookupOp dir name) (fun vn k => I k ∧ ChildOf dir name vn k)
      (fun _ => I) I := by
  intro k hk
  let J : Kernel × Option Nat → Prop := fun ctx =>
    I ctx.1 ∧ ∀ vn, ctx.2 = some vn → ChildOf dir name vn ctx.1
  have hcb : ∀ hit ctx, J ctx →
      J (fat32LookupCb name dir (k.fatNode dir).cluster hit ctx).2 := by
    intro hit ctx hctx
    rw [fat32LookupCb]
    by_cases hname : (!nameEqNocase hit.name name) = true
    · rw [if_pos hname]
      exact hctx
    rw [if_neg hname]
    have hmatch : nameEqNocase hit.name name = true := by simpa using hname
    have hopen := fat32OpenHit_child h (k.fatNode dir).cluster hit hmatch hctx.1
    cases hrun : fat32OpenHit dir (k.fatNode dir).cluster hit hit.name ctx.1 with
    | mk r k₁ =>
        rw [hrun] at hopen
        rcases hopen with ⟨e, rfl, hsame, hI⟩ | ⟨vn, rfl, hI, hchild⟩
        · refine ⟨hI, fun vn hvn => ?_⟩
          have hold := hctx.2 vn hvn
          have hvnode : k₁.vnode vn = ctx.1.vnode vn := congrArg (fun p => p.slot vn) hsame
          exact ⟨hsame ▸ hold.used, hvnode ▸ hold.parent, hvnode ▸ hold.name⟩
        · refine ⟨hI, fun vn' hvn => ?_⟩
          cases hvn
          exact hchild
  simp only [fat32LookupOp]
  cases hiter : fat32IterDir k.vol (k.fatNode dir).cluster
      (fat32LookupCb name dir (k.fatNode dir).cluster) (k, none) with
  | none => exact hk
  | some r =>
      have hlast : J r.2 := iterChain_keeps hcb _ _ _ _ _ ⟨hk, fun _ hnone => by cases hnone⟩ hiter
      obtain ⟨ret, k₁, found⟩ := r
      cases ret with
      | goOn => exact hlast.1
      | fail e => exact hlast.1
      | stop =>
          cases found with
          | none => exact hlast.1
          | some vn => exact ⟨hlast.1, hlast.2 vn rfl⟩

theorem ramfsSearch_name {fuel : Nat} {prev cur : Option Nat} {found : Option Nat × Nat}
    (h : ramfsSearch k name fuel prev cur = some (some found)) :
    nameEqNocase (k.ramNodes.slot found.2).name name = true := by
  induction fuel generalizing prev cur with
  | zero => cases cur <;> cases h
  | succ fuel ih =>
      cases cur with
      | none => cases h
      | some child =>
          rw [ramfsSearch] at h
          by_cases hname : nameEqNocase (k.ramNodes.slot child).name name = true
          · rw [if_pos hname] at h
            cases h
            exact hname
          · rw [if_neg hname] at h
            exact ih h

/-- The search delivers a node of that name and leaves the state alone. -/
theorem ramfsFind_name (dir : Nat) (name : CName) (I : Kernel → Prop) :
    Prog.Triple I (ramfsFind dir name)
      (fun found k => I k ∧ ∀ f, found = some f →
        nameEqNocase (k.ramNodes.slot f.2).name name = true) (fun _ => I) I := by
  intro k hk
  unfold ramfsFind
  cases hsearch : ramfsSearch k name ramfsMaxNodes none (k.ramNode dir).child with
  | none => exact hk
  | some found =>
      refine ⟨hk, fun f hf => ?_⟩
      subst hf
      exact ramfsSearch_name hsearch

theorem ramfsWrapNode_child (h : TakesUnder dir I) {n : Nat} (hk : I k)
    (hname : nameEqNocase (k.ramNodes.slot n).name name = true) :
    ∃ r k', ramfsWrapNode n dir k = (.ok r, k') ∧ I k' ∧ Delivered dir name r k' := by
  simp only [ramfsWrapNode, vfsAllocVnode]
  cases hi : k.vnodes.firstFree vnodePoolSize with
  | none => exact ⟨none, k, rfl, hk, hi⟩
  | some i =>
      exact ⟨some i, _, rfl, h.take hk (Pool.firstFree_eq_some hi).2 rfl (by rintro ⟨⟩),
        ChildOf.taken rfl hname⟩

theorem ramfsLookup_child (h : TakesUnder dir I) (name : CName) :
    Prog.Triple I (ramfsLookup dir name) (fun r k => I k ∧ Delivered dir name r k)
      (fun _ => I) I := by
  refine Prog.Triple.bind (ramfsFind_name dir name I) fun found => ?_
  cases found with
  | none => exact Prog.Triple.fail fun _ hk => hk.1
  | some found =>
      refine Prog.Triple.of_ok fun k hk => ?_
      obtain ⟨r, k', hrun, hpost⟩ := ramfsWrapNode_child h hk.1 (hk.2 found rfl)
      exact ⟨r, k', hrun, hpost⟩

/-- A lookup in `dir` takes vnodes for children of `dir`. -/
theorem vnodeLookup_child (h : TakesUnder dir I) (ops : FsOps) (name : CName) :
    Prog.Triple I (vnodeLookup ops dir name) (fun r k => I k ∧ Delivered dir name r k)
      (fun _ => I) I := by
  cases ops with
  | fat32 =>
      refine Prog.Triple.bind (fat32LookupOp_child h name) fun vn => ?_
      exact Prog.Triple.pure fun k hk => hk
  | ramfs => exact ramfsLookup_child h name

end Lookup

section Create

/-- What a successful create delivers when the caller passes a place for the vnode. -/
def Created (dir : Nat) (name : CName) (out : Bool) (r : Option Nat) (k : Kernel) : Prop :=
  out = true → Delivered dir name r k

theorem fat32OpenHit_created (h : TakesUnder dir I) (c : Nat) (hit : DirHit) (name : CName)
    (out : Bool) :
    Prog.Triple I (fat32OpenHit dir c hit name >>= fun vn => (pure (some vn) : Kern (Option Nat)))
      (fun r k => I k ∧ Created dir name out r k) (fun _ => I) I := by
  refine @Prog.Triple.bind _ _ _ _ _ _ _ _ (fun vn k => I k ∧ ChildOf dir name vn k) _ _
    (fun k hk => ?_) fun vn => Prog.Triple.pure fun k hk => ⟨hk.1, fun _ => hk.2⟩
  rcases fat32OpenHit_child h c hit (nameEqNocase_refl name) hk with
    ⟨e, herr, _, hI⟩ | ⟨vn, hok, hI, hchild⟩
  · cases hrun : fat32OpenHit dir c hit name k with
    | mk r k' =>
        rw [hrun] at herr hI
        obtain rfl := herr
        exact hI
  · cases hrun : fat32OpenHit dir c hit name k with
    | mk r k' =>
        rw [hrun] at hok hI hchild
        obtain rfl := hok
        exact ⟨hI, hchild⟩

/-- The end of `fat32_create_entry`, which makes the vnode of the new entry. -/
theorem fat32WrapNode_created (h : TakesUnder dir I) (n : Nat) (name : CName) (out : Bool) :
    Prog.Triple (fun k => I k ∧ k.fatNodes.used n = true) (do
        let k ← Prog.get
        match fat32WrapNode n dir name k with
        | none => Prog.fail .nomem
        | some (vn, k) => do
            Prog.modify fun _ => k
            pure (some vn) : Kern (Option Nat))
      (fun r k => I k ∧ Created dir name out r k) (fun _ => I) I := by
  refine Prog.Triple.get_bind fun t ht => ?_
  rw [fat32WrapNode, vfsAllocVnode]
  cases hi : t.vnodes.firstFree vnodePoolSize with
  | none =>
      refine Prog.Triple.fail fun s hs => ?_
      rw [hs]
      exact ht.1
  | some i =>
      refine @Prog.Triple.bind _ _ _ _ _ _ _ _ (fun _ k => I k ∧ ChildOf dir name i k) _ _
        (Prog.Triple.modify fun s _ => ?_) fun _ => Prog.Triple.pure fun k hk => ⟨hk.1, fun _ => hk.2⟩
      exact ⟨h.take ht.1 (Pool.firstFree_eq_some hi).2 rfl fun _ => ht.2,
        ChildOf.taken rfl (nameEqNocase_refl name)⟩

theorem fat32CreateEntry_child (h : TakesUnder dir I) (name : CName) (attr : UInt8) (out : Bool) :
    Prog.Triple I (fat32CreateEntry dir name attr out)
      (fun r k => I k ∧ Created dir name out r k) (fun _ => I) I := by
  refine Prog.Triple.get_bind fun t ht => ?_
  have hfix : ∀ s, s = t → I s := fun s hs => hs ▸ ht
  cases fat32ValidateName name with
  | error e => exact Prog.Triple.fail hfix
  | ok _ =>
      refine (Prog.Triple.bind (Prog.Keeps.attempt (onVol_keeps h _)) fun found => ?_).pre hfix
      cases found with
      | ok found =>
          refine Prog.Triple.ite (fun _ => ?_) fun _ => Prog.Triple.fail fun _ hk => hk
          refine Prog.Triple.ite (fun _ => Prog.Triple.fail fun _ hk => hk) fun _ => ?_
          refine Prog.Triple.ite (fun _ => fat32OpenHit_created h _ found name out) fun hout => ?_
          exact Prog.Triple.pure fun k hk => ⟨hk, fun htrue => absurd htrue hout⟩
      | error e =>
          cases e with
          | noent =>
              refine Prog.Triple.bind (onVol_keeps h _) fun added => ?_
              refine Prog.Triple.get_bind fun u hu => ?_
              rw [fat32AllocNode]
              cases hn : u.fatNodes.firstFree fat32NodePoolSize with
              | none => exact Prog.Triple.fail fun s hs => hs ▸ hu
              | some n =>
                  dsimp only
                  have hwith := h.withUsed n
                  refine @Prog.Triple.bind _ _ _ _ _ _ _ _
                    (fun _ k => I k ∧ k.fatNodes.used n = true) _ _
                    (Prog.Triple.modify fun s _ => ⟨h.frame hu rfl rfl rfl rfl fun m hm => by simp [hm],
                      by simp⟩) fun _ => ?_
                  have hplace := Prog.Keeps.orElse (e := Errno.io) (onVol_keeps hwith
                    (fat32DirEntryLocation (t.fatNode dir).cluster added.index))
                  refine Prog.Triple.bind (hplace.conseq (fun _ => id) (fun _ _ => id)
                    (fun _ _ hk => hk.1) fun _ hk => hk.1) fun place => ?_
                  refine @Prog.Triple.bind _ _ _ _ _ _ _ _
                    (fun _ k => I k ∧ k.fatNodes.used n = true) _ _
                    (Prog.Triple.modify fun s hs => hwith.frame hs rfl rfl rfl rfl fun _ => id)
                    fun _ => ?_
                  refine Prog.Triple.ite (fun _ => fat32WrapNode_created h n name out) fun hout => ?_
                  exact Prog.Triple.pure fun k hk => ⟨hk.1, fun htrue => absurd htrue hout⟩
          | _ => exact Prog.Triple.fail fun _ hk => hk

/-- The end of `ramfs_create` and `ramfs_mkdir`. -/
theorem ramfsWrapNode_created (h : TakesUnder dir I) (n : Nat) (name : CName) (out : Bool) :
    Prog.Triple (fun k => I k ∧ nameEqNocase (k.ramNodes.slot n).name name = true)
      (ramfsWrapNode n dir >>= fun vn => storeOut out vn)
      (fun r k => I k ∧ Created dir name out r k) (fun _ => I) I := by
  refine @Prog.Triple.bind _ _ _ _ _ _ _ _ (fun r k => I k ∧ Delivered dir name r k) _ _
    (Prog.Triple.of_ok fun k hk => ?_) fun r => ?_
  · obtain ⟨r, k', hrun, hpost⟩ := ramfsWrapNode_child h hk.1 hk.2
    exact ⟨r, k', hrun, hpost⟩
  · refine Prog.Triple.ite (fun _ => ?_) fun _ => Prog.Triple.crash fun _ hk => hk.1
    exact Prog.Triple.pure fun k hk => ⟨hk.1, fun _ => hk.2⟩

theorem ramfsMake_child (h : TakesUnder dir I) (type : VnodeType) (clash : Errno) (name : CName)
    (out : Bool) :
    Prog.Triple I (ramfsMake type clash dir name out)
      (fun r k => I k ∧ Created dir name out r k) (fun _ => I) I := by
  refine Prog.Triple.bind (ramfsFind_name dir name I) fun found => ?_
  cases found with
  | some found =>
      obtain ⟨prev, child⟩ := found
      refine Prog.Triple.get_bind fun t ht => Prog.Triple.ite
        (fun _ => Prog.Triple.fail fun s hs => hs ▸ ht.1) fun _ => ?_
      refine (ramfsWrapNode_created h child name out).pre fun s hs => ?_
      subst hs
      exact ⟨ht.1, ht.2 (prev, child) rfl⟩
  | none =>
      refine Prog.Triple.get_bind fun t ht => ?_
      dsimp only
      cases t.ramNodes.firstFree ramfsMaxNodes with
      | none => exact Prog.Triple.fail fun s hs => hs ▸ ht.1
      | some n =>
          refine @Prog.Triple.bind _ _ _ _ _ _ _ _ (fun _ => I) _ _
            (Prog.Triple.modify fun s hs => h.frame ht.1 (by rw [hs]) (by rw [hs]) (by rw [hs])
              (by rw [hs]) (by rw [hs]; exact fun _ => id)) fun _ => ?_
          refine @Prog.Triple.bind _ _ _ _ _ _ _ _
            (fun _ k => I k ∧ (k.ramNodes.slot n).name = name) _ _
            (Prog.Triple.modify fun s hs => ⟨h.frame hs rfl rfl rfl rfl fun _ => id, ?_⟩) fun _ => ?_
          · simp [Kernel.setRamNode]
          refine @Prog.Triple.bind _ _ _ _ _ _ _ _
            (fun _ k => I k ∧ nameEqNocase (k.ramNodes.slot n).name name = true) _ _
            (Prog.Triple.modify fun s hs => ⟨h.frame hs.1 rfl rfl rfl rfl fun _ => id, ?_⟩)
            fun _ => ramfsWrapNode_created h n name out
          have hname : (({ s.ramNodes.slot (t.vnode dir).data with
              child := some n } : RamfsNode).name) = (s.ramNodes.slot (t.vnode dir).data).name := rfl
          by_cases hself : n = (t.vnode dir).data
          · subst hself
            simp only [Kernel.setRamNode, Pool.setSlot_slot, if_true, hs.2]
            exact nameEqNocase_refl name
          · simp only [Kernel.setRamNode, Pool.setSlot_slot, if_neg hself, hs.2]
            exact nameEqNocase_refl name

/-- A create in `dir` takes vnodes for children of `dir`. -/
theorem vnodeCreate_child (h : TakesUnder dir I) (ops : FsOps) (name : CName) (out : Bool) :
    Prog.Triple I (vnodeCreate ops dir name out)
      (fun r k => I k ∧ Created dir name out r k) (fun _ => I) I := by
  cases ops with
  | fat32 => exact fat32CreateEntry_child h name 0 out
  | ramfs => exact ramfsMake_child h .file .isdir name out

theorem vnodeMkdir_child (h : TakesUnder dir I) (ops : FsOps) (name : CName) (out : Bool) :
    Prog.Triple I (vnodeMkdir ops dir name out)
      (fun r k => I k ∧ Created dir name out r k) (fun _ => I) I := by
  cases ops with
  | fat32 => exact fat32CreateEntry_child h name 0x10 out
  | ramfs => exact ramfsMake_child h .dir .exist name out

end Create

section Rest

/-- An unlink takes no vnode. -/
theorem vnodeUnlink_keeps (h : TakesUnder dir I) (ops : FsOps) (dir' : Nat) (name : CName) :
    Prog.Keeps I (vnodeUnlink ops dir' name) := by
  cases ops with
  | fat32 => exact Prog.Keeps.get_bind fun _ => onVol_keeps h _
  | ramfs =>
      refine Prog.Keeps.bind ((ramfsFind_name dir' name I).post fun _ _ hk => hk.1) fun found => ?_
      cases found with
      | none => exact Prog.Keeps.fail _
      | some found =>
          obtain ⟨prev, child⟩ := found
          refine Prog.Keeps.get_bind fun t => Prog.Keeps.ite (Prog.Keeps.fail _) ?_
          have hmodify : ∀ f : Kernel → Kernel, (∀ k, (f k).vnodes = k.vnodes) →
              (∀ k, (f k).mounts = k.mounts) → (∀ k, (f k).root = k.root) →
              (∀ k, (f k).cwd = k.cwd) → (∀ k, (f k).fatNodes = k.fatNodes) →
              Prog.Keeps I (Prog.modify f : Kern Unit) :=
            fun f hv hm hr hc hn => Prog.Keeps.modify fun k hk =>
              h.frame hk (hv k) (hm k) (hr k) (hc k) (by rw [hn]; exact fun _ => id)
          have hlast : Prog.Keeps I (Prog.modify fun k =>
              { k with ramNodes := k.ramNodes.release child } : Kern Unit) :=
            hmodify _ (fun _ => rfl) (fun _ => rfl) (fun _ => rfl) (fun _ => rfl) fun _ => rfl
          cases prev with
          | some p =>
              exact Prog.Keeps.bind (hmodify _ (fun _ => rfl) (fun _ => rfl) (fun _ => rfl)
                (fun _ => rfl) fun _ => rfl) fun _ => hlast
          | none =>
              exact Prog.Keeps.bind (hmodify _ (fun _ => rfl) (fun _ => rfl) (fun _ => rfl)
                (fun _ => rfl) fun _ => rfl) fun _ => hlast

theorem setFatNode_keeps (h : TakesUnder dir I) (n : Kernel → Nat) (node : Kernel → Fat32Node) :
    Prog.Keeps I (Prog.modify fun k => k.setFatNode (n k) (node k) : Kern Unit) :=
  Prog.Keeps.modify fun _ hk => h.frame hk rfl rfl rfl rfl fun _ => id

/-- A call that changes one node of the ramfs at most. -/
theorem keeps_of_ramNode {α : Type} (h : TakesUnder dir I) {m : Kern α}
    (hm : ∀ k, (m k).2 = k ∨ ∃ n node, (m k).2 = k.setRamNode n node) : Prog.Keeps I m := by
  intro k hk
  have hlast : I (m k).2 := by
    rcases hm k with hsame | ⟨n, node, hset⟩
    · rw [hsame]
      exact hk
    · rw [hset]
      exact h.frame hk rfl rfl rfl rfl fun _ => id
  cases hrun : m k with
  | mk r k' =>
      rw [hrun] at hlast
      cases r <;> exact hlast

theorem fat32EnsureChain_keeps (h : TakesUnder dir I) (n needed : Nat) :
    Prog.Keeps I (fat32EnsureChain n needed) :=
  Prog.Keeps.get_bind fun _ => Prog.Keeps.bind (onVol_keeps h _) fun _ =>
    Prog.Keeps.bind (setFatNode_keeps h (fun _ => n) _) fun _ => onVol_keeps h _

theorem vnodeRead_keeps (h : TakesUnder dir I) (ops : FsOps) (vn len offset : Nat) :
    Prog.Keeps I (vnodeRead ops vn len offset) := by
  cases ops with
  | fat32 =>
      refine Prog.Keeps.get_bind fun t => Prog.Keeps.bind (Prog.Keeps.orElse (onVol_keeps h _))
        fun node => Prog.Keeps.bind (setFatNode_keeps h (fun k => (k.vnode vn).data) fun _ => node)
          fun _ => ?_
      refine Prog.Keeps.ite (Prog.Keeps.fail _) ?_
      exact Prog.Keeps.bind (onVol_keeps h _) fun _ => Prog.Keeps.pure _
  | ramfs =>
      refine Prog.Keeps.of_snd fun k => ?_
      simp only [vnodeRead, ramfsRead]
      split
      · rfl
      · split <;> rfl

theorem vnodeWrite_keeps (h : TakesUnder dir I) (ops : FsOps) (vn : Nat) (buf : List UInt8)
    (offset : Nat) : Prog.Keeps I (vnodeWrite ops vn buf offset) := by
  cases ops with
  | fat32 =>
      refine Prog.Keeps.get_bind fun t => Prog.Keeps.ite (Prog.Keeps.fail _) ?_
      refine Prog.Keeps.ite (Prog.Keeps.pure _) ?_
      refine Prog.Keeps.bind (Prog.Keeps.orElse (fat32EnsureChain_keeps h _ _)) fun _ => ?_
      refine Prog.Keeps.get_bind fun t => Prog.Keeps.bind (onVol_keeps h _) fun _ => ?_
      refine Prog.Keeps.get_bind fun t => Prog.Keeps.ite ?_ (Prog.Keeps.pure _)
      refine Prog.Keeps.bind (setFatNode_keeps h (fun _ => _) _) fun _ => ?_
      exact Prog.Keeps.bind (Prog.Keeps.orElse (onVol_keeps h _)) fun _ => Prog.Keeps.pure _
  | ramfs =>
      refine keeps_of_ramNode h fun k => ?_
      rw [vnodeWrite, ramfsWrite]
      by_cases htype : (k.ramNode vn).type ≠ .file
      · exact Or.inl (by rw [if_pos htype])
      by_cases hfull : ramfsMaxFileSize ≤ offset
      · exact Or.inl (by rw [if_neg htype, if_pos hfull])
      · exact Or.inr ⟨_, _, by rw [if_neg htype, if_neg hfull]⟩

-- unfolding the triple would evaluate the loop bound of the cut
attribute [local irreducible] fat32CutChain in
theorem vnodeTruncate_keeps (h : TakesUnder dir I) (ops : FsOps) (vn size : Nat) :
    Prog.Keeps I (vnodeTruncate ops vn size) := by
  cases ops with
  | fat32 =>
      refine Prog.Keeps.get_bind fun t => Prog.Keeps.ite (Prog.Keeps.fail _) ?_
      refine Prog.Keeps.ite (Prog.Keeps.pure _) (Prog.Keeps.ite ?_ ?_)
      · refine Prog.Keeps.bind (onVol_keeps h _) fun _ => ?_
        exact Prog.Keeps.bind (setFatNode_keeps h (fun _ => _) _) fun _ => onVol_keeps h _
      · apply Prog.Keeps.bind (Prog.Keeps.orElse (fat32EnsureChain_keeps h _ _))
        intro _
        refine Prog.Keeps.get_bind fun t => Prog.Keeps.bind (onVol_keeps h _) fun _ => ?_
        exact Prog.Keeps.bind (setFatNode_keeps h (fun _ => _) _) fun _ => onVol_keeps h _
  | ramfs =>
      refine keeps_of_ramNode h fun k => ?_
      rw [vnodeTruncate, ramfsTruncate]
      by_cases htype : (k.ramNode vn).type ≠ .file
      · exact Or.inl (by rw [if_pos htype])
      · rw [if_neg htype]
        exact Or.inr ⟨_, _, rfl⟩

/-- Calls on an open vnode take no vnode. -/
theorem vfsDispatch_keeps {α : Type} {op : FsOps → Nat → Kern α}
    (hop : ∀ ops vn, Prog.Keeps I (op ops vn)) (vn : Option Nat) :
    Prog.Keeps I (vfsDispatch op vn) := by
  cases vn with
  | none => exact Prog.Keeps.fail _
  | some vn =>
      refine Prog.Keeps.get_bind fun t => ?_
      cases (t.vnode vn).ops with
      | none => exact Prog.Keeps.fail _
      | some ops => exact hop ops vn

end Rest

end OsAgentLab
