/-
Lookups of entries that are known to be found.  The directory scan of a lookup stops where
the scan of `fat32_find_entry` does, and takes a node and a vnode for the entry found there.
-/
import OsAgentLab.Compose

namespace OsAgentLab

section Scan

variable {β : Type} {v : Vol} {name : CName}

/-- A callback that passes over the entries of other names and stops at one of that name. -/
structure StopsAt (name : CName) (cb : DirHit → β → CbRet × β) (ctx : β) : Prop where
  other : ∀ hit, nameEqNocase hit.name name = false → cb hit ctx = (.goOn, ctx)
  same : ∀ hit, nameEqNocase hit.name name = true → (cb hit ctx).1 ≠ .goOn

/-- How the scan with such a callback ends, given how `fat32_find_entry` ends. -/
def FoundAlike (cb : DirHit → β → CbRet × β) (ctx : β) (r : CbRet × Option DirHit)
    (r' : CbRet × β) : Prop :=
  (∃ hit, r = (.stop, some hit) ∧ r' = cb hit ctx) ∨
    ((r.1 ≠ .stop) ∧ r' = (r.1, ctx))

theorem iterSlot_alike {cb : DirHit → β → CbRet × β} {ctx : β} (hcb : StopsAt name cb ctx)
    (slot : DirSlot) {s : LfnState × Option DirHit} {s' : LfnState × β}
    (hs : s.2 = none ∧ s' = (s.1, ctx)) :
    (iterSlot (fat32FindCb name) slot s).Related (fun s s' => s.2 = none ∧ s' = (s.1, ctx))
      (FoundAlike cb ctx) (iterSlot cb slot s') := by
  obtain ⟨st, o⟩ := s
  obtain ⟨ho, rfl⟩ := hs
  cases ho
  rw [iterSlot, iterSlot]
  cases slotStep slot st with
  | endMark => exact Or.inr ⟨by simp, rfl⟩
  | skip st' => exact ⟨rfl, rfl⟩
  | entry hit st' =>
      simp only [fat32FindCb]
      cases hname : nameEqNocase hit.name name with
      | false =>
          rw [hcb.other hit hname]
          exact ⟨rfl, rfl⟩
      | true =>
          have hstop := hcb.same hit hname
          cases hret : cb hit ctx with
          | mk ret ctx' =>
              rw [hret] at hstop
              have halike : FoundAlike cb ctx (.stop, some hit) (ret, ctx') :=
                Or.inl ⟨hit, rfl, hret.symm⟩
              cases ret with
              | goOn => exact absurd rfl hstop
              | stop => exact halike
              | fail e => exact halike

theorem iterChain_alike {cb : DirHit → β → CbRet × β} {ctx : β} (hcb : StopsAt name cb ctx)
    (fuel cluster base : Nat) (st : LfnState) :
    match iterChain v (fat32FindCb name) fuel cluster base (st, none) with
    | none => iterChain v cb fuel cluster base (st, ctx) = none
    | some r => ∃ r', iterChain v cb fuel cluster base (st, ctx) = some r' ∧
        FoundAlike cb ctx r r' := by
  induction fuel generalizing cluster base st with
  | zero => rfl
  | succ fuel ih =>
      rw [iterChain, iterChain]
      by_cases hend : fat32Eoc ≤ cluster
      · rw [if_pos hend, if_pos hend]
        exact ⟨_, rfl, Or.inr ⟨by simp, rfl⟩⟩
      rw [if_neg hend, if_neg hend]
      have hcluster : (iterCluster v (fat32FindCb name) cluster base (st, none)).Related
          (fun s s' => s.2 = none ∧ s' = (s.1, ctx)) (FoundAlike cb ctx)
          (iterCluster v cb cluster base (st, ctx)) := by
        refine Flow.loop_related (fun sector s s' hs => ?_) _ ⟨rfl, rfl⟩
        dsimp only
        cases v.disk.read (fat32ClusterToLba v.fs cluster + sector) with
        | none =>
            obtain ⟨ho, rfl⟩ := hs
            exact Or.inr ⟨by simp, rfl⟩
        | some bytes => exact Flow.loop_related (fun slot s s' hs => iterSlot_alike hcb slot hs) _ hs
      cases hfind : iterCluster v (fat32FindCb name) cluster base (st, none) with
      | next s =>
          cases hother : iterCluster v cb cluster base (st, ctx) with
          | done r' =>
              rw [hfind, hother] at hcluster
              cases hcluster
          | next s' =>
              rw [hfind, hother] at hcluster
              obtain ⟨st', o⟩ := s
              obtain ⟨ho, rfl⟩ := hcluster
              cases ho
              simp only
              cases (fat32ReadFatEntry cluster v).1 with
              | ok next => exact ih next _ st'
              | err e => exact ⟨_, rfl, Or.inr ⟨by simp, rfl⟩⟩
              | fault => exact ⟨_, rfl, Or.inr ⟨by simp, rfl⟩⟩
              | diverges => exact ⟨_, rfl, Or.inr ⟨by simp, rfl⟩⟩
      | done r =>
          cases hother : iterCluster v cb cluster base (st, ctx) with
          | next s' =>
              rw [hfind, hother] at hcluster
              cases hcluster
          | done r' =>
              rw [hfind, hother] at hcluster
              exact ⟨r', rfl, hcluster⟩

/-- The entry of that name, with no look at the tables of nodes. -/
def FindsEntry (v : Vol) (cluster : Nat) (name : CName) (hit : DirHit) : Prop :=
  (fat32FindEntry cluster name v).1 = .ok hit

theorem FindsEntry.scan {cluster : Nat} {hit : DirHit} (h : FindsEntry v cluster name hit) :
    fat32IterDir v cluster (fat32FindCb name) none = some (.stop, some hit) := by
  rw [FindsEntry, fat32FindEntry] at h
  cases hscan : fat32IterDir v cluster (fat32FindCb name) none with
  | none =>
      rw [hscan] at h
      cases h
  | some r =>
      obtain ⟨ret, o⟩ := r
      rw [hscan] at h
      cases ret with
      | goOn => cases h
      | fail e => cases h
      | stop =>
          cases o with
          | none => cases h
          | some found =>
              cases h
              rfl

theorem FindsEntry.matches {cluster : Nat} {hit : DirHit} (h : FindsEntry v cluster name hit) :
    nameEqNocase hit.name name = true := by
  let J : Option DirHit → Prop := fun o => ∀ found, o = some found →
    nameEqNocase found.name name = true
  have hcb : ∀ hit ctx, J ctx → J (fat32FindCb name hit ctx).2 := by
    intro hit ctx hctx found hfound
    rw [fat32FindCb] at hfound
    by_cases hname : nameEqNocase hit.name name = true
    · rw [if_pos hname] at hfound
      cases hfound
      exact hname
    · rw [if_neg hname] at hfound
      exact hctx found hfound
  exact iterChain_keeps hcb _ _ _ _ _ (fun _ hnone => by cases hnone) h.scan hit rfl

/-- A lookup of an entry that is found opens it. -/
theorem fat32LookupOp_found {k : Kernel} {dir : Nat} {hit : DirHit}
    (h : FindsEntry k.vol (k.fatNode dir).cluster name hit) :
    fat32LookupOp dir name k =
      match fat32OpenHit dir (k.fatNode dir).cluster hit hit.name k with
      | (.ok vn, k') => (.ok vn, k')
      | (_, k') => (.err .nomem, k') := by
  have hcb : StopsAt name (fat32LookupCb name dir (k.fatNode dir).cluster) (k, none) := by
    refine ⟨fun hit hother => ?_, fun hit hsame => ?_⟩
    · simp [fat32LookupCb, hother]
    · rw [fat32LookupCb, if_neg (by simp [hsame])]
      split <;> simp
  have halike := @iterChain_alike _ k.vol name _ _ hcb (fat32Eoc + 1) (k.fatNode dir).cluster 0
    LfnState.init
  have hscan := h.scan
  rw [fat32IterDir] at hscan
  rw [hscan] at halike
  obtain ⟨r', hrun, ⟨found, heq, hr'⟩ | ⟨hret, _⟩⟩ := halike
  · cases heq
    rw [fat32LookupOp]
    simp only [fat32IterDir, hrun, hr', fat32LookupCb]
    rw [if_neg (by simp [h.matches])]
    cases fat32OpenHit dir (k.fatNode dir).cluster hit hit.name k with
    | mk r k' => cases r <;> rfl
  · exact absurd rfl hret

end Scan

/-- What lookups leave behind: vnodes and nodes that have been taken. -/
structure Walked (k k' : Kernel) : Prop where
  vol : k'.vol = k.vol
  ramNodes : k'.ramNodes = k.ramNodes
  mounts : k'.mounts = k.mounts
  vnodes : Extends k k'
  fatNode : ∀ n, k.fatNodes.used n = true →
    k'.fatNodes.used n = true ∧ k'.fatNodes.slot n = k.fatNodes.slot n

/-- Two vnodes of one object. -/
structure SameObject (k : Kernel) (vn vn' : Nat) : Prop where
  type : (k.vnode vn).type = (k.vnode vn').type
  ops : (k.vnode vn).ops = (k.vnode vn').ops
  fat : (k.vnode vn).ops = some .fat32 → k.fatNode vn = k.fatNode vn'
  ram : (k.vnode vn).ops = some .ramfs → (k.vnode vn).data = (k.vnode vn').data

/-- Two vnodes of one object, with the same ancestors. -/
inductive SameDir (k : Kernel) : Nat → Nat → Prop
  | refl (vn : Nat) : SameDir k vn vn
  | child {p p' vn vn' : Nat} (hp : SameDir k p p') (hparent : (k.vnode vn).parent = some p)
      (hparent' : (k.vnode vn').parent = some p') (hroot : k.root ≠ some vn)
      (hroot' : k.root ≠ some vn') (hobject : SameObject k vn vn') : SameDir k vn vn'

variable {k k' k'' : Kernel} {p vn vn' : Nat} {names names' : List CName}

theorem Walked.refl (k : Kernel) : Walked k k :=
  ⟨rfl, rfl, rfl, ⟨rfl, fun _ h => ⟨h, rfl⟩⟩, fun _ h => ⟨h, rfl⟩⟩

theorem Walked.trans (h : Walked k k') (h' : Walked k' k'') : Walked k k'' where
  vol := h'.vol.trans h.vol
  ramNodes := h'.ramNodes.trans h.ramNodes
  mounts := h'.mounts.trans h.mounts
  vnodes :=
    { root := h'.vnodes.root.trans h.vnodes.root
      vnode := fun vn hused => by
        obtain ⟨hused', hslot⟩ := h.vnodes.vnode vn hused
        obtain ⟨hused'', hslot'⟩ := h'.vnodes.vnode vn hused'
        exact ⟨hused'', hslot'.trans hslot⟩ }
  fatNode n hused := by
    obtain ⟨hused', hslot⟩ := h.fatNode n hused
    obtain ⟨hused'', hslot'⟩ := h'.fatNode n hused'
    exact ⟨hused'', hslot'.trans hslot⟩

theorem SameDir.object (h : SameDir k vn vn') : SameObject k vn vn' := by
  cases h with
  | refl => exact ⟨rfl, rfl, fun _ => rfl, fun _ => rfl⟩
  | child _ _ _ _ _ hobject => exact hobject

/-- Vnodes of one directory lie at the same depth. -/
theorem SameDir.length_eq (h : SameDir k vn vn') (hpath : PathOf k vn names)
    (hpath' : PathOf k vn' names') : names.length = names'.length := by
  induction h generalizing names names' with
  | refl vn => rw [hpath.unique hpath']
  | child hp hparent hparent' hroot hroot' _ ih =>
      cases hpath with
      | root hr _ => exact absurd hr hroot
      | child hpath hparent₁ _ _ _ _ =>
          cases hpath' with
          | root hr _ => exact absurd hr hroot'
          | child hpath' hparent₂ _ _ _ _ =>
              cases hparent.symm.trans hparent₁
              cases hparent'.symm.trans hparent₂
              simp only [List.length_append, List.length_singleton, ih hpath hpath']

/-- The root is the only vnode of its directory. -/
theorem SameDir.of_root (h : SameDir k vn vn') (hroot : k.root = some vn ∨ k.root = some vn') :
    vn = vn' := by
  cases h with
  | refl => rfl
  | child _ _ _ hne hne' _ =>
      rcases hroot with hroot | hroot
      · exact absurd hroot hne
      · exact absurd hroot hne'

theorem Walked.sameObject (h : Walked k k') (hn : Named k) (hs : SameObject k vn vn')
    (hused : k.vnodes.used vn = true) (hused' : k.vnodes.used vn' = true) :
    SameObject k' vn vn' := by
  have hvn := (h.vnodes.vnode vn hused).2
  have hvn' := (h.vnodes.vnode vn' hused').2
  refine ⟨by rw [hvn, hvn', hs.type], by rw [hvn, hvn', hs.ops], fun hops => ?_, fun hops => ?_⟩
  · rw [hvn] at hops
    have hnode := hs.fat hops
    have hold := (h.fatNode _ (hn.node vn hused hops)).2
    have hold' := (h.fatNode _ (hn.node vn' hused' (hs.ops ▸ hops))).2
    simp only [Kernel.fatNode] at hnode ⊢
    rw [hvn, hvn', hold, hold', hnode]
  · rw [hvn] at hops
    rw [hvn, hvn', hs.ram hops]

/-- Vnodes of one directory stay that when more vnodes are taken. -/
theorem Walked.sameDir (h : Walked k k') (hn : Named k) (hs : SameDir k vn vn')
    (hpath : PathOf k vn names) (hpath' : PathOf k vn' names') : SameDir k' vn vn' := by
  induction hs generalizing names names' with
  | refl vn => exact .refl vn
  | child hp hparent hparent' hroot hroot' hobject ih =>
      have hused := hpath.used
      have hused' := hpath'.used
      cases hpath with
      | root hr _ => exact absurd hr hroot
      | child hpath hparent₁ _ _ _ _ =>
          cases hpath' with
          | root hr _ => exact absurd hr hroot'
          | child hpath' hparent₂ _ _ _ _ =>
              cases hparent.symm.trans hparent₁
              cases hparent'.symm.trans hparent₂
              exact .child (ih hpath hpath') ((h.vnodes.vnode _ hused).2 ▸ hparent)
                ((h.vnodes.vnode _ hused').2 ▸ hparent') (h.vnodes.root ▸ hroot)
                (h.vnodes.root ▸ hroot') (h.sameObject hn hobject hused hused')

section Entry

/-- The name of `vn` leads from its parent `p` to what `vn` is. -/
inductive EntryOf (k : Kernel) (p vn : Nat) : Prop
  | fat {hit : DirHit} (hops : (k.vnode p).ops = some .fat32)
      (hfind : FindsEntry k.vol (k.fatNode p).cluster (k.vnode vn).name hit)
      (hmount : ∀ m ∈ k.mounts, m.2 ≠ vn) (hvn : (k.vnode vn).ops = some .fat32)
      (hnode : k.fatNode vn = hit.toNode (k.fatNode p).cluster)
      (htype : (k.vnode vn).type = if hit.raw.isDir then .dir else .file)
  | mount {hit : DirHit} {m : Nat × Nat} (hops : (k.vnode p).ops = some .fat32)
      (hm : m ∈ k.mounts) (hroot : m.2 = vn)
      (hfind : FindsEntry k.vol (k.fatNode p).cluster (k.vnode vn).name hit)
      (hdir : hit.raw.isDir = true)
  | ram {found : Option Nat × Nat} (hops : (k.vnode p).ops = some .ramfs)
      (hfind : ramfsSearch k (k.vnode vn).name ramfsMaxNodes none (k.ramNode p).child =
        some (some found))
      (hmount : ∀ m ∈ k.mounts, m.2 ≠ vn) (hvn : (k.vnode vn).ops = some .ramfs)
      (hnode : (k.vnode vn).data = found.2) (htype : (k.vnode vn).type = (k.ramNodes.slot found.2).type)

/-- Nodes that a lookup in `p` takes. -/
def fatStep (k : Kernel) (p : Nat) : Nat := if (k.vnode p).ops = some .fat32 then 1 else 0

/-- The component `name`, looked up in a directory. -/
theorem vfsEnter_lookup {dir : Nat} {name : CName} {ops : FsOps} (hname : IsComponent name)
    (htype : (k.vnode dir).type = .dir) (hops : (k.vnode dir).ops = some ops) :
    vfsEnter false (some dir) name k =
      match vnodeLookup ops dir name k with
      | (.ok next, k') => (.ok (vfsFollowMount k' next), k')
      | (.err e, k') => (.err e, k')
      | (.fault, k') => (.fault, k')
      | (.diverges, k') => (.diverges, k') := by
  rw [vfsEnter, if_neg hname.ne_dot, deref_some_bind, Prog.get_bind, if_neg hname.ne_dotDot, htype,
    hops]
  dsimp only
  cases hrun : vnodeLookup ops dir name k with
  | mk r k' =>
      cases r with
      | ok next =>
          rw [Prog.bind_ok (Prog.attempt_ok hrun)]
          rfl
      | err e =>
          have hnot : ¬ (e = .noent ∧ false = true) := fun hparents => Bool.false_ne_true hparents.2
          rw [Prog.bind_ok (Prog.attempt_err hrun)]
          dsimp only
          rw [if_neg hnot]
          rfl
      | fault => simp only [bind, Prog.attempt, hrun]
      | diverges => simp only [bind, Prog.attempt, hrun]

/-- A vnode taken for an object that no mount covers is not covered by one either. -/
theorem follow_taken (hn : Named k) (hstable : Stable k vn) (hnotMount : ∀ m ∈ k.mounts, m.2 ≠ vn)
    (hparent : (k.vnode vn).parent = some p) (hw : Walked k k') {i p' : Nat}
    (hi : k.vnodes.used i = false) (hparent' : (k'.vnode i).parent = some p')
    (hp' : PathOf k' p' names') (hsame : SameDir k' p p')
    (htype : (k'.vnode i).type = (k.vnode vn).type)
    (hname : nameEqNocase (k'.vnode i).name (k.vnode vn).name = true) :
    vfsFollowMounts k' i k'.mounts = i := by
  rw [hw.mounts]
  have hone := hn.one
  cases hmounts : k.mounts with
  | nil => rfl
  | cons m rest =>
      rw [hmounts] at hone
      cases rest with
      | cons _ _ => simp at hone
      | nil =>
          obtain ⟨point, root⟩ := m
          have hmem : (point, root) ∈ k.mounts := by rw [hmounts]; exact List.mem_singleton_self _
          have hmount := hn.mount _ hmem
          have hpoint : point ≠ i := by
            rintro rfl
            rw [hmount.usedPoint] at hi
            cases hi
          rw [vfsFollowMounts, if_neg hpoint, if_neg ?_]
          · rfl
          rintro ⟨hdir, hisRoot, hmatch⟩
          rw [hparent'] at hisRoot
          have hroot' := hp'.isRoot hisRoot
          have hpp : p = p' := hsame.of_root (Or.inr hroot')
          have hroot : k.root = some p := by rw [← hw.vnodes.root, hroot', hpp]
          have hfixed := hstable.fixed
          rw [hmounts, vfsFollowMounts] at hfixed
          have hpointVn : nameEqNocase (k.vnode vn).name (k.vnode point).name = true := by
            rw [(hw.vnodes.vnode point hmount.usedPoint).2] at hmatch
            exact nameEqNocase_trans (nameEqNocase_symm hname) hmatch
          have hcovered : (k.vnode vn).type = .dir ∧ vfsIsRootVnode k (k.vnode vn).parent = true ∧
              nameEqNocase (k.vnode vn).name (k.vnode point).name = true := by
            refine ⟨htype ▸ hdir, ?_, hpointVn⟩
            rw [hparent]
            simp [vfsIsRootVnode, hroot]
          rw [if_pos hcovered, ite_self] at hfixed
          exact hnotMount _ hmem hfixed

/-- The mount covers a vnode taken for the directory it stands on. -/
theorem follow_mounted (hn : Named k) {m : Nat × Nat} (hm : m ∈ k.mounts) (hw : Walked k k')
    {i : Nat} (hparent' : (k'.vnode i).parent = k.root) (htype : (k'.vnode i).type = .dir)
    (hname : nameEqNocase (k'.vnode i).name (k.vnode m.2).name = true) :
    vfsFollowMounts k' i k'.mounts = m.2 := by
  rw [hw.mounts]
  have hmount := hn.mount m hm
  have hmounts : k.mounts = [m] := by
    have hone := hn.one
    cases hmounts : k.mounts with
    | nil =>
        rw [hmounts] at hm
        cases hm
    | cons a rest =>
        rw [hmounts] at hone hm
        cases rest with
        | cons _ _ => simp at hone
        | nil => rw [List.mem_singleton.mp hm]
  obtain ⟨point, root⟩ := m
  rw [hmounts, vfsFollowMounts]
  by_cases hpoint : point = i
  · rw [if_pos hpoint]
  obtain ⟨r, hroot, _⟩ := hmount.parents
  rw [if_neg hpoint, if_pos]
  refine ⟨htype, ?_, ?_⟩
  · rw [hparent', hroot]
    simp [vfsIsRootVnode, hw.vnodes.root, hroot]
  · rw [(hw.vnodes.vnode point hmount.usedPoint).2]
    exact hmount.name ▸ hname

end Entry

section Step

/-- A lookup has taken the vnode `i`, and `f` nodes of FAT32. -/
structure Took (k k' : Kernel) (i f : Nat) (vnode : Vnode) : Prop where
  walked : Walked k k'
  free : k.vnodes.used i = false
  used : k'.vnodes.used i = true
  slot : k'.vnode i = vnode
  vnodes : k'.vnodes.room vnodePoolSize + 1 = k.vnodes.room vnodePoolSize
  nodes : k'.fatNodes.room fat32NodePoolSize + f = k.fatNodes.room fat32NodePoolSize

/-- The tables have room for `v` vnodes and `f` nodes of FAT32. -/
def RoomFor (k : Kernel) (v f : Nat) : Prop :=
  v ≤ k.vnodes.room vnodePoolSize ∧ f ≤ k.fatNodes.room fat32NodePoolSize

theorem took_vnode {i : Nat} (hi : k.vnodes.firstFree vnodePoolSize = some i) (vnode : Vnode) :
    Took k { k with vnodes := k.vnodes.take i vnode } i 0 vnode := by
  obtain ⟨hlt, hfree⟩ := Pool.firstFree_eq_some hi
  exact {
    walked := ⟨rfl, rfl, rfl, Extends.take hfree vnode, fun _ h => ⟨h, rfl⟩⟩
    free := hfree
    used := by simp
    slot := by simp [Kernel.vnode]
    vnodes := Pool.room_take hlt hfree vnode
    nodes := rfl }

theorem took_node {i n : Nat} (hn : k.fatNodes.firstFree fat32NodePoolSize = some n)
    (hi : k.vnodes.firstFree vnodePoolSize = some i) (node : Fat32Node) (vnode : Vnode) :
    Took k { k with fatNodes := k.fatNodes.take n node, vnodes := k.vnodes.take i vnode } i 1
      vnode := by
  obtain ⟨hlt, hfree⟩ := Pool.firstFree_eq_some hn
  have hnode : Walked k { k with fatNodes := k.fatNodes.take n node } := by
    refine ⟨rfl, rfl, rfl, Extends.frame rfl rfl, fun m hused => ?_⟩
    have hne : m ≠ n := by
      rintro rfl
      rw [hfree] at hused
      cases hused
    simp [hused, hne]
  have hvnode := @took_vnode { k with fatNodes := k.fatNodes.take n node } i hi vnode
  exact {
    walked := hnode.trans hvnode.walked
    free := hvnode.free
    used := hvnode.used
    slot := hvnode.slot
    vnodes := hvnode.vnodes
    nodes := Pool.room_take hlt hfree node }

theorem room_pos_iff {α : Type} {size : Nat} {p : Pool α} :
    1 ≤ p.room size ↔ ∃ i, p.firstFree size = some i := Pool.firstFree_isSome_iff_room.symm

/-- A lookup on FAT32 of an entry that is found. -/
theorem vnodeLookup_fat {dir : Nat} {name : CName} {hit : DirHit}
    (h : FindsEntry k.vol (k.fatNode dir).cluster name hit) :
    (RoomFor k 1 1 → ∃ n i k', vnodeLookup .fat32 dir name k = (.ok (some i), k') ∧
      Took k k' i 1 ⟨if hit.raw.isDir then .dir else .file, some .fat32, n, some dir, hit.name⟩ ∧
        k'.fatNodes.slot n = hit.toNode (k.fatNode dir).cluster) ∧
    (¬ RoomFor k 1 1 → ∃ k', vnodeLookup .fat32 dir name k = (.err .nomem, k')) := by
  have hrun : vnodeLookup .fat32 dir name k =
      (fat32LookupOp dir name >>= fun vn => (pure (some vn) : Kern (Option Nat))) k := rfl
  rw [hrun]
  have hlookup := fat32LookupOp_found h
  rcases fat32OpenHit_cases dir (k.fatNode dir).cluster hit hit.name k with
    ⟨hnone, hopen⟩ | ⟨n, hn, ⟨hnone, hopen⟩ | ⟨i, hi, hopen⟩⟩
  · rw [hopen] at hlookup
    refine ⟨fun hroom => ?_, fun _ => ⟨_, Prog.bind_err hlookup _⟩⟩
    obtain ⟨n, hn⟩ := room_pos_iff.mp hroom.2
    cases hn.symm.trans hnone
  · rw [hopen] at hlookup
    refine ⟨fun hroom => ?_, fun _ => ⟨_, Prog.bind_err hlookup _⟩⟩
    obtain ⟨i, hi⟩ := room_pos_iff.mp hroom.1
    cases hi.symm.trans hnone
  · rw [hopen] at hlookup
    refine ⟨fun _ => ⟨n, i, _, Prog.bind_ok hlookup _, took_node hn hi _ _, ?_⟩,
      fun hroom => absurd ⟨room_pos_iff.mpr ⟨i, hi⟩, room_pos_iff.mpr ⟨n, hn⟩⟩ hroom⟩
    simp

/-- A lookup in the ramfs of a node that is found. -/
theorem vnodeLookup_ram {dir : Nat} {name : CName} {found : Option Nat × Nat}
    (h : ramfsSearch k name ramfsMaxNodes none (k.ramNode dir).child = some (some found)) :
    (RoomFor k 1 0 → ∃ i k', vnodeLookup .ramfs dir name k = (.ok (some i), k') ∧
      Took k k' i 0 ⟨(k.ramNodes.slot found.2).type, some .ramfs, found.2, some dir,
        (k.ramNodes.slot found.2).name⟩) ∧
    (¬ RoomFor k 1 0 → ∃ k', vnodeLookup .ramfs dir name k = (.ok none, k')) := by
  have hfind : ramfsFind dir name k = (.ok (some found), k) := by
    rw [ramfsFind, h]
  have hrun : vnodeLookup .ramfs dir name k = ramfsWrapNode found.2 dir k := by
    rw [vnodeLookup, ramfsLookup, Prog.bind_ok hfind]
  rw [hrun, ramfsWrapNode, vfsAllocVnode]
  cases hi : k.vnodes.firstFree vnodePoolSize with
  | none =>
      refine ⟨fun hroom => ?_, fun _ => ⟨_, rfl⟩⟩
      obtain ⟨i, hi'⟩ := room_pos_iff.mp hroom.1
      cases hi'.symm.trans hi
  | some i =>
      exact ⟨fun _ => ⟨i, _, rfl, took_vnode hi _⟩,
        fun hroom => absurd ⟨room_pos_iff.mpr ⟨i, hi⟩, Nat.zero_le _⟩ hroom⟩

theorem Named.ne_root_of_free (h : Named k) {i : Nat} (hi : k.vnodes.used i = false) :
    k.root ≠ some i := by
  intro hroot
  rw [(h.root i hroot).1] at hi
  cases hi

/-- What is known of `vn` and its parent `p` before a walk. -/
structure Below (k : Kernel) (p vn : Nat) : Prop where
  named : Named k
  stable : Stable k vn
  parent : (k.vnode vn).parent = some p
  path : ∃ names, PathOf k p names
  type : (k.vnode p).type = .dir
  ne_root : k.root ≠ some vn
  component : IsComponent (k.vnode vn).name
  entry : EntryOf k p vn

/-- The walk stands on `p'`, a vnode of the directory of `p`. -/
structure Reaches (k k' : Kernel) (p p' : Nat) : Prop where
  walked : Walked k k'
  named : Named k'
  same : SameDir k' p p'
  path : ∃ names, PathOf k' p' names

theorem Reaches.vnode (h : Reaches k k' p vn') (hb : Below k p vn) :
    (k'.vnode vn').type = .dir ∧ (k'.vnode vn').ops = (k.vnode p).ops ∧
      ((k.vnode p).ops = some .fat32 → k'.fatNode vn' = k.fatNode p) ∧
      ((k.vnode p).ops = some .ramfs → k'.ramNode vn' = k.ramNode p) := by
  obtain ⟨names, hpath⟩ := hb.path
  have hp := (h.walked.vnodes.vnode p hpath.used).2
  have hobject := h.same.object
  refine ⟨?_, ?_, fun hops => ?_, fun hops => ?_⟩
  · rw [← hobject.type, hp, hb.type]
  · rw [← hobject.ops, hp]
  · rw [← hobject.fat (by rw [hp, hops])]
    simp only [Kernel.fatNode, hp]
    exact (h.walked.fatNode _ (hb.named.node p hpath.used hops)).2
  · have hdata := hobject.ram (by rw [hp, hops])
    rw [hp] at hdata
    simp only [Kernel.ramNode, ← hdata, h.walked.ramNodes]

/-- A vnode taken for the object of `vn` under a vnode of its directory. -/
theorem Reaches.taken (h : Reaches k k' p vn') (hb : Below k p vn) {i f : Nat} {vnode : Vnode}
    (ht : Took k' k'' i f vnode) (hparent : vnode.parent = some vn')
    (hobject : SameObject k'' vn i) (hname : nameEqNocase vnode.name (k.vnode vn).name = true)
    (hnotMount : ∀ m ∈ k.mounts, m.2 ≠ vn) :
    vfsFollowMounts k'' i k''.mounts = i ∧ SameDir k'' vn i := by
  obtain ⟨names, hpath⟩ := hb.path
  obtain ⟨names', hpath'⟩ := h.path
  have hw : Walked k k'' := h.walked.trans ht.walked
  have hfree : k.vnodes.used i = false := by
    cases hused : k.vnodes.used i with
    | false => rfl
    | true => exact absurd ((h.walked.vnodes.vnode i hused).1.symm.trans ht.free) (by simp)
  have hvn := (hw.vnodes.vnode vn hb.stable.used).2
  have hsame : SameDir k'' p vn' :=
    ht.walked.sameDir h.named h.same (hpath.extends h.walked.vnodes) hpath'
  have hparent' : (k''.vnode i).parent = some vn' := by rw [ht.slot, hparent]
  constructor
  · refine follow_taken hb.named hb.stable hnotMount hb.parent hw hfree hparent'
      (hpath'.extends ht.walked.vnodes) hsame ?_ (by rw [ht.slot, hname])
    rw [← hobject.type, hvn]
  · refine .child hsame (by rw [hvn, hb.parent]) hparent' (hw.vnodes.root ▸ hb.ne_root) ?_ hobject
    rw [ht.walked.vnodes.root]
    exact h.named.ne_root_of_free ht.free

/-- One step of a walk back down to `vn`. -/
theorem Reaches.enter (h : Reaches k k' p vn') (hb : Below k p vn) :
    (RoomFor k' 1 (fatStep k p) → ∃ w k₂,
      vfsEnter false (some vn') (k.vnode vn).name k' = (.ok (some w), k₂) ∧ Walked k' k₂ ∧
        SameDir k₂ vn w ∧
        k₂.vnodes.room vnodePoolSize + 1 = k'.vnodes.room vnodePoolSize ∧
        k₂.fatNodes.room fat32NodePoolSize + fatStep k p = k'.fatNodes.room fat32NodePoolSize) ∧
    (¬ RoomFor k' 1 (fatStep k p) → ∀ w k₂,
      vfsEnter false (some vn') (k.vnode vn).name k' ≠ (.ok (some w), k₂)) := by
  obtain ⟨htype, hops', hfat, hram⟩ := h.vnode hb
  have hold := (h.walked.vnodes.vnode vn hb.stable.used)
  cases hb.entry with
  | @fat hit hops hfind hmount hvn hnode hhit =>
      have hstep : fatStep k p = 1 := if_pos hops
      have hfind' : FindsEntry k'.vol (k'.fatNode vn').cluster (k.vnode vn).name hit := by
        rw [hfat hops, h.walked.vol]
        exact hfind
      have hlookup := vnodeLookup_fat hfind'
      rw [hstep, vfsEnter_lookup hb.component htype (hops'.trans hops)]
      constructor
      · intro hroom
        obtain ⟨n, i, k₂, hrun, htook, hslot⟩ := hlookup.1 hroom
        have hw : Walked k k₂ := h.walked.trans htook.walked
        have hvn₂ := (hw.vnodes.vnode vn hb.stable.used).2
        have hobject : SameObject k₂ vn i := by
          refine ⟨?_, ?_, fun _ => ?_, fun hram => ?_⟩
          · rw [hvn₂, htook.slot, hhit]
          · rw [hvn₂, htook.slot, hvn]
          · have hdata := (hw.fatNode _ (hb.named.node vn hb.stable.used hvn)).2
            have hnew : k₂.fatNode i = hit.toNode (k.fatNode p).cluster := by
              rw [Kernel.fatNode, htook.slot, hslot, hfat hops]
            rw [hnew, ← hnode]
            simp only [Kernel.fatNode, hvn₂, hdata]
          · rw [hvn₂, hvn] at hram
            cases hram
        obtain ⟨hfollow, hsame⟩ := h.taken hb htook rfl hobject hfind.matches hmount
        refine ⟨i, k₂, ?_, htook.walked, hsame, htook.vnodes, htook.nodes⟩
        rw [hrun]
        simp only [vfsFollowMount, hfollow]
      · intro hroom w k₂ hok
        obtain ⟨k₃, hrun⟩ := hlookup.2 hroom
        rw [hrun] at hok
        cases hok
  | @mount hit m hops hm hroot hfind hdir =>
      have hstep : fatStep k p = 1 := if_pos hops
      have hfind' : FindsEntry k'.vol (k'.fatNode vn').cluster (k.vnode vn).name hit := by
        rw [hfat hops, h.walked.vol]
        exact hfind
      have hlookup := vnodeLookup_fat hfind'
      rw [hstep, vfsEnter_lookup hb.component htype (hops'.trans hops)]
      constructor
      · intro hroom
        obtain ⟨n, i, k₂, hrun, htook, _⟩ := hlookup.1 hroom
        have hw : Walked k k₂ := h.walked.trans htook.walked
        obtain ⟨r, hrootEq, _, _, _, hparent⟩ := (hb.named.mount m hm).parents
        have hpr : k.root = some p := by
          rw [hroot, hb.parent] at hparent
          rw [hrootEq, hparent]
        have hpp : p = vn' := h.same.of_root (Or.inl (h.walked.vnodes.root.trans hpr))
        have hfollow : vfsFollowMounts k₂ i k₂.mounts = m.2 := by
          refine follow_mounted hb.named hm hw ?_ ?_ ?_
          · rw [htook.slot, hpr, hpp]
          · rw [htook.slot]
            exact if_pos hdir
          · rw [htook.slot, hroot]
            exact hfind.matches
        refine ⟨vn, k₂, ?_, htook.walked, .refl vn, htook.vnodes, htook.nodes⟩
        rw [hrun]
        simp only [vfsFollowMount, hfollow, hroot]
      · intro hroom w k₂ hok
        obtain ⟨k₃, hrun⟩ := hlookup.2 hroom
        rw [hrun] at hok
        cases hok
  | @ram found hops hfind hmount hvn hnode hfound =>
      have hstep : fatStep k p = 0 := if_neg (by rw [hops]; simp)
      have hsearch : ∀ fuel prev cur, ramfsSearch k' (k.vnode vn).name fuel prev cur =
          ramfsSearch k (k.vnode vn).name fuel prev cur := by
        intro fuel
        induction fuel with
        | zero => exact fun prev cur => by cases cur <;> rfl
        | succ fuel ih =>
            intro prev cur
            cases cur with
            | none => rfl
            | some child => rw [ramfsSearch, ramfsSearch, ih, h.walked.ramNodes]
      have hfind' : ramfsSearch k' (k.vnode vn).name ramfsMaxNodes none (k'.ramNode vn').child =
          some (some found) := by
        rw [hram hops, hsearch, hfind]
      have hlookup := vnodeLookup_ram hfind'
      rw [hstep, vfsEnter_lookup hb.component htype (hops'.trans hops)]
      constructor
      · intro hroom
        obtain ⟨i, k₂, hrun, htook⟩ := hlookup.1 hroom
        have hw : Walked k k₂ := h.walked.trans htook.walked
        have hvn₂ := (hw.vnodes.vnode vn hb.stable.used).2
        have hobject : SameObject k₂ vn i := by
          refine ⟨?_, ?_, fun hfat => ?_, fun _ => ?_⟩
          · rw [hvn₂, htook.slot, hfound, h.walked.ramNodes]
          · rw [hvn₂, htook.slot, hvn]
          · rw [hvn₂, hvn] at hfat
            cases hfat
          · rw [hvn₂, htook.slot, hnode]
        have hname : nameEqNocase (k'.ramNodes.slot found.2).name (k.vnode vn).name = true :=
          ramfsSearch_name hfind'
        obtain ⟨hfollow, hsame⟩ := h.taken hb htook rfl hobject hname hmount
        refine ⟨i, k₂, ?_, htook.walked, hsame, htook.vnodes, htook.nodes⟩
        rw [hrun]
        simp only [vfsFollowMount, hfollow]
      · intro hroom w k₂ hok
        obtain ⟨k₃, hrun⟩ := hlookup.2 hroom
        rw [hrun] at hok
        cases hok

end Step

end OsAgentLab
