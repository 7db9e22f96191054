/-
When the traversals of `fat32.c` come back and stay in the data area: the loops
follow the FAT without looking at the cluster numbers they find there, so both
depend on what the chain holds up to the place where the loop ends.
-/
import OsAgentLab.Fat32.Traverse
import OsAgentLab.Fat32.Mount

namespace OsAgentLab

/-- The FAT entry of `cluster` as the loops take it. -/
def Vol.link (v : Vol) (cluster : Nat) : Link Nat :=
  match (fat32ReadFatEntry cluster v).1 with
  | .ok next => if fat32Eoc ≤ next then .last else .onward next
  | _ => .broken

section IterDir

variable {β : Type}

/-- `fat32_iter_dir` in one cluster, with `entry_index`, the long name and the context
as its state. -/
def iterPass (v : Vol) (cb : DirHit → β → CbRet × β) (cluster : Nat) (s : Nat × LfnState × β) :
    Flow (Nat × LfnState × β) (CbRet × β) :=
  match iterCluster v cb cluster s.1 s.2 with
  | .done result => .done result
  | .next state => .next (s.1 + 16 * v.fs.sectorsPerCluster, state)

/-- `fat32_iter_dir` comes back after finitely many passes and touches clusters of the
data area only. -/
def IterContained (v : Vol) (start : Nat) (cb : DirHit → β → CbRet × β) (ctx : β) : Prop :=
  (∃ fuel, (iterChain v cb fuel start 0 (LfnState.init, ctx)).isSome) ∧
    ∀ fuel, ∀ c ∈ iterClusters v cb fuel start 0 (LfnState.init, ctx), v.InData c

/-- `fat32_dir_is_empty` comes back and touches clusters of the data area only. -/
def DirIsEmptyContained (v : Vol) (start : Nat) : Prop :=
  (∃ fuel rounds, (dirIsEmptyRounds v start fuel rounds).isSome) ∧
    ∀ fuel rounds, ∀ c ∈ dirIsEmptyClusters v start fuel rounds, v.InData c

/-- The chain from `start` stays in the data area up to a cluster in which the
iteration ends, or from which there is no way on. -/
def IterStays (v : Vol) (start : Nat) (cb : DirHit → β → CbRet × β) (ctx : β) : Prop :=
  fat32Eoc ≤ start ∨ Link.Settled (iterPass v cb) v.link v.InData start (0, LfnState.init, ctx)

variable {v : Vol} {cb : DirHit → β → CbRet × β}

theorem iterClusters_of_eoc {cluster base : Nat} {state : LfnState × β}
    (h : fat32Eoc ≤ cluster) (fuel : Nat) : iterClusters v cb fuel cluster base state = [] := by
  cases fuel with
  | zero => rfl
  | succ fuel => rw [iterClusters, if_pos h]

theorem iterClusters_eq_visited (fuel : Nat) {cluster : Nat} (base : Nat) (state : LfnState × β)
    (h : cluster < fat32Eoc) :
    iterClusters v cb fuel cluster base state =
      Link.visited (iterPass v cb) v.link fuel cluster (base, state) := by
  induction fuel generalizing cluster base state with
  | zero => rfl
  | succ fuel ih =>
      rw [iterClusters, if_neg (Nat.not_le.mpr h), Link.visited, iterPass]
      cases iterCluster v cb cluster base state with
      | done result => rfl
      | next state' =>
          simp only [Vol.link]
          cases (fat32ReadFatEntry cluster v).1 with
          | ok next =>
              by_cases hnext : fat32Eoc ≤ next
              · simp only [if_pos hnext, iterClusters_of_eoc hnext]
              · simp only [if_neg hnext, ih _ _ (Nat.lt_of_not_le hnext)]
          | err e => rfl
          | fault => rfl
          | diverges => rfl

theorem iterChain_isSome_of_walk {fuel cluster base : Nat} {state : LfnState × β}
    (h : cluster < fat32Eoc)
    (hwalk : (Link.walk (iterPass v cb) v.link fuel cluster (base, state)).isSome) :
    (iterChain v cb (fuel + 1) cluster base state).isSome := by
  induction fuel generalizing cluster base state with
  | zero => cases hwalk
  | succ fuel ih =>
      rw [Link.walk, iterPass] at hwalk
      rw [iterChain, if_neg (Nat.not_le.mpr h)]
      cases hpass : iterCluster v cb cluster base state with
      | done result => rfl
      | next state' =>
          simp only [hpass, Vol.link] at hwalk ⊢
          cases hread : (fat32ReadFatEntry cluster v).1 with
          | ok next =>
              simp only [hread] at hwalk ⊢
              by_cases hnext : fat32Eoc ≤ next
              · rw [iterChain, if_pos hnext]
                rfl
              · simp only [if_neg hnext] at hwalk
                exact ih (Nat.lt_of_not_le hnext) hwalk
          | err e => rfl
          | fault => rfl
          | diverges => rfl

theorem walk_isSome_of_iterChain {fuel cluster base : Nat} {state : LfnState × β}
    (h : cluster < fat32Eoc) (hchain : (iterChain v cb fuel cluster base state).isSome) :
    (Link.walk (iterPass v cb) v.link fuel cluster (base, state)).isSome := by
  induction fuel generalizing cluster base state with
  | zero => cases hchain
  | succ fuel ih =>
      rw [iterChain, if_neg (Nat.not_le.mpr h)] at hchain
      rw [Link.walk, iterPass]
      cases hpass : iterCluster v cb cluster base state with
      | done result => rfl
      | next state' =>
          simp only [hpass, Vol.link] at hchain ⊢
          cases hread : (fat32ReadFatEntry cluster v).1 with
          | ok next =>
              simp only [hread] at hchain ⊢
              by_cases hnext : fat32Eoc ≤ next
              · simp only [if_pos hnext, Option.isSome_some]
              · simp only [if_neg hnext]
                exact ih (Nat.lt_of_not_le hnext) hchain
          | err e => rfl
          | fault => rfl
          | diverges => rfl

/-- `fat32_iter_dir` is contained exactly when its chain stays. -/
theorem iterContained_iff (start : Nat) (ctx : β) :
    IterContained v start cb ctx ↔ IterStays v start cb ctx := by
  unfold IterContained IterStays
  by_cases h : fat32Eoc ≤ start
  · refine iff_of_true ⟨⟨1, ?_⟩, fun fuel c hc => ?_⟩ (Or.inl h)
    · rw [iterChain, if_pos h]
      rfl
    · rw [iterClusters_of_eoc h] at hc
      exact absurd hc List.not_mem_nil
  · have hlt := Nat.lt_of_not_le h
    rw [or_iff_right h, ← Link.walk_settled_iff]
    apply and_congr
    · exact ⟨fun ⟨fuel, hfuel⟩ => ⟨fuel, walk_isSome_of_iterChain hlt hfuel⟩,
        fun ⟨fuel, hfuel⟩ => ⟨fuel + 1, iterChain_isSome_of_walk hlt hfuel⟩⟩
    · apply forall_congr'
      intro fuel
      rw [iterClusters_eq_visited fuel 0 _ hlt]

end IterDir

section IsEmpty

variable {v : Vol}

/-- The callback of `fat32_dir_is_empty` never counts an entry. -/
theorem iterCluster_index {cluster base : Nat} {st : LfnState} {ctx : Nat × Option DirHit}
    (h : ctx.1 = 0) :
    (iterCluster v (fat32ReaddirCb 0) cluster base (st, ctx)).Ends (fun s => s.2.1 = 0)
      fun r => r.1 = .goOn → r.2.1 = 0 := by
  have hslot : ∀ slot (s : LfnState × Nat × Option DirHit), s.2.1 = 0 →
      (iterSlot (fat32ReaddirCb 0) slot s).Ends (fun s => s.2.1 = 0)
        fun r => r.1 = .goOn → r.2.1 = 0 := by
    rintro slot ⟨st, ctx⟩ hzero
    change ctx.1 = 0 at hzero
    rw [iterSlot]
    cases slotStep slot st with
    | endMark => exact fun _ => hzero
    | skip st' => exact hzero
    | entry hit st' =>
        simp only [fat32ReaddirCb]
        by_cases hdot : isDotName hit.name = true
        · rw [if_pos hdot]
          exact hzero
        · rw [if_neg hdot, if_pos hzero]
          exact fun hstop => by cases hstop
  refine Flow.loop_ends (fun i s hs => ?_) _ _ h
  simp only
  cases v.disk.read (fat32ClusterToLba v.fs cluster + i) with
  | none => exact fun hfail => by cases hfail
  | some sector => exact Flow.loop_ends hslot _ _ hs

theorem iterChain_index {fuel cluster base : Nat} {st : LfnState} {ctx ctx' : Nat × Option DirHit}
    (h : ctx.1 = 0)
    (hrun : iterChain v (fat32ReaddirCb 0) fuel cluster base (st, ctx) = some (.goOn, ctx')) :
    ctx'.1 = 0 := by
  induction fuel generalizing cluster base st ctx with
  | zero => cases hrun
  | succ fuel ih =>
      rw [iterChain] at hrun
      have hpass := @iterCluster_index v cluster base st ctx h
      by_cases heoc : fat32Eoc ≤ cluster
      · rw [if_pos heoc] at hrun
        cases hrun
        exact h
      · rw [if_neg heoc] at hrun
        cases hcluster : iterCluster v (fat32ReaddirCb 0) cluster base (st, ctx) with
        | done result =>
            simp only [hcluster] at hrun hpass
            cases hrun
            exact hpass rfl
        | next state =>
            simp only [hcluster] at hrun hpass
            cases hread : (fat32ReadFatEntry cluster v).1 with
            | ok next =>
                simp only [hread] at hrun
                exact ih hpass hrun
            | err e =>
                simp only [hread] at hrun
                cases hrun
            | fault =>
                simp only [hread] at hrun
                cases hrun
            | diverges =>
                simp only [hread] at hrun
                cases hrun

/-- One round of `fat32_dir_is_empty` is always the last one. -/
theorem dirIsEmptyRounds_isSome (start fuel rounds : Nat) :
    (dirIsEmptyRounds v start fuel (rounds + 1)).isSome =
      (iterChain v (fat32ReaddirCb 0) fuel start 0 (LfnState.init, 0, none)).isSome := by
  rw [dirIsEmptyRounds]
  cases hrun : iterChain v (fat32ReaddirCb 0) fuel start 0 (LfnState.init, 0, none) with
  | none => rfl
  | some result =>
      obtain ⟨ret, ctx⟩ := result
      cases ret with
      | goOn =>
          have hzero : ctx.1 = 0 := iterChain_index rfl hrun
          simp only [if_pos hzero, Option.isSome_some]
      | stop => rfl
      | fail e => rfl

theorem dirIsEmptyClusters_eq (start fuel rounds : Nat) :
    dirIsEmptyClusters v start fuel (rounds + 1) =
      iterClusters v (fat32ReaddirCb 0) fuel start 0 (LfnState.init, 0, none) := by
  rw [dirIsEmptyClusters]
  cases hrun : iterChain v (fat32ReaddirCb 0) fuel start 0 (LfnState.init, 0, none) with
  | none => exact List.append_nil _
  | some result =>
      obtain ⟨ret, ctx⟩ := result
      cases ret with
      | goOn =>
          have hzero : ctx.1 = 0 := iterChain_index rfl hrun
          simp only [if_pos hzero, List.append_nil]
      | stop => exact List.append_nil _
      | fail e => exact List.append_nil _

theorem dirIsEmptyContained_iff (start : Nat) :
    DirIsEmptyContained v start ↔ IterStays v start (fat32ReaddirCb 0) (0, none) := by
  rw [← iterContained_iff, DirIsEmptyContained, IterContained]
  constructor
  · rintro ⟨⟨fuel, rounds, hsome⟩, hall⟩
    refine ⟨⟨fuel, ?_⟩, fun fuel c hc => hall fuel 1 c ?_⟩
    · cases rounds with
      | zero => cases hsome
      | succ rounds => rwa [dirIsEmptyRounds_isSome] at hsome
    · rwa [dirIsEmptyClusters_eq]
  · rintro ⟨⟨fuel, hsome⟩, hall⟩
    refine ⟨⟨fuel, 1, ?_⟩, fun fuel rounds c hc => ?_⟩
    · rwa [dirIsEmptyRounds_isSome]
    · cases rounds with
      | zero => exact absurd hc List.not_mem_nil
      | succ rounds =>
          rw [dirIsEmptyClusters_eq] at hc
          exact hall fuel c hc

end IsEmpty

section Allocation

/-- `max_cluster` is not the largest `uint32_t`: the loop of `fat32_alloc_cluster` ends. -/
def Fat32Fs.Bounded (fs : Fat32Fs) : Prop := u32 (fs.clusterCount + 1) ≠ 4294967295

/-- The program comes back and keeps what holds of the mounted geometry. -/
def KeepsFs {α : Type} (p : Fat32Fs → Prop) (m : Fs α) : Prop :=
  Prog.Triple (fun v => p v.fs) m (fun _ v => p v.fs) (fun _ v => p v.fs) fun _ => False

variable {p : Fat32Fs → Prop}

theorem KeepsFs.ite {α : Type} {c : Prop} [Decidable c] {m m' : Fs α} (h : KeepsFs p m)
    (h' : KeepsFs p m') : KeepsFs p (if c then m else m') :=
  Prog.Triple.ite (fun _ => h) fun _ => h'

theorem KeepsFs.bind {α β : Type} {m : Fs α} {f : α → Fs β} (h : KeepsFs p m)
    (hf : ∀ a, KeepsFs p (f a)) : KeepsFs p (m >>= f) :=
  Prog.Triple.bind h hf

theorem KeepsFs.orElse {α : Type} {m : Fs α} (h : KeepsFs p m) (e : Errno) :
    KeepsFs p (Prog.orElse m e) :=
  Prog.Triple.orElse h

theorem KeepsFs.fail {α : Type} (e : Errno) : KeepsFs p (Prog.fail e : Fs α) :=
  Prog.Triple.fail fun _ h => h

theorem KeepsFs.pure {α : Type} (a : α) : KeepsFs p (Pure.pure a : Fs α) :=
  Prog.Triple.pure fun _ h => h

theorem KeepsFs.forCount {body : Nat → Fs Unit} (h : ∀ i, KeepsFs p (body i)) (count first : Nat) :
    KeepsFs p (Prog.forCount body count first) := by
  induction count generalizing first with
  | zero => exact .pure _
  | succ count ih => exact (h first).bind fun _ => ih (first + 1)

theorem KeepsFs.ne_diverges {α : Type} {m : Fs α} (h : KeepsFs p m) {v : Vol} (hv : p v.fs) :
    (m v).1 ≠ .diverges := by
  intro hdiv
  have hpost := h v hv
  rcases hrun : m v with ⟨r, v'⟩
  rw [hrun] at hpost hdiv
  obtain rfl : r = .diverges := hdiv
  exact hpost

theorem getFs_keeps : KeepsFs p getFs := fun _ h => h

theorem blkRead_keeps (lba : Nat) : KeepsFs p (blkRead lba) := by
  intro v h
  unfold blkRead
  cases v.disk.read lba <;> exact h

theorem blkWrite_keeps (lba : Nat) (sector : Sector) : KeepsFs p (blkWrite lba sector) := by
  intro v h
  unfold blkWrite
  cases v.disk.write lba sector <;> exact h

theorem fat32ReadFatEntry_keeps (c : Nat) : KeepsFs p (fat32ReadFatEntry c) := by
  apply getFs_keeps.bind
  intro fs
  apply KeepsFs.ite (.fail _)
  apply ((blkRead_keeps _).orElse _).bind
  intro sector
  exact .ite (.fail _) (.pure _)

theorem fat32WriteFatEntry_keeps (c value : Nat) : KeepsFs p (fat32WriteFatEntry c value) := by
  apply getFs_keeps.bind
  intro fs
  apply KeepsFs.ite (.fail _)
  apply KeepsFs.forCount
  intro copy
  exact ((blkRead_keeps _).orElse _).bind fun sector => (blkWrite_keeps _ _).orElse _

theorem fat32ZeroCluster_keeps (c : Nat) : KeepsFs p (fat32ZeroCluster c) := by
  apply getFs_keeps.bind
  intro fs
  apply KeepsFs.forCount
  exact fun s => (blkWrite_keeps _ _).orElse _

/-- A pass of the allocation delivers one of the clusters it looks at. -/
theorem fat32AllocPass_triple (n count first : Nat) :
    Prog.Triple (fun v => v.fs.clusterCount = n) (fat32AllocPass count first)
      (fun r v => v.fs.clusterCount = n ∧ ∀ c, r = some c → first ≤ c ∧ c < first + count)
      (fun _ v => v.fs.clusterCount = n) fun _ => False := by
  induction count generalizing first with
  | zero => exact Prog.Triple.pure fun v h => ⟨h, fun c hc => by cases hc⟩
  | succ count ih =>
      rw [fat32AllocPass]
      apply Prog.Triple.bind ((fat32ReadFatEntry_keeps (p := fun fs => fs.clusterCount = n) _).orElse _)
      intro next
      apply Prog.Triple.ite
      · intro _
        apply Prog.Triple.bind ((fat32WriteFatEntry_keeps (p := fun fs => fs.clusterCount = n) _ _).orElse _)
        intro _
        apply Prog.Triple.bind ((fat32ZeroCluster_keeps (p := fun fs => fs.clusterCount = n) _).orElse _)
        intro _ v h
        refine ⟨h, fun c hc => ?_⟩
        obtain rfl := Option.some.inj hc
        exact ⟨Nat.le_refl _, by omega⟩
      · intro _
        refine (ih (first + 1)).post fun r v ⟨h, hr⟩ => ⟨h, fun c hc => ?_⟩
        have := hr c hc
        omega

/-- `fat32_alloc_cluster` comes back with a cluster of the data area or with an error. -/
theorem fat32AllocCluster_triple {n : Nat} (hn : u32 (n + 1) ≠ 4294967295) :
    Prog.Triple (fun v => v.fs.clusterCount = n) fat32AllocCluster
      (fun c v => v.fs.clusterCount = n ∧ 2 ≤ c ∧ c ≤ n + 1)
      (fun _ v => v.fs.clusterCount = n) fun _ => False := by
  have hle : u32 (n + 1) ≤ n + 1 := Nat.mod_le _ _
  unfold fat32AllocCluster
  apply Prog.Triple.bind (show Prog.Triple _ getFs (fun fs v => v.fs = fs ∧ fs.clusterCount = n)
    _ _ from fun v h => ⟨rfl, h⟩)
  intro fs
  refine Prog.Triple.assume (p := fs.clusterCount = n) (fun hfs => ?_) fun v h => h.2
  apply Prog.Triple.pre (P := fun v => v.fs.clusterCount = n) _ fun v h => h.1 ▸ h.2
  simp only [hfs, if_neg hn]
  generalize hstart : (if fs.allocHint < fat32MinCluster then fat32MinCluster
    else fs.allocHint) = start
  have hlow : 2 ≤ start := by
    rw [← hstart]
    split
    · exact Nat.le_refl 2
    · exact Nat.le_of_not_lt ‹_›
  apply Prog.Triple.bind (fat32AllocPass_triple n _ start)
  intro r
  cases r with
  | some c =>
      refine Prog.Triple.pure fun v ⟨h, hc⟩ => ⟨h, ?_⟩
      have := hc c rfl
      omega
  | none =>
      apply Prog.Triple.pre (P := fun v => v.fs.clusterCount = n) _ fun v h => h.1
      apply Prog.Triple.bind (fat32AllocPass_triple n _ fat32MinCluster)
      intro r
      cases r with
      | some c =>
          refine Prog.Triple.pure fun v ⟨h, hc⟩ => ⟨h, ?_⟩
          have := hc c rfl
          unfold fat32MinCluster at this
          omega
      | none => exact Prog.Triple.fail fun v h => h.1

variable {v : Vol}

theorem mem_allocPassClusters {count first : Nat} {v : Vol} :
    ∀ c ∈ allocPassClusters count first v, first ≤ c ∧ c < first + count := by
  induction count generalizing first v with
  | zero => exact fun c hc => absurd hc List.not_mem_nil
  | succ count ih =>
      intro c hc
      rw [allocPassClusters] at hc
      rcases List.mem_cons.mp hc with rfl | hc
      · exact ⟨Nat.le_refl _, by omega⟩
      · split at hc
        · split at hc
          · exact absurd hc List.not_mem_nil
          · have := ih c hc
            omega
        · exact absurd hc List.not_mem_nil

/-- The search for a free cluster looks at clusters of the data area. -/
theorem allocClusters_inData (h : v.fs.Bounded) : ∀ c ∈ allocClusters v, v.InData c := by
  have hle : u32 (v.fs.clusterCount + 1) ≤ v.maxCluster := Nat.mod_le _ _
  intro c hc
  unfold allocClusters at hc
  simp only [if_neg h] at hc
  generalize hstart : (if v.fs.allocHint < fat32MinCluster then fat32MinCluster
    else v.fs.allocHint) = start at hc
  have hlow : 2 ≤ start := by
    rw [← hstart]
    split
    · exact Nat.le_refl 2
    · exact Nat.le_of_not_lt ‹_›
  unfold Vol.InData
  rcases List.mem_append.mp hc with hc | hc
  · have := mem_allocPassClusters c hc
    omega
  · split at hc
    · have := mem_allocPassClusters c hc
      unfold fat32MinCluster at this
      omega
    · exact absurd hc List.not_mem_nil

theorem fat32Append_keeps {n : Nat} (hn : u32 (n + 1) ≠ 4294967295) (step needed fuel last count : Nat) :
    KeepsFs (fun fs => fs.clusterCount = n) (fat32Append step needed fuel last count) := by
  induction fuel generalizing last count with
  | zero => exact .pure _
  | succ fuel ih =>
      rw [fat32Append]
      apply KeepsFs.ite _ (.pure _)
      apply Prog.Triple.bind (Prog.Triple.orElse (fat32AllocCluster_triple hn))
      intro fresh
      apply Prog.Triple.pre (P := fun v => v.fs.clusterCount = n) _ fun v h => h.1
      exact ((fat32WriteFatEntry_keeps _ _).orElse _).bind fun _ => ih _ _

/-- Behind a cluster of the data area only clusters of the data area are touched. -/
theorem appendClusters_inData (h : v.fs.Bounded) {step needed fuel last count : Nat}
    (hlast : v.InData last) : ∀ c ∈ appendClusters step needed fuel last count v, v.InData c := by
  suffices hall : ∀ n, u32 (n + 1) ≠ 4294967295 → ∀ v : Vol, v.fs.clusterCount = n → ∀ last count,
      2 ≤ last ∧ last ≤ n + 1 → ∀ c ∈ appendClusters step needed fuel last count v,
        2 ≤ c ∧ c ≤ n + 1 from hall _ h v rfl last count hlast
  intro n hn
  induction fuel with
  | zero => exact fun v hv last count hlast c hc => absurd hc List.not_mem_nil
  | succ fuel ih =>
      intro v hv last count hlast c hc
      rw [appendClusters] at hc
      by_cases hcount : count < needed
      · rw [if_pos hcount] at hc
        rcases List.mem_append.mp hc with hc | hc
        · exact hv ▸ allocClusters_inData (by rw [Fat32Fs.Bounded, hv]; exact hn) c hc
        · cases halloc : fat32AllocCluster v with
          | mk r v₁ =>
              cases r with
              | ok fresh =>
                  obtain ⟨hv₁, hfresh⟩ := (fat32AllocCluster_triple hn).ok hv halloc
                  simp only [halloc] at hc
                  rcases List.mem_cons.mp hc with rfl | hc
                  · exact hlast
                  · cases hwrite : fat32WriteFatEntry last fresh v₁ with
                    | mk r v₂ =>
                        cases r with
                        | ok _ =>
                            simp only [hwrite] at hc
                            have hv₂ : v₂.fs.clusterCount = n := (fat32WriteFatEntry_keeps
                              (p := fun fs => fs.clusterCount = n) last fresh).ok hv₁ hwrite
                            exact ih v₂ hv₂ fresh _ hfresh c hc
                        | err e => simp only [hwrite, List.not_mem_nil] at hc
                        | fault => simp only [hwrite, List.not_mem_nil] at hc
                        | diverges => simp only [hwrite, List.not_mem_nil] at hc
              | err e => simp only [halloc, List.not_mem_nil] at hc
              | fault => simp only [halloc, List.not_mem_nil] at hc
              | diverges => simp only [halloc, List.not_mem_nil] at hc
      · rw [if_neg hcount] at hc
        exact absurd hc List.not_mem_nil

/-- The first cluster that is appended is linked behind `last`, whatever that is. -/
theorem appendClusters_last {step needed fuel last count : Nat} (hfuel : 0 < fuel)
    (hcount : count < needed) (hok : (fat32AllocCluster v).1.IsOk) :
    last ∈ appendClusters step needed fuel last count v := by
  obtain ⟨fuel, rfl⟩ := Nat.exists_eq_succ_of_ne_zero (Nat.pos_iff_ne_zero.mp hfuel)
  rw [appendClusters, if_pos hcount]
  cases halloc : fat32AllocCluster v with
  | mk r v₁ =>
      rw [halloc] at hok
      cases r with
      | ok fresh => exact List.mem_append_right _ List.mem_cons_self
      | err e => cases hok
      | fault => cases hok
      | diverges => cases hok

/-- Nothing is appended when the first allocation fails. -/
theorem appendClusters_of_not_ok (h : v.fs.Bounded) {step needed fuel last count : Nat}
    (hok : ¬ (fat32AllocCluster v).1.IsOk) :
    ∀ c ∈ appendClusters step needed fuel last count v, v.InData c := by
  intro c hc
  cases fuel with
  | zero => exact absurd hc List.not_mem_nil
  | succ fuel =>
      rw [appendClusters] at hc
      by_cases hcount : count < needed
      · rw [if_pos hcount] at hc
        rcases List.mem_append.mp hc with hc | hc
        · exact allocClusters_inData h c hc
        · cases halloc : fat32AllocCluster v with
          | mk r v₁ =>
              rw [halloc] at hok hc
              cases r with
              | ok fresh => exact absurd trivial hok
              | err e => exact absurd hc List.not_mem_nil
              | fault => exact absurd hc List.not_mem_nil
              | diverges => exact absurd hc List.not_mem_nil
      · rw [if_neg hcount] at hc
        exact absurd hc List.not_mem_nil

end Allocation

end OsAgentLab
