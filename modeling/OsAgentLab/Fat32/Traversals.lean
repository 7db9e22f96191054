/-
The traversals of `fat32.c` that append clusters to the chain they have followed:
`fat32_dir_find_free` and `fat32_ensure_chain` come back and stay in the data area
when the chain does, and when the allocation does.
-/
import OsAgentLab.Fat32.Contained

namespace OsAgentLab

section FindFree

/-- `fat32_dir_find_free` in one cluster, with `entry_index` and the run as its state. -/
def findPass (v : Vol) (needed cluster : Nat) (s : Nat × FreeRun) :
    Flow (Nat × FreeRun) (Except Errno Nat) :=
  match findFreeCluster v needed cluster s.1 s.2 with
  | .done result => .done result
  | .next run => .next (s.1 + 16 * v.fs.sectorsPerCluster, run)

/-- `fat32_dir_find_free` comes back after finitely many passes and touches clusters of
the data area only. -/
def FindFreeContained (v : Vol) (start needed : Nat) : Prop :=
  (∃ fuel, (findFreeWithin fuel start needed v).1 ≠ .diverges) ∧
    ∀ fuel, ∀ c ∈ findFreeTouched v start needed fuel, v.InData c

/-- The chain from `start` stays in the data area up to a cluster in which a run of free
slots is found, or up to its end; a start that is an end mark itself is written to when
a cluster is appended. -/
def FindFreeStays (v : Vol) (start needed : Nat) : Prop :=
  if fat32Eoc ≤ start then
    needed = 0 ∨ v.fs.Bounded ∧ ((fat32AllocCluster v).1.IsOk → v.InData start)
  else
    ∃ rest, Link.Leads v.link start rest ∧ (∀ c ∈ start :: rest, v.InData c) ∧
      ((∃ r, Flow.loop (findPass v needed) (start :: rest) (0, ⟨0, 0⟩) = .done r) ∨
        v.fs.Bounded ∧ Link.Stuck v.link start rest)

variable {v : Vol} {needed : Nat}

theorem findFreeClusters_eq_visited (fuel : Nat) {cluster : Nat} (base : Nat) (run : FreeRun)
    (h : cluster < fat32Eoc) :
    findFreeClusters v needed fuel cluster base run =
      Link.visited (findPass v needed) v.link fuel cluster (base, run) := by
  induction fuel generalizing cluster base run with
  | zero => rfl
  | succ fuel ih =>
      rw [findFreeClusters, if_neg (Nat.not_le.mpr h), Link.visited, findPass]
      cases findFreeCluster v needed cluster base run with
      | done result => rfl
      | next run' =>
          simp only [Vol.link]
          cases (fat32ReadFatEntry cluster v).1 with
          | ok next =>
              by_cases hnext : fat32Eoc ≤ next
              · simp only [if_pos hnext]
                cases fuel with
                | zero => rfl
                | succ fuel => rw [findFreeClusters, if_pos hnext]
              · simp only [if_neg hnext, ih _ _ (Nat.lt_of_not_le hnext)]
          | err e => rfl
          | fault => rfl
          | diverges => rfl

/-- What the search delivers when its walk ends. -/
def findEnd : Link.WalkEnd Nat (Nat × FreeRun) (Except Errno Nat) →
    Flow FindFreeEnd (Except Errno Nat)
  | .found r => .done r
  | .ran last (base, run) => .next ⟨last, base, run⟩
  | .cut _ _ => .done (.error .io)

theorem findFreeChain_of_walk {fuel cluster last base : Nat} {run : FreeRun}
    {stop : Link.WalkEnd Nat (Nat × FreeRun) (Except Errno Nat)} (h : cluster < fat32Eoc)
    (hwalk : Link.walk (findPass v needed) v.link fuel cluster (base, run) = some stop) :
    findFreeChain v needed (fuel + 1) cluster last base run = some (findEnd stop) := by
  induction fuel generalizing cluster last base run with
  | zero => cases hwalk
  | succ fuel ih =>
      rw [Link.walk, findPass] at hwalk
      rw [findFreeChain, if_neg (Nat.not_le.mpr h)]
      cases hpass : findFreeCluster v needed cluster base run with
      | done result =>
          simp only [hpass] at hwalk
          obtain rfl := Option.some.inj hwalk
          rfl
      | next run' =>
          simp only [hpass, Vol.link] at hwalk ⊢
          cases hread : (fat32ReadFatEntry cluster v).1 with
          | ok next =>
              simp only [hread] at hwalk ⊢
              by_cases hnext : fat32Eoc ≤ next
              · simp only [if_pos hnext] at hwalk
                obtain rfl := Option.some.inj hwalk
                rw [findFreeChain, if_pos hnext]
                rfl
              · simp only [if_neg hnext] at hwalk
                exact ih (Nat.lt_of_not_le hnext) hwalk
          | err e =>
              simp only [hread] at hwalk
              obtain rfl := Option.some.inj hwalk
              rfl
          | fault =>
              simp only [hread] at hwalk
              obtain rfl := Option.some.inj hwalk
              rfl
          | diverges =>
              simp only [hread] at hwalk
              obtain rfl := Option.some.inj hwalk
              rfl

theorem walk_of_findFreeChain {fuel cluster last base : Nat} {run : FreeRun}
    {result : Flow FindFreeEnd (Except Errno Nat)} (h : cluster < fat32Eoc)
    (hchain : findFreeChain v needed fuel cluster last base run = some result) :
    ∃ stop, Link.walk (findPass v needed) v.link fuel cluster (base, run) = some stop ∧
      findEnd stop = result := by
  induction fuel generalizing cluster last base run with
  | zero => cases hchain
  | succ fuel ih =>
      rw [findFreeChain, if_neg (Nat.not_le.mpr h)] at hchain
      rw [Link.walk, findPass]
      cases hpass : findFreeCluster v needed cluster base run with
      | done r =>
          simp only [hpass] at hchain ⊢
          exact ⟨_, rfl, Option.some.inj hchain⟩
      | next run' =>
          simp only [hpass, Vol.link] at hchain ⊢
          cases hread : (fat32ReadFatEntry cluster v).1 with
          | ok next =>
              simp only [hread] at hchain ⊢
              by_cases hnext : fat32Eoc ≤ next
              · simp only [if_pos hnext]
                refine ⟨_, rfl, ?_⟩
                cases fuel with
                | zero => cases hchain
                | succ fuel =>
                    rw [findFreeChain, if_pos hnext] at hchain
                    exact Option.some.inj hchain
              · simp only [if_neg hnext]
                exact ih (Nat.lt_of_not_le hnext) hchain
          | err e =>
              simp only [hread] at hchain ⊢
              exact ⟨_, rfl, Option.some.inj hchain⟩
          | fault =>
              simp only [hread] at hchain ⊢
              exact ⟨_, rfl, Option.some.inj hchain⟩
          | diverges =>
              simp only [hread] at hchain ⊢
              exact ⟨_, rfl, Option.some.inj hchain⟩

theorem findFreeWithin_of_eoc {start : Nat} (h : fat32Eoc ≤ start) (fuel : Nat) :
    findFreeChain v needed (fuel + 1) start start 0 ⟨0, 0⟩ = some (.next ⟨start, 0, ⟨0, 0⟩⟩) := by
  rw [findFreeChain, if_pos h]

/-- The loop that appends comes back, when it has nothing to do or is bounded. -/
theorem findFreeWithin_returns {start fuel : Nat} {result : Flow FindFreeEnd (Except Errno Nat)}
    (hchain : findFreeChain v needed fuel start start 0 ⟨0, 0⟩ = some result)
    (happend : ∀ stop, result = .next stop → needed ≤ stop.run.len ∨ v.fs.Bounded) :
    (findFreeWithin fuel start needed v).1 ≠ .diverges := by
  unfold findFreeWithin
  rw [hchain]
  cases result with
  | done r => cases r <;> exact fun h => by cases h
  | next stop =>
      simp only
      rcases happend stop rfl with hle | hbounded
      · rw [Nat.sub_eq_zero_of_le hle]
        exact fun h => by cases h
      · exact KeepsFs.ne_diverges ((fat32Append_keeps hbounded _ _ _ _ _).bind fun _ => .pure _)
          (p := fun fs => fs.clusterCount = v.fs.clusterCount) rfl

theorem mem_findFreeTouched {start fuel c : Nat} (h : start < fat32Eoc) :
    c ∈ findFreeTouched v start needed fuel ↔
      c ∈ Link.visited (findPass v needed) v.link fuel start (0, ⟨0, 0⟩) ∨
        ∃ stop, findFreeChain v needed fuel start start 0 ⟨0, 0⟩ = some (.next stop) ∧
          c ∈ appendClusters (u32 (v.fs.sectorsPerCluster * v.fs.bytesPerSector) / 32) needed
            (needed - stop.run.len) stop.last stop.run.len v := by
  rw [findFreeTouched, List.mem_append, findFreeClusters_eq_visited fuel 0 _ h]
  apply or_congr_right
  cases findFreeChain v needed fuel start start 0 ⟨0, 0⟩ with
  | none => exact iff_of_false List.not_mem_nil fun ⟨_, h, _⟩ => by cases h
  | some result =>
      cases result with
      | done r => exact iff_of_false List.not_mem_nil fun ⟨_, h, _⟩ => by cases h
      | next stop =>
          exact ⟨fun hc => ⟨stop, rfl, hc⟩, fun ⟨stop', heq, hc⟩ => by
            obtain rfl : stop = stop' := Flow.next.inj (Option.some.inj heq)
            exact hc⟩

theorem findFreeContained_of_stays {start : Nat} (h : FindFreeStays v start needed) :
    FindFreeContained v start needed := by
  unfold FindFreeStays at h
  by_cases heoc : fat32Eoc ≤ start
  · rw [if_pos heoc] at h
    constructor
    · refine ⟨1, findFreeWithin_returns (findFreeWithin_of_eoc heoc 0) fun stop hstop => ?_⟩
      rcases h with rfl | ⟨hbounded, _⟩
      · exact Or.inl (Nat.zero_le _)
      · exact Or.inr hbounded
    · intro fuel c hc
      cases fuel with
      | zero => exact absurd hc List.not_mem_nil
      | succ fuel =>
          rw [findFreeTouched, findFreeClusters, if_pos heoc, List.nil_append,
            findFreeWithin_of_eoc heoc] at hc
          rcases h with rfl | ⟨hbounded, halloc⟩
          · exact absurd hc List.not_mem_nil
          · by_cases hok : (fat32AllocCluster v).1.IsOk
            · exact appendClusters_inData hbounded (halloc hok) c hc
            · exact appendClusters_of_not_ok hbounded hok c hc
  · rw [if_neg heoc] at h
    have hlt := Nat.lt_of_not_le heoc
    obtain ⟨rest, hleads, hall, hend⟩ := h
    have hsettled : Link.Settled (findPass v needed) v.link v.InData start (0, ⟨0, 0⟩) :=
      ⟨rest, hleads, hall, hend.imp_right And.right⟩
    obtain ⟨⟨fuel, hsome⟩, hvisited⟩ := Link.walk_settled_iff.mpr hsettled
    obtain ⟨stop, hwalk⟩ := Option.isSome_iff_exists.mp hsome
    -- a run that is found leaves nothing to append
    have happend : ∀ fuel stop, findFreeChain v needed fuel start start 0 ⟨0, 0⟩ =
        some (.next stop) → v.fs.Bounded ∧ v.InData stop.last := by
      intro fuel stop hchain
      obtain ⟨stop', hwalk', hfind⟩ := walk_of_findFreeChain hlt hchain
      rcases hend with ⟨r, hloop⟩ | ⟨hbounded, _⟩
      · obtain ⟨fuel', hfound⟩ := Link.walk_found hleads hloop
        obtain rfl := Link.walk_unique hwalk' hfound
        cases hfind
      · refine ⟨hbounded, hvisited fuel _ ?_⟩
        cases stop' with
        | found r => cases hfind
        | cut a s => cases hfind
        | ran a s =>
            obtain rfl := Flow.next.inj hfind
            exact Link.mem_visited_of_walk hwalk' (Or.inl rfl)
    constructor
    · have hchain := @findFreeChain_of_walk v needed fuel start start 0 ⟨0, 0⟩ stop hlt hwalk
      refine ⟨fuel + 1, findFreeWithin_returns hchain fun stop' hstop => Or.inr ?_⟩
      rw [hstop] at hchain
      exact (happend _ _ hchain).1
    · intro fuel c hc
      rcases (mem_findFreeTouched hlt).mp hc with hc | ⟨stop, hchain, hc⟩
      · exact hvisited fuel c hc
      · obtain ⟨hbounded, hlast⟩ := happend fuel stop hchain
        exact appendClusters_inData hbounded hlast c hc

theorem stays_of_findFreeContained (hbounded : v.fs.Bounded) {start : Nat}
    (h : FindFreeContained v start needed) : FindFreeStays v start needed := by
  obtain ⟨⟨fuel, hreturns⟩, hall⟩ := h
  unfold FindFreeStays
  by_cases heoc : fat32Eoc ≤ start
  · rw [if_pos heoc]
    rcases Nat.eq_zero_or_pos needed with hzero | hpos
    · exact Or.inl hzero
    · refine Or.inr ⟨hbounded, fun hok => hall 1 start ?_⟩
      rw [findFreeTouched, findFreeClusters, if_pos heoc, List.nil_append,
        findFreeWithin_of_eoc heoc]
      exact appendClusters_last hpos hpos hok
  · rw [if_neg heoc]
    have hlt := Nat.lt_of_not_le heoc
    have hsome : (Link.walk (findPass v needed) v.link fuel start (0, ⟨0, 0⟩)).isSome := by
      cases hchain : findFreeChain v needed fuel start start 0 ⟨0, 0⟩ with
      | none =>
          refine absurd ?_ hreturns
          rw [findFreeWithin, hchain]
      | some result =>
          obtain ⟨stop, hwalk, _⟩ := walk_of_findFreeChain hlt hchain
          rw [hwalk]
          rfl
    obtain ⟨rest, hleads, hin, hend⟩ := Link.walk_settled_iff.mp
      ⟨⟨fuel, hsome⟩, fun fuel c hc => hall fuel c ((mem_findFreeTouched hlt).mpr (Or.inl hc))⟩
    exact ⟨rest, hleads, hin, hend.imp_right fun hstuck => ⟨hbounded, hstuck⟩⟩

end FindFree

section EnsureChain

/-- The first loop of `fat32_ensure_chain`: how many more links it follows. -/
def countPass (_cluster : Nat) : Nat → Flow Nat Unit
  | 0 => .done ()
  | missing + 1 => .next missing

/-- `fat32_ensure_chain` comes back and touches clusters of the data area only. -/
def EnsureContained (v : Vol) (start needed : Nat) : Prop :=
  (ensureChainFrom start needed v).1 ≠ .diverges ∧
    ∀ c ∈ ensureTouched v start needed, v.InData c

/-- The chain from `cluster` stays in the data area as far as it is followed: over
`needed - 1` links, or up to its end. -/
def EnsureRestStays (v : Vol) (cluster needed : Nat) : Prop :=
  if fat32Eoc ≤ cluster then v.fs.Bounded ∧ ¬ (fat32AllocCluster v).1.IsOk
  else
    needed ≤ 1 ∨ ∃ rest, Link.Leads v.link cluster rest ∧ (∀ c ∈ cluster :: rest, v.InData c) ∧
      (v.fs.Bounded ∧ Link.Stuck v.link cluster rest ∨
        needed ≤ rest.length + 2 ∧ ¬ Link.Stuck v.link cluster rest)

/-- The same for the start cluster, or for the cluster allocated in its place. -/
def EnsureStays (v : Vol) (start needed : Nat) : Prop :=
  needed = 0 ∨
    if start = 0 then
      v.fs.Bounded ∧ ∀ fresh v₁, fat32AllocCluster v = (.ok fresh, v₁) →
        EnsureRestStays v₁ fresh needed
    else EnsureRestStays v start needed

variable {v : Vol}

theorem loop_countPass (path : List Nat) (missing : Nat) :
    (∃ r, Flow.loop countPass path missing = .done r) ↔ missing < path.length := by
  induction path generalizing missing with
  | nil => exact iff_of_false (fun ⟨_, h⟩ => by cases h) (Nat.not_lt_zero _)
  | cons c rest ih =>
      rw [Flow.loop_cons, List.length_cons]
      cases missing with
      | zero => exact iff_of_true ⟨(), rfl⟩ (Nat.succ_pos _)
      | succ missing =>
          change (∃ r, Flow.loop countPass rest missing = .done r) ↔ _
          rw [ih]
          omega

theorem countPass_walk_isSome (link : Nat → Link Nat) (missing : Nat) (a : Nat) :
    (Link.walk countPass link (missing + 1) a missing).isSome := by
  induction missing generalizing a with
  | zero => rfl
  | succ missing ih =>
      rw [Link.walk, countPass]
      cases link a with
      | onward b => exact ih b
      | last => rfl
      | broken => rfl

theorem ensureWalkClusters_eq_visited (missing : Nat) {cluster : Nat} (h : cluster < fat32Eoc) :
    ensureWalkClusters v (missing + 2) cluster =
      Link.visited countPass v.link (missing + 1) cluster missing := by
  induction missing generalizing cluster with
  | zero =>
      rw [ensureWalkClusters, if_pos h, if_neg (Nat.succ_ne_zero _), Link.visited, countPass]
      congr 1
      cases (fat32ReadFatEntry cluster v).1 with
      | ok next =>
          simp only [ensureWalkClusters, ↓reduceIte, ite_self]
      | err e => rfl
      | fault => rfl
      | diverges => rfl
  | succ missing ih =>
      rw [ensureWalkClusters, if_pos h, if_neg (Nat.succ_ne_zero _), Link.visited, countPass]
      simp only [Vol.link]
      cases (fat32ReadFatEntry cluster v).1 with
      | ok next =>
          by_cases hnext : fat32Eoc ≤ next
          · simp only [if_pos hnext]
          · simp only [if_neg hnext, ih (Nat.lt_of_not_le hnext)]
      | err e => rfl
      | fault => rfl
      | diverges => rfl

theorem fat32ReadFatEntry_cases (c : Nat) (v : Vol) :
    (∃ next, fat32ReadFatEntry c v = (.ok next, v)) ∨ ∃ e, fat32ReadFatEntry c v = (.err e, v) := by
  unfold fat32ReadFatEntry
  rw [Prog.bind_ok (show getFs v = (.ok v.fs, v) from rfl)]
  by_cases hbytes : v.fs.bytesPerSector ≠ 512
  · exact Or.inr ⟨_, by rw [if_pos hbytes]; rfl⟩
  · rw [if_neg hbytes]
    cases hread : v.disk.read (u32 (v.fs.fatLba + u32 (c * 4) / v.fs.bytesPerSector)) with
    | none =>
        have hblk : blkRead (u32 (v.fs.fatLba + u32 (c * 4) / v.fs.bytesPerSector)) v =
            (.err .perm, v) := by rw [blkRead, hread]
        exact Or.inr ⟨.io, Prog.bind_err (Prog.orElse_err hblk _) _⟩
    | some sector =>
        have hblk : blkRead (u32 (v.fs.fatLba + u32 (c * 4) / v.fs.bytesPerSector)) v =
            (.ok sector, v) := by rw [blkRead, hread]
        rw [Prog.bind_ok (Prog.orElse_ok hblk _)]
        by_cases hoff : 512 < u32 (c * 4) % v.fs.bytesPerSector + 4
        · exact Or.inr ⟨_, by rw [if_pos hoff]; rfl⟩
        · exact Or.inl ⟨_, by rw [if_neg hoff]; rfl⟩

/-- The first loop of `fat32_ensure_chain` comes back with the cluster it stands in: one
whose entry it has read, if clusters are missing. -/
theorem fat32EnsureWalk_cases (missing : Nat) {cluster : Nat} (last : Nat)
    (h : cluster < fat32Eoc) :
    (∃ a n, fat32EnsureWalk (missing + 1) cluster last v = (.ok (a, n), v) ∧
      (n = 0 ∨ a ∈ ensureWalkClusters v (missing + 1) cluster)) ∨
    ∃ e, fat32EnsureWalk (missing + 1) cluster last v = (.err e, v) := by
  induction missing generalizing cluster last with
  | zero =>
      refine Or.inl ⟨cluster, 0, ?_, Or.inl rfl⟩
      rw [fat32EnsureWalk, if_pos h, if_pos rfl]
      rfl
  | succ missing ih =>
      rw [fat32EnsureWalk, if_pos h, if_neg (Nat.succ_ne_zero missing), ensureWalkClusters,
        if_pos h, if_neg (Nat.succ_ne_zero missing)]
      rcases fat32ReadFatEntry_cases cluster v with ⟨next, hread⟩ | ⟨e, hread⟩
      · rw [Prog.bind_ok (Prog.orElse_ok hread _)]
        simp only [hread]
        by_cases hnext : fat32Eoc ≤ next
        · rw [if_pos hnext]
          exact Or.inl ⟨cluster, missing + 1, rfl, Or.inr List.mem_cons_self⟩
        · rw [if_neg hnext, if_neg hnext]
          rcases ih cluster (Nat.lt_of_not_le hnext) with ⟨a, n, hrun, hmem⟩ | hrun
          · exact Or.inl ⟨a, n, hrun, hmem.imp_right (List.mem_cons_of_mem cluster)⟩
          · exact Or.inr hrun
      · exact Or.inr ⟨_, Prog.bind_err (Prog.orElse_err hread _) _⟩

/-- A chain that is long enough leaves no cluster missing. -/
theorem fat32EnsureWalk_of_leads {needed cluster last : Nat} {rest : List Nat}
    (h : cluster < fat32Eoc) (hleads : Link.Leads v.link cluster rest)
    (hlen : needed ≤ rest.length) :
    ∃ a, fat32EnsureWalk (needed + 1) cluster last v = (.ok (a, 0), v) := by
  induction needed generalizing cluster last rest with
  | zero =>
      refine ⟨cluster, ?_⟩
      rw [fat32EnsureWalk, if_pos h, if_pos rfl]
      rfl
  | succ needed ih =>
      cases rest with
      | nil => exact absurd hlen (Nat.not_succ_le_zero _)
      | cons b rest =>
          obtain ⟨hlink, hleads⟩ := hleads
          rw [fat32EnsureWalk, if_pos h, if_neg (Nat.succ_ne_zero needed)]
          rcases fat32ReadFatEntry_cases cluster v with ⟨next, hread⟩ | ⟨e, hread⟩
          · rw [Prog.bind_ok (Prog.orElse_ok hread _)]
            simp only [Vol.link, hread] at hlink
            by_cases hnext : fat32Eoc ≤ next
            · rw [if_pos hnext] at hlink
              cases hlink
            · rw [if_neg hnext] at hlink ⊢
              obtain rfl := Link.onward.inj hlink
              exact ih (Nat.lt_of_not_le hnext) hleads (Nat.le_of_succ_le_succ hlen)
          · simp only [Vol.link, hread] at hlink
            cases hlink

theorem Vol.not_inData_zero : ¬ v.InData 0 := fun h => absurd h.1 (by decide)

/-- From an end mark nothing is followed, and the first cluster is linked behind
cluster 0. -/
theorem fat32EnsureWalk_of_eoc {cluster : Nat} (h : fat32Eoc ≤ cluster) (missing last : Nat) :
    fat32EnsureWalk (missing + 1) cluster last v = (.ok (last, missing + 1), v) := by
  rw [fat32EnsureWalk, if_neg (Nat.not_lt.mpr h)]
  rfl

theorem fat32EnsureRest_of_walk {cluster needed last missing : Nat} (hneeded : needed ≠ 0)
    (hwalk : fat32EnsureWalk needed cluster 0 v = (.ok (last, missing), v)) :
    fat32EnsureRest cluster needed v =
        fat32Append 1 needed missing last (needed - missing) v ∧
      ensureRestTouched v cluster needed =
        ensureWalkClusters v needed cluster ++
          appendClusters 1 needed missing last (needed - missing) v := by
  constructor
  · rw [fat32EnsureRest, if_neg hneeded, Prog.bind_ok hwalk]
  · rw [ensureRestTouched, if_neg hneeded, hwalk]

/-- The clusters of the first loop when the chain stays. -/
theorem ensureWalkClusters_inData {cluster needed : Nat} (h : cluster < fat32Eoc)
    (hstays : EnsureRestStays v cluster needed) :
    ∀ c ∈ ensureWalkClusters v needed cluster, v.InData c := by
  rw [EnsureRestStays, if_neg (Nat.not_le.mpr h)] at hstays
  intro c hc
  match needed with
  | 0 => exact absurd hc List.not_mem_nil
  | 1 =>
      rw [ensureWalkClusters, if_pos h, if_pos rfl] at hc
      exact absurd hc List.not_mem_nil
  | missing + 2 =>
      rcases hstays with hle | ⟨rest, hleads, hall, hend⟩
      · omega
      · rw [ensureWalkClusters_eq_visited missing h] at hc
        refine Link.visited_of_settled ⟨rest, hleads, hall, ?_⟩ _ c hc
        rcases hend with ⟨_, hstuck⟩ | ⟨hlen, _⟩
        · exact Or.inr hstuck
        · refine Or.inl ((loop_countPass _ _).mpr ?_)
          rw [List.length_cons]
          omega

/-- A chain that stays either has enough clusters or may grow. -/
theorem ensureRest_missing {cluster needed : Nat} (h : cluster < fat32Eoc)
    (hstays : EnsureRestStays v cluster (needed + 1)) :
    v.fs.Bounded ∨ ∃ a, fat32EnsureWalk (needed + 1) cluster 0 v = (.ok (a, 0), v) := by
  rw [EnsureRestStays, if_neg (Nat.not_le.mpr h)] at hstays
  rcases hstays with hle | ⟨rest, hleads, _, hend⟩
  · exact Or.inr (@fat32EnsureWalk_of_leads v needed cluster 0 [] h trivial (by simpa using hle))
  · rcases hend with ⟨hbounded, _⟩ | ⟨hlen, hnot⟩
    · exact Or.inl hbounded
    · simp only [Link.Stuck, not_forall, not_not] at hnot
      obtain ⟨b, hlink⟩ := hnot
      refine Or.inr (fat32EnsureWalk_of_leads h (hleads.snoc hlink) ?_)
      rw [List.length_append, List.length_singleton]
      omega

theorem ensureRestContained_of_stays {cluster needed : Nat} (hneeded : needed ≠ 0)
    (hstays : EnsureRestStays v cluster needed) :
    (fat32EnsureRest cluster needed v).1 ≠ .diverges ∧
      ∀ c ∈ ensureRestTouched v cluster needed, v.InData c := by
  obtain ⟨missing, rfl⟩ := Nat.exists_eq_succ_of_ne_zero hneeded
  by_cases heoc : fat32Eoc ≤ cluster
  · obtain ⟨hrun, htouched⟩ := fat32EnsureRest_of_walk hneeded
      (@fat32EnsureWalk_of_eoc v cluster heoc missing 0)
    rw [EnsureRestStays, if_pos heoc] at hstays
    rw [hrun, htouched]
    refine ⟨KeepsFs.ne_diverges (p := fun fs => fs.clusterCount = v.fs.clusterCount)
      (fat32Append_keeps hstays.1 _ _ _ _ _) rfl, fun c hc => ?_⟩
    rw [ensureWalkClusters, if_neg (Nat.not_lt.mpr heoc), List.nil_append] at hc
    exact appendClusters_of_not_ok hstays.1 hstays.2 c hc
  · have hlt := Nat.lt_of_not_le heoc
    have hwalkIn := ensureWalkClusters_inData hlt hstays
    rcases fat32EnsureWalk_cases missing 0 hlt with ⟨a, n, hwalk, hmem⟩ | ⟨e, hwalk⟩
    · obtain ⟨hrun, htouched⟩ := fat32EnsureRest_of_walk hneeded hwalk
      rw [hrun, htouched]
      -- clusters are missing only when the chain may grow, and then behind a data cluster
      have hgrow : n = 0 ∨ v.fs.Bounded ∧ v.InData a := by
        rcases hmem with hzero | hmem
        · exact Or.inl hzero
        · rcases ensureRest_missing hlt hstays with hbounded | ⟨b, hwalk'⟩
          · exact Or.inr ⟨hbounded, hwalkIn a hmem⟩
          · rw [hwalk] at hwalk'
            exact Or.inl (Prod.mk.inj (Outcome.ok.inj (Prod.mk.inj hwalk').1)).2
      rcases hgrow with rfl | ⟨hbounded, ha⟩
      · refine ⟨(fun h => by cases h), fun c hc => ?_⟩
        rw [appendClusters, List.append_nil] at hc
        exact hwalkIn c hc
      · refine ⟨KeepsFs.ne_diverges (p := fun fs => fs.clusterCount = v.fs.clusterCount)
          (fat32Append_keeps hbounded _ _ _ _ _) rfl, fun c hc => ?_⟩
        rcases List.mem_append.mp hc with hc | hc
        · exact hwalkIn c hc
        · exact appendClusters_inData hbounded ha c hc
    · constructor
      · rw [fat32EnsureRest, if_neg hneeded, Prog.bind_err hwalk]
        exact fun h => by cases h
      · intro c hc
        rw [ensureRestTouched, if_neg hneeded, hwalk, List.append_nil] at hc
        exact hwalkIn c hc

theorem stays_of_ensureRestContained (hbounded : v.fs.Bounded) {cluster needed : Nat}
    (hneeded : needed ≠ 0) (hall : ∀ c ∈ ensureRestTouched v cluster needed, v.InData c) :
    EnsureRestStays v cluster needed := by
  obtain ⟨missing, rfl⟩ := Nat.exists_eq_succ_of_ne_zero hneeded
  unfold EnsureRestStays
  by_cases heoc : fat32Eoc ≤ cluster
  · rw [if_pos heoc]
    refine ⟨hbounded, fun hok => Vol.not_inData_zero (hall 0 ?_)⟩
    rw [(fat32EnsureRest_of_walk hneeded (@fat32EnsureWalk_of_eoc v cluster heoc missing 0)).2]
    refine List.mem_append_right _ (appendClusters_last (Nat.succ_pos _) ?_ hok)
    omega
  · rw [if_neg heoc]
    have hlt := Nat.lt_of_not_le heoc
    cases missing with
    | zero => exact Or.inl (Nat.le_refl 1)
    | succ missing =>
        have hvisited : ∀ c ∈ Link.visited countPass v.link (missing + 1) cluster missing,
            v.InData c := by
          intro c hc
          rw [← ensureWalkClusters_eq_visited missing hlt] at hc
          rw [ensureRestTouched, if_neg hneeded] at hall
          exact hall c (List.mem_append_left _ hc)
        obtain ⟨rest, hleads, hin, hend⟩ :=
          Link.settled_of_walk (countPass_walk_isSome v.link missing cluster) hvisited
        refine Or.inr ⟨rest, hleads, hin, ?_⟩
        by_cases hstuck : Link.Stuck v.link cluster rest
        · exact Or.inl ⟨hbounded, hstuck⟩
        · refine Or.inr ⟨?_, hstuck⟩
          have hlen := (loop_countPass _ _).mp (hend.resolve_right hstuck)
          rw [List.length_cons] at hlen
          omega

theorem inData_of_count {v₁ : Vol} (h : v₁.fs.clusterCount = v.fs.clusterCount) {c : Nat} :
    v₁.InData c ↔ v.InData c := by
  unfold Vol.InData Vol.maxCluster
  rw [h]

theorem ensureContained_of_stays {start needed : Nat} (h : EnsureStays v start needed) :
    EnsureContained v start needed := by
  unfold EnsureContained ensureChainFrom fat32EnsureStart ensureTouched
  by_cases hzero : needed = 0
  · subst hzero
    exact ⟨(fun h => by cases h), fun c hc => absurd hc List.not_mem_nil⟩
  · have hstays := h.resolve_left hzero
    simp only [if_neg hzero]
    by_cases hstart : start = 0
    · rw [if_pos hstart] at hstays
      obtain ⟨hbounded, hrest⟩ := hstays
      simp only [if_pos hstart]
      have htriple := fat32AllocCluster_triple hbounded v rfl
      rcases halloc : fat32AllocCluster v with ⟨r, v₁⟩
      rw [halloc] at htriple
      cases r with
      | ok fresh =>
          obtain ⟨hreturns, hin⟩ := ensureRestContained_of_stays hzero (hrest fresh v₁ halloc)
          rw [Prog.bind_ok (Prog.orElse_ok halloc _)]
          refine ⟨hreturns, fun c hc => ?_⟩
          rcases List.mem_append.mp hc with hc | hc
          · exact allocClusters_inData hbounded c hc
          · exact (inData_of_count htriple.1).mp (hin c hc)
      | err e =>
          rw [Prog.bind_err (Prog.orElse_err halloc _)]
          refine ⟨(fun h => by cases h), fun c hc => ?_⟩
          rw [List.append_nil] at hc
          exact allocClusters_inData hbounded c hc
      | fault => exact htriple.elim
      | diverges => exact htriple.elim
    · rw [if_neg hstart] at hstays
      simp only [if_neg hstart]
      rw [Prog.bind_ok (Prog.pure_apply start v)]
      exact ensureRestContained_of_stays hzero hstays

theorem stays_of_ensureContained (hbounded : v.fs.Bounded) {start needed : Nat}
    (h : EnsureContained v start needed) : EnsureStays v start needed := by
  unfold EnsureStays
  by_cases hzero : needed = 0
  · exact Or.inl hzero
  · have hall := h.2
    rw [ensureTouched, if_neg hzero] at hall
    refine Or.inr ?_
    by_cases hstart : start = 0
    · rw [if_pos hstart] at hall ⊢
      refine ⟨hbounded, fun fresh v₁ halloc => ?_⟩
      obtain ⟨hcount, _⟩ := (fat32AllocCluster_triple hbounded).ok rfl halloc
      have hbounded₁ : v₁.fs.Bounded := by
        rw [Fat32Fs.Bounded, hcount]
        exact hbounded
      apply stays_of_ensureRestContained hbounded₁ hzero
      intro c hc
      refine (inData_of_count hcount).mpr (hall c (List.mem_append_right _ ?_))
      rw [halloc]
      exact hc
    · rw [if_neg hstart] at hall ⊢
      exact stays_of_ensureRestContained hbounded hzero hall

end EnsureChain

section Hostile

/-- The traversals come back and stay in the data area when the chain stays there up to
the place where they end, and, on a volume whose cluster numbers are bounded, only
then. -/
theorem chainTraversals_contained (v : Vol) :
    (∀ (β : Type) (cb : DirHit → β → CbRet × β) (ctx : β) (start : Nat),
        IterContained v start cb ctx ↔ IterStays v start cb ctx) ∧
      (∀ start, DirIsEmptyContained v start ↔ IterStays v start (fat32ReaddirCb 0) (0, none)) ∧
      (∀ start needed, (FindFreeStays v start needed → FindFreeContained v start needed) ∧
        (v.fs.Bounded → FindFreeContained v start needed → FindFreeStays v start needed)) ∧
      ∀ start needed, (EnsureStays v start needed → EnsureContained v start needed) ∧
        (v.fs.Bounded → EnsureContained v start needed → EnsureStays v start needed) :=
  ⟨fun _ _ ctx start => iterContained_iff start ctx, dirIsEmptyContained_iff,
    fun _ _ => ⟨findFreeContained_of_stays, fun h => stays_of_findFreeContained h⟩,
    fun _ _ => ⟨ensureContained_of_stays, fun h => stays_of_ensureContained h⟩⟩

/-- A volume whose root directory is one cluster of deleted slots, with `entry` as the
lowest byte of its FAT entry. -/
def chainDisk (entry : UInt8) : Vol where
  disk :=
    { sectors lba off :=
        if lba = 33 ∧ off = 8 then entry
        else if lba = 41 then 0xE5
        else (bootDisk mbrFields bootFields).sectors lba off
      served lba := decide (lba < 4096) }
  fs := .zero

theorem fat32Mount_disk {v v' : Vol} (h : fat32Mount v = (.ok (), v')) : v'.disk = v.disk := by
  have hread : ∀ lba, Prog.Triple (fun w : Vol => w.disk = v.disk) (blkRead lba)
      (fun _ w => w.disk = v.disk) (fun _ _ => True) fun _ => True := by
    intro lba w hw
    unfold blkRead
    cases w.disk.read lba with
    | none => trivial
    | some sector => exact hw
  have hmount : Prog.Triple (fun w : Vol => w.disk = v.disk) fat32Mount
      (fun _ w => w.disk = v.disk) (fun _ _ => True) fun _ => True := by
    unfold fat32Mount
    refine Prog.Triple.bind (R := fun _ w => w.disk = v.disk)
      (Prog.Triple.modify fun w hw => hw) fun _ => ?_
    refine Prog.Triple.bind (Prog.Triple.orElse (hread 0)) fun mbr => ?_
    apply Prog.Triple.ite (fun _ => Prog.Triple.fail fun _ _ => trivial)
    intro _
    apply Prog.Triple.ite (fun _ => Prog.Triple.fail fun _ _ => trivial)
    intro _
    refine Prog.Triple.bind (Prog.Triple.orElse (hread _)) fun bpb => ?_
    refine Prog.Triple.bind (R := fun _ w => w.disk = v.disk)
      (Prog.Triple.modify fun w hw => hw) fun _ => ?_
    apply Prog.Triple.ite (fun _ => Prog.Triple.fail fun _ _ => trivial)
    intro _
    apply Prog.Triple.ite (fun _ => Prog.Triple.fail fun _ _ => trivial)
    exact fun _ => Prog.Triple.pure fun _ hw => hw
  exact hmount.ok rfl h

/-- Deleted slots change nothing. -/
theorem loop_deleted {β : Type} (cb : DirHit → β → CbRet × β) (ctx : β) {slots : List DirSlot}
    (h : ∀ slot ∈ slots, slot.raw.isEnd = false ∧ slot.raw.isDeleted = true) :
    Flow.loop (iterSlot cb) slots (LfnState.init, ctx) = .next (LfnState.init, ctx) := by
  induction slots with
  | nil => rfl
  | cons slot rest ih =>
      obtain ⟨hend, hdel⟩ := h slot List.mem_cons_self
      have hstep : slotStep slot LfnState.init = .skip LfnState.init := by
        simp only [slotStep, hend, hdel, Bool.false_eq_true, ↓reduceIte]
        rfl
      rw [Flow.loop_cons, iterSlot, hstep]
      exact ih fun s hs => h s (List.mem_cons_of_mem slot hs)

/-- A cluster of deleted slots that is linked to itself is searched for ever. -/
theorem iterChain_endless {β : Type} {v : Vol} (cb : DirHit → β → CbRet × β) (ctx : β)
    {cluster : Nat} (hlt : cluster < fat32Eoc)
    (hread : (fat32ReadFatEntry cluster v).1 = .ok cluster)
    (hpass : ∀ base, iterCluster v cb cluster base (LfnState.init, ctx) =
      .next (LfnState.init, ctx)) (fuel base : Nat) :
    iterChain v cb fuel cluster base (LfnState.init, ctx) = none := by
  induction fuel generalizing base with
  | zero => rfl
  | succ fuel ih =>
      rw [iterChain, if_neg (Nat.not_le.mpr hlt), hpass]
      simp only [hread]
      exact ih _

/-- The traversal of a mounted volume need not end, and may leave the data area: the
FAT entry of the root directory leads back to it in the one case, to cluster 0 in the
other. -/
theorem chainTraversals_hostile :
    (¬ ∀ v₀ v, fat32Mount v₀ = (.ok (), v) →
      ∃ fuel rounds, (dirIsEmptyRounds v v.fs.rootCluster fuel rounds).isSome) ∧
      ¬ ∀ v₀ v, fat32Mount v₀ = (.ok (), v) → ∀ fuel rounds,
        ∀ c ∈ dirIsEmptyClusters v v.fs.rootCluster fuel rounds, v.InData c := by
  constructor
  · intro hall
    have hok : (fat32Mount (chainDisk 2)).1 = .ok () := by decide +kernel
    have hmount : fat32Mount (chainDisk 2) = (.ok (), (fat32Mount (chainDisk 2)).2) :=
      Prod.ext hok rfl
    have hroot : (fat32Mount (chainDisk 2)).2.fs.rootCluster = 2 := by decide +kernel
    have hspc : (fat32Mount (chainDisk 2)).2.fs.sectorsPerCluster = 1 := by decide +kernel
    have hlba : fat32ClusterToLba (fat32Mount (chainDisk 2)).2.fs 2 = 41 := by decide +kernel
    have hread : (fat32ReadFatEntry 2 (fat32Mount (chainDisk 2)).2).1 = .ok 2 := by
      decide +kernel
    have hdisk := fat32Mount_disk hmount
    generalize (fat32Mount (chainDisk 2)).2 = v at *
    obtain ⟨fuel, rounds, hsome⟩ := hall _ v hmount
    have hpass : ∀ base, iterCluster v (fat32ReaddirCb 0) 2 base (LfnState.init, 0, none) =
        .next (LfnState.init, 0, none) := by
      intro base
      have hsector : v.disk.read (41 + 0) = some fun _ => 0xE5 := by
        rw [hdisk]
        rfl
      unfold iterCluster
      rw [hspc, hlba]
      have hslots := @loop_deleted _ (fat32ReaddirCb 0) (0, none)
        (sectorSlots (u32 (41 + 0)) (base + 16 * 0) fun _ => 0xE5) fun slot hslot => by
          obtain ⟨i, _, rfl⟩ := List.mem_map.mp hslot
          exact ⟨rfl, rfl⟩
      simp only [List.range_one, Flow.loop_cons, hsector, hslots]
      rfl
    cases rounds with
    | zero => cases hsome
    | succ rounds =>
        rw [dirIsEmptyRounds_isSome, hroot, iterChain_endless _ _ (by decide) hread hpass] at hsome
        cases hsome
  · intro hall
    have hok : (fat32Mount (chainDisk 0)).1 = .ok () := by decide +kernel
    have hmount : fat32Mount (chainDisk 0) = (.ok (), (fat32Mount (chainDisk 0)).2) :=
      Prod.ext hok rfl
    have hmem : 0 ∈ dirIsEmptyClusters (fat32Mount (chainDisk 0)).2
        (fat32Mount (chainDisk 0)).2.fs.rootCluster 2 1 := by decide +kernel
    generalize (fat32Mount (chainDisk 0)).2 = v at *
    exact Vol.not_inData_zero (hall _ v hmount 2 1 0 hmem)

end Hostile

end OsAgentLab
