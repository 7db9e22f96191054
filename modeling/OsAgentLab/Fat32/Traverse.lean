/-
Which clusters the traversals of `fat32.c` touch: every loop along a FAT chain with
a record of the cluster numbers from which it computes sector addresses, for any
number of passes.
-/
import OsAgentLab.LinkWalk
import OsAgentLab.Triple
import OsAgentLab.Fat32.File

namespace OsAgentLab

section Loops

variable {β : Type}

/-- The clusters of the first `fuel` passes of `fat32_iter_dir`. -/
def iterClusters (v : Vol) (cb : DirHit → β → CbRet × β) :
    Nat → Nat → Nat → LfnState × β → List Nat
  | 0, _, _, _ => []
  | fuel + 1, cluster, base, state =>
      if fat32Eoc ≤ cluster then []
      else
        cluster :: match iterCluster v cb cluster base state with
          | .done _ => []
          | .next state' =>
              match (fat32ReadFatEntry cluster v).1 with
              | .ok next => iterClusters v cb fuel next (base + 16 * v.fs.sectorsPerCluster) state'
              | _ => []

/-- The `for (;;)` loop of `fat32_dir_is_empty` with at most `rounds` rounds, each with
at most `fuel` passes of `fat32_iter_dir`. -/
def dirIsEmptyRounds (v : Vol) (dirCluster fuel : Nat) : Nat → Option (Except Errno Bool)
  | 0 => none
  | rounds + 1 =>
      match iterChain v (fat32ReaddirCb 0) fuel dirCluster 0 (LfnState.init, 0, none) with
      | none => none
      | some (.stop, _) => some (.ok false)
      | some (.fail e, _) => some (.error e)
      | some (.goOn, ctx) =>
          if ctx.1 = 0 then some (.ok true) else dirIsEmptyRounds v dirCluster fuel rounds

/-- The clusters that these rounds touch. -/
def dirIsEmptyClusters (v : Vol) (dirCluster fuel : Nat) : Nat → List Nat
  | 0 => []
  | rounds + 1 =>
      iterClusters v (fat32ReaddirCb 0) fuel dirCluster 0 (LfnState.init, 0, none) ++
        match iterChain v (fat32ReaddirCb 0) fuel dirCluster 0 (LfnState.init, 0, none) with
        | some (.goOn, ctx) =>
            if ctx.1 = 0 then [] else dirIsEmptyClusters v dirCluster fuel rounds
        | _ => []

/-- The clusters of the search of `fat32_dir_find_free`. -/
def findFreeClusters (v : Vol) (needed : Nat) : Nat → Nat → Nat → FreeRun → List Nat
  | 0, _, _, _ => []
  | fuel + 1, cluster, base, run =>
      if fat32Eoc ≤ cluster then []
      else
        cluster :: match findFreeCluster v needed cluster base run with
          | .done _ => []
          | .next run' =>
              match (fat32ReadFatEntry cluster v).1 with
              | .ok next =>
                  findFreeClusters v needed fuel next (base + 16 * v.fs.sectorsPerCluster) run'
              | _ => []

/-- The clusters of the first loop of `fat32_ensure_chain`: it reads the entry of a
cluster only when more clusters are needed. -/
def ensureWalkClusters (v : Vol) : Nat → Nat → List Nat
  | 0, _ => []
  | missing + 1, cluster =>
      if cluster < fat32Eoc then
        if missing = 0 then []
        else
          cluster :: match (fat32ReadFatEntry cluster v).1 with
            | .ok next =>
                if fat32Eoc ≤ next then [] else ensureWalkClusters v missing next
            | _ => []
      else []

/-- The clusters of one pass of `fat32_alloc_cluster`. -/
def allocPassClusters : Nat → Nat → Vol → List Nat
  | 0, _, _ => []
  | count + 1, c, v =>
      c :: match fat32ReadFatEntry c v with
        | (.ok next, v') => if next = 0 then [] else allocPassClusters count (c + 1) v'
        | _ => []

/-- The clusters of `fat32_alloc_cluster`. -/
def allocClusters (v : Vol) : List Nat :=
  let maxCluster := u32 (v.fs.clusterCount + 1)
  let start :=
    if v.fs.allocHint < fat32MinCluster then fat32MinCluster else v.fs.allocHint
  let first := if maxCluster = 4294967295 then 4294967296 - start else maxCluster + 1 - start
  allocPassClusters first start v ++
    match fat32AllocPass first start v with
    | (.ok none, v') =>
        if maxCluster = 4294967295 then allocPassClusters 4294967296 0 v'
        else allocPassClusters (maxCluster + 1 - fat32MinCluster) fat32MinCluster v'
    | _ => []

/-- The clusters of the loops that append behind `last`. -/
def appendClusters (step needed : Nat) : Nat → Nat → Nat → Vol → List Nat
  | 0, _, _, _ => []
  | fuel + 1, last, count, v =>
      if count < needed then
        allocClusters v ++
          match fat32AllocCluster v with
          | (.ok fresh, v₁) =>
              last :: match fat32WriteFatEntry last fresh v₁ with
                | (.ok _, v₂) => appendClusters step needed fuel fresh (count + step) v₂
                | _ => []
          | _ => []
      else []

/-- `fat32_dir_find_free` with at most `fuel` passes of its search. -/
def findFreeWithin (fuel dirCluster needed : Nat) : Fs Nat := fun v =>
  match findFreeChain v needed fuel dirCluster dirCluster 0 ⟨0, 0⟩ with
  | none => (.diverges, v)
  | some (.done (.ok index)) => (.ok index, v)
  | some (.done (.error e)) => (.err e, v)
  | some (.next stop) =>
      let entriesPerCluster := u32 (v.fs.sectorsPerCluster * v.fs.bytesPerSector) / 32
      let start := if stop.run.len = 0 then stop.entryIndex else stop.run.start
      (do
        fat32Append entriesPerCluster needed (needed - stop.run.len) stop.last stop.run.len
        pure start : Fs Nat) v

theorem fat32DirFindFree_within (dirCluster needed : Nat) :
    fat32DirFindFree dirCluster needed = findFreeWithin (fat32Eoc + 1) dirCluster needed := rfl

/-- The clusters that it touches. -/
def findFreeTouched (v : Vol) (dirCluster needed fuel : Nat) : List Nat :=
  findFreeClusters v needed fuel dirCluster 0 ⟨0, 0⟩ ++
    match findFreeChain v needed fuel dirCluster dirCluster 0 ⟨0, 0⟩ with
    | some (.next stop) =>
        appendClusters (u32 (v.fs.sectorsPerCluster * v.fs.bytesPerSector) / 32) needed
          (needed - stop.run.len) stop.last stop.run.len v
    | _ => []

/-- The clusters of `fat32_ensure_chain` behind its start. -/
def ensureRestTouched (v : Vol) (cluster needed : Nat) : List Nat :=
  if needed = 0 then []
  else
    ensureWalkClusters v needed cluster ++
      match fat32EnsureWalk needed cluster 0 v with
      | (.ok (last, missing), v') => appendClusters 1 needed missing last (needed - missing) v'
      | _ => []

/-- The clusters of `fat32_ensure_chain`. -/
def ensureTouched (v : Vol) (start needed : Nat) : List Nat :=
  if needed = 0 then []
  else if start = 0 then
    allocClusters v ++
      match fat32AllocCluster v with
      | (.ok fresh, v₁) => ensureRestTouched v₁ fresh needed
      | _ => []
  else ensureRestTouched v start needed

/-- `fat32_ensure_chain` on the volume, with the start cluster of its caller. -/
def ensureChainFrom (start needed : Nat) : Fs Unit := do
  let cluster ← fat32EnsureStart start needed
  fat32EnsureRest cluster needed

theorem fat32EnsureChain_from (n needed : Nat) (k : Kernel) :
    (fat32EnsureChain n needed k).1 =
      (ensureChainFrom (k.fatNodes.slot n).cluster needed k.vol).1 := by
  rw [fat32EnsureChain, Prog.get_bind, ensureChainFrom]
  simp only [bind, onVol, Prog.zoom, Prog.modify]
  rcases fat32EnsureStart (k.fatNodes.slot n).cluster needed k.vol with ⟨r, v⟩
  cases r with
  | ok start =>
      simp only [Kernel.setFatNode]
  | err e => rfl
  | fault => rfl
  | diverges => rfl

end Loops

end OsAgentLab
