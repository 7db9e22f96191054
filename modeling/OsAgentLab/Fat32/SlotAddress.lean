/-
Slot addresses: where `fat32_iter_dir` finds a slot, `fat32_dir_entry_location` finds it again
from its index, and the index of `fat32_dir_find_free` leads to free slots.  The device may fail
to serve sectors.
-/
import OsAgentLab.Lifting
import OsAgentLab.Fat32.OneFile

namespace OsAgentLab

open Prog

variable {v v' : Vol} {c : Nat} {l : List Nat}

section Online

/-- The volume on a device that serves every sector. -/
def Vol.online (v : Vol) : Vol := { v with disk := { v.disk with served := fun _ => true } }

theorem Geometry.online (g : Geometry v) : Geometry v.online :=
  ⟨g.bytes, g.spc_pos, g.spc_lt, g.fats_pos, g.fat_pos, g.fat_fits, g.fat_below, g.count_lt,
    g.end_le, fun _ _ _ => rfl⟩

theorem Disk.read_sectors {disk : Disk} {lba : Nat} {sector : Sector}
    (h : disk.read lba = some sector) : disk.sectors lba = sector := by
  rw [Disk.read] at h
  split at h
  · exact Option.some.inj h
  · cases h

theorem Vol.online_read (v : Vol) (lba : Nat) :
    v.online.disk.read lba = some (v.disk.sectors lba) := rfl

theorem blkRead_ok {lba : Nat} {sector : Sector} (h : blkRead lba v = (.ok sector, v')) :
    v.disk.read lba = some sector ∧ v' = v := by
  rw [blkRead] at h
  cases hread : v.disk.read lba with
  | none =>
      rw [hread] at h
      cases (Prod.mk.inj h).1
  | some found =>
      rw [hread] at h
      obtain ⟨hfound, rfl⟩ := Prod.mk.inj h
      exact ⟨congrArg some (Outcome.ok.inj hfound), rfl⟩

theorem lifts_getFs : Lifts Vol.online getFs := by
  intro v a v' h
  obtain ⟨ha, rfl⟩ := Prod.mk.inj h
  exact Prod.ext ha rfl

theorem lifts_blkRead (lba : Nat) : Lifts Vol.online (blkRead lba) := by
  intro v sector v' h
  obtain ⟨hread, rfl⟩ := blkRead_ok h
  rw [blkRead, Vol.online_read, Disk.read_sectors hread]

theorem lifts_blkWrite (lba : Nat) (sector : Sector) : Lifts Vol.online (blkWrite lba sector) := by
  intro v a v' h
  by_cases hserved : v.disk.served lba = true
  · simp only [blkWrite, Disk.write, hserved, if_true] at h
    obtain ⟨-, rfl⟩ := Prod.mk.inj h
    rfl
  · simp only [blkWrite, Disk.write, hserved] at h
    cases (Prod.mk.inj h).1

theorem lifts_readFatEntry (cluster : Nat) : Lifts Vol.online (fat32ReadFatEntry cluster) := by
  refine lifts_getFs.bind fun fs => Lifts.ite (Lifts.fail _) ?_
  exact ((lifts_blkRead _).orElse _).bind fun sector => Lifts.ite (Lifts.fail _) (Lifts.pure _)

theorem lifts_writeFatEntry (cluster value : Nat) :
    Lifts Vol.online (fat32WriteFatEntry cluster value) := by
  refine lifts_getFs.bind fun fs => Lifts.ite (Lifts.fail _) (Lifts.forCount (fun fat => ?_) _ _)
  exact ((lifts_blkRead _).orElse _).bind fun sector => (lifts_blkWrite _ _).orElse _

theorem lifts_zeroCluster (cluster : Nat) : Lifts Vol.online (fat32ZeroCluster cluster) :=
  lifts_getFs.bind fun _ => Lifts.forCount (fun _ => (lifts_blkWrite _ _).orElse _) _ _

theorem lifts_allocPass (count cluster : Nat) :
    Lifts Vol.online (fat32AllocPass count cluster) := by
  induction count generalizing cluster with
  | zero => exact Lifts.pure _
  | succ count ih =>
      refine ((lifts_readFatEntry cluster).orElse _).bind fun next => Lifts.ite ?_ (ih _)
      refine ((lifts_writeFatEntry _ _).orElse _).bind fun _ => ?_
      refine ((lifts_zeroCluster _).orElse _).bind fun _ => ?_
      refine Lifts.bind ?_ fun _ => Lifts.pure _
      exact Lifts.modify fun _ => rfl

theorem lifts_allocCluster : Lifts Vol.online fat32AllocCluster := by
  refine lifts_getFs.bind fun fs => Lifts.ite ?_ ?_
  · refine (lifts_allocPass _ _).bind fun found => ?_
    cases found with
    | some c => exact Lifts.pure c
    | none =>
        refine (lifts_allocPass _ _).bind fun found => ?_
        cases found with
        | some c => exact Lifts.pure c
        | none => exact Lifts.hang
  · refine (lifts_allocPass _ _).bind fun found => ?_
    cases found with
    | some c => exact Lifts.pure c
    | none =>
        refine (lifts_allocPass _ _).bind fun found => ?_
        cases found with
        | some c => exact Lifts.pure c
        | none => exact Lifts.fail _

theorem lifts_append (step needed fuel last count : Nat) :
    Lifts Vol.online (fat32Append step needed fuel last count) := by
  induction fuel generalizing last count with
  | zero => exact Lifts.pure _
  | succ fuel ih =>
      refine Lifts.ite ?_ (Lifts.pure _)
      refine (lifts_allocCluster.orElse _).bind fun fresh => ?_
      exact ((lifts_writeFatEntry _ _).orElse _).bind fun _ => ih _ _

theorem lifts_getClusterAt (start index : Nat) :
    Lifts Vol.online (fat32GetClusterAt start index) := by
  induction index generalizing start with
  | zero => exact Lifts.ite (Lifts.fail _) (Lifts.pure _)
  | succ index ih =>
      exact Lifts.ite (Lifts.fail _) (((lifts_readFatEntry start).orElse _).bind fun next => ih next)

theorem lifts_dirEntryLocation (dirCluster entryIndex : Nat) :
    Lifts Vol.online (fat32DirEntryLocation dirCluster entryIndex) := by
  refine lifts_getFs.bind fun fs => ?_
  exact ((lifts_getClusterAt _ _).orElse _).bind fun cluster => Lifts.pure _

/-- A search in one cluster that does not fail finds the same on the device that serves every
sector. -/
theorem findFreeCluster_online {needed cluster base : Nat} {run : FreeRun}
    (hok : ∀ e, findFreeCluster v needed cluster base run ≠ .done (.error e)) :
    findFreeCluster v.online needed cluster base run = findFreeCluster v needed cluster base run := by
  refine @Flow.loop_eq_unless _ _ _ _ _ (fun r => ∃ e, r = .error e) (fun s run hgood => ?_) _ run ?_
  · dsimp only at hgood ⊢
    rw [Vol.online_read]
    cases hread : v.disk.read (u32 (fat32ClusterToLba v.fs cluster + s)) with
    | none =>
        rw [hread] at hgood
        exact absurd ⟨_, rfl⟩ (hgood _ rfl)
    | some sector => rw [← Disk.read_sectors hread]; rfl
  · rintro r hr ⟨e, rfl⟩
    exact hok e hr

theorem findFreeChain_online {needed fuel cluster last base : Nat} {run : FreeRun}
    {out : Flow FindFreeEnd (Except Errno Nat)}
    (h : findFreeChain v needed fuel cluster last base run = some out)
    (hok : ∀ e, out ≠ .done (.error e)) :
    findFreeChain v.online needed fuel cluster last base run = some out := by
  induction fuel generalizing cluster last base run with
  | zero => cases h
  | succ fuel ih =>
      rw [findFreeChain] at h ⊢
      by_cases heoc : fat32Eoc ≤ cluster
      · rw [if_pos heoc] at h ⊢
        exact h
      · rw [if_neg heoc] at h ⊢
        have hcluster : ∀ e, findFreeCluster v needed cluster base run ≠ .done (.error e) := by
          intro e he
          rw [he] at h
          exact hok e (Option.some.inj h).symm
        rw [findFreeCluster_online hcluster]
        cases hflow : findFreeCluster v needed cluster base run with
        | done result =>
            rw [hflow] at h
            exact h
        | next run' =>
            rw [hflow] at h
            dsimp only at h ⊢
            rcases hread : fat32ReadFatEntry cluster v with ⟨ret, v'⟩
            rw [hread] at h
            cases ret with
            | ok next =>
                rw [lifts_readFatEntry cluster v next v' hread]
                exact ih h
            | err e => exact absurd (Option.some.inj h).symm (hok _)
            | fault => exact absurd (Option.some.inj h).symm (hok _)
            | diverges => exact absurd (Option.some.inj h).symm (hok _)

theorem lifts_dirFindFree (dirCluster needed : Nat) :
    Lifts Vol.online (fat32DirFindFree dirCluster needed) := by
  intro v start v' h
  rw [fat32DirFindFree] at h ⊢
  cases hchain : findFreeChain v needed (fat32Eoc + 1) dirCluster dirCluster 0 ⟨0, 0⟩ with
  | none =>
      rw [hchain] at h
      cases (Prod.mk.inj h).1
  | some out =>
      rw [hchain] at h
      cases out with
      | next stop =>
          rw [findFreeChain_online hchain fun e he => by cases he]
          exact ((lifts_append _ _ _ _ _).bind fun _ => Lifts.pure _) v start v' h
      | done result =>
          cases result with
          | error e => cases (Prod.mk.inj h).1
          | ok index =>
              rw [findFreeChain_online hchain fun e he => by cases he]
              obtain ⟨hindex, rfl⟩ := Prod.mk.inj h
              exact Prod.ext hindex rfl

end Online

section Iteration

variable {β : Type} {x k : Nat}

/-- The slot of a callback call is found again from its index. -/
def Located (v : Vol) (c : Nat) (hit : DirHit) : Prop :=
  fat32DirEntryLocation c hit.entryIndex v = (.ok (hit.direntLba, hit.direntOff), v)

theorem fat32ReadFatEntry_state (x : Nat) (v : Vol) : (fat32ReadFatEntry x v).2 = v := by
  rw [fat32ReadFatEntry, Prog.bind_ok (show getFs v = (.ok v.fs, v) from rfl)]
  by_cases hbytes : v.fs.bytesPerSector ≠ 512
  · rw [if_pos hbytes]
    rfl
  · rw [if_neg hbytes]
    cases hread : v.disk.read (u32 (v.fs.fatLba + u32 (x * 4) / v.fs.bytesPerSector)) with
    | none =>
        have hrun : Prog.orElse (blkRead (u32 (v.fs.fatLba + u32 (x * 4) / v.fs.bytesPerSector)))
            .io v = (.err .io, v) := Prog.orElse_err (by rw [blkRead, hread]) _
        rw [Prog.bind_err hrun]
    | some sector =>
        have hrun : Prog.orElse (blkRead (u32 (v.fs.fatLba + u32 (x * 4) / v.fs.bytesPerSector)))
            .io v = (.ok sector, v) := Prog.orElse_ok (by rw [blkRead, hread]) _
        rw [Prog.bind_ok hrun]
        by_cases hfit : 512 < u32 (x * 4) % v.fs.bytesPerSector + 4
        · rw [if_pos hfit]
          rfl
        · rw [if_neg hfit]
          rfl

/-- The entry that is read is the successor in the store. -/
theorem fat32ReadFatEntry_next (g : Geometry v.online) (hx : x ≤ v.maxCluster) {y : Nat}
    (h : (fat32ReadFatEntry x v).1 = .ok y) : y = v.store.next x := by
  have hrun : fat32ReadFatEntry x v = (.ok y, v) := Prod.ext h (fat32ReadFatEntry_state x v)
  have honline := lifts_readFatEntry x v y v hrun
  rw [fat32ReadFatEntry_eq g hx] at honline
  exact (Outcome.ok.inj (Prod.mk.inj honline).1).symm

/-- One link more. -/
theorem fat32GetClusterAt_succ (hget : fat32GetClusterAt c k v = (.ok x, v)) {y : Nat}
    (hread : fat32ReadFatEntry x v = (.ok y, v)) (hy : 2 ≤ y ∧ y < fat32Eoc) :
    fat32GetClusterAt c (k + 1) v = (.ok y, v) := by
  have hlast : fat32GetClusterAt y 0 v = (.ok y, v) := by
    rw [fat32GetClusterAt, if_neg (by rw [fat32MinCluster]; omega)]
    rfl
  induction k generalizing c with
  | zero =>
      rw [fat32GetClusterAt] at hget
      rw [fat32GetClusterAt]
      by_cases hout : c < fat32MinCluster ∨ fat32Eoc ≤ c
      · rw [if_pos hout] at hget
        cases (Prod.mk.inj hget).1
      · rw [if_neg hout] at hget ⊢
        obtain rfl : c = x := Outcome.ok.inj (Prod.mk.inj hget).1
        rw [Prog.bind_ok (Prog.orElse_ok hread _)]
        exact hlast
  | succ k ih =>
      rw [fat32GetClusterAt] at hget
      rw [fat32GetClusterAt]
      by_cases hout : c < fat32MinCluster ∨ fat32Eoc ≤ c
      · rw [if_pos hout] at hget
        cases (Prod.mk.inj hget).1
      · rw [if_neg hout] at hget ⊢
        obtain ⟨n, v₁, hfirst, hrest⟩ := Prog.of_bind_ok hget
        have hstate := fat32ReadFatEntry_state c v
        rw [Prog.of_orElse_ok hfirst] at hstate
        obtain rfl : v₁ = v := hstate
        rw [Prog.bind_ok hfirst]
        exact ih hrest

theorem iterSlot_noted (cb : DirHit → β → CbRet × β) {slot : DirSlot}
    (hslot : fat32DirEntryLocation c slot.index v = (.ok (slot.lba, slot.off), v))
    {s : LfnState × (β × List DirHit)} (hs : ∀ hit ∈ s.2.2, Located v c hit) :
    (iterSlot (noted cb) slot s).Ends (fun s => ∀ hit ∈ s.2.2, Located v c hit)
      (fun r => ∀ hit ∈ r.2.2, Located v c hit) := by
  obtain ⟨st, ctx, log⟩ := s
  rw [iterSlot]
  cases hstep : slotStep slot st with
  | endMark => exact hs
  | skip st' => exact hs
  | entry hit st' =>
      have hlog : ∀ h ∈ log ++ [hit], Located v c h := by
        intro h hmem
        rcases List.mem_append.1 hmem with hold | hnew
        · exact hs h hold
        · rw [List.mem_singleton.1 hnew, slotStep_hit hstep]
          exact hslot
      dsimp only [noted]
      cases (cb hit ctx).1 with
      | goOn => exact hlog
      | stop => exact hlog
      | fail e => exact hlog

theorem iterCluster_noted (hbytes : v.fs.bytesPerSector = 512)
    (hspc : v.fs.sectorsPerCluster < 256) (cb : DirHit → β → CbRet × β)
    (hget : fat32GetClusterAt c k v = (.ok x, v)) (hk : k < 4294967296)
    {s : LfnState × (β × List DirHit)} (hs : ∀ hit ∈ s.2.2, Located v c hit) :
    (iterCluster v (noted cb) x (k * v.slotsPerCluster) s).Ends
      (fun s => ∀ hit ∈ s.2.2, Located v c hit) (fun r => ∀ hit ∈ r.2.2, Located v c hit) := by
  refine Flow.loop_ends_of_mem (fun sec hsec state hstate => ?_) hs
  have hseclt := List.mem_range.1 hsec
  dsimp only
  cases v.disk.read (fat32ClusterToLba v.fs x + sec) with
  | none => exact hstate
  | some sector =>
      refine Flow.loop_ends_of_mem (fun slot hslot mid hmid => iterSlot_noted cb ?_ hmid) hstate
      obtain ⟨i, hi, rfl⟩ := List.mem_map.1 hslot
      have hilt := List.mem_range.1 hi
      have hloc := @fat32DirEntryLocation_cluster v c hbytes hspc k (16 * sec + i) x hget hk
        (by rw [Vol.slotsPerCluster]; omega)
      rw [show (16 * sec + i) / 16 = sec by omega, show (16 * sec + i) % 16 = i by omega,
        ← Nat.add_assoc] at hloc
      exact hloc

/-- Along a chain every call of the callback is located. -/
theorem iterChain_noted (g : Geometry v.online) (cb : DirHit → β → CbRet × β)
    (hchain : v.Chain x l) (hget : fat32GetClusterAt c k v = (.ok x, v))
    (hk : k + l.length ≤ 4294967296) {fuel : Nat} (hfuel : l.length < fuel)
    {s : LfnState × (β × List DirHit)} (hs : ∀ hit ∈ s.2.2, Located v c hit) :
    ∃ r, iterChain v (noted cb) fuel x (k * v.slotsPerCluster) s = some r ∧
      ∀ hit ∈ r.2.2, Located v c hit := by
  induction l generalizing x k fuel s with
  | nil => exact absurd rfl (IsChain.ne_nil hchain)
  | cons head rest ih =>
      obtain ⟨tail, htail⟩ := IsChain.head_eq hchain
      obtain ⟨rfl, rfl⟩ := List.cons.inj htail
      have hx := IsChain.head_node hchain
      rw [List.length_cons] at hk hfuel
      cases fuel with
      | zero => omega
      | succ fuel =>
          have hbytes : v.fs.bytesPerSector = 512 := g.bytes
          have hspc : v.fs.sectorsPerCluster < 256 := g.spc_lt
          have hcluster := iterCluster_noted hbytes hspc cb hget (by omega) hs
          rw [iterChain, if_neg (Nat.not_le_of_lt (g.inData_lt_eoc hx))]
          cases hflow : iterCluster v (noted cb) head (k * v.slotsPerCluster) s with
          | done r =>
              rw [hflow] at hcluster
              exact ⟨r, rfl, hcluster⟩
          | next s' =>
              rw [hflow] at hcluster
              dsimp only
              cases hread : (fat32ReadFatEntry head v).1 with
              | ok y =>
                  have hnext := fat32ReadFatEntry_next g hx.2 hread
                  have hrun : fat32ReadFatEntry head v = (.ok y, v) :=
                    Prod.ext hread (fat32ReadFatEntry_state head v)
                  have hbase : k * v.slotsPerCluster + 16 * v.fs.sectorsPerCluster =
                      (k + 1) * v.slotsPerCluster := (Nat.succ_mul k _).symm
                  dsimp only
                  rw [hbase]
                  by_cases hrest : rest = []
                  · subst hrest
                    have hend : fat32Eoc ≤ v.store.next head := by
                      have hlast := IsChain.next_getLast hchain
                      simpa using hlast
                    cases fuel with
                    | zero => omega
                    | succ fuel =>
                        rw [iterChain, if_pos (hnext ▸ hend)]
                        exact ⟨_, rfl, hcluster⟩
                  · have hchain' := IsChain.rest_chain hchain hrest
                    rw [← hnext] at hchain'
                    have hy := IsChain.head_node hchain'
                    have hget' := fat32GetClusterAt_succ hget hrun ⟨hy.1, g.inData_lt_eoc hy⟩
                    exact ih hchain' hget' (by omega) (by omega) hcluster
              | err e => exact ⟨_, rfl, hcluster⟩
              | fault => exact ⟨_, rfl, hcluster⟩
              | diverges => exact ⟨_, rfl, hcluster⟩

end Iteration

section Agreement

/-- The slot `i` of the directory, which had the clusters `l` and got the clusters `ext`, lies in
a new cluster, or it existed and was free. -/
def Vacant (v : Vol) (l ext : List Nat) (i : Nat) : Prop :=
  ∃ x, (l ++ ext)[i / v.slotsPerCluster]? = some x ∧
    (x ∈ ext ∨ x ∈ l ∧ (v.rawIn x (i % v.slotsPerCluster)).isFree = true)

/-- Free slots in a row on the grown chain are vacant. -/
theorem FreePlace.vacant {w : Vol} {ext : List Nat} {needed start : Nat}
    {left free right : List RawDirent}
    (h : FreePlace (w.raws (l ++ ext)) needed start left free right)
    (hper : w.slotsPerCluster = v.slotsPerCluster)
    (hdata : ∀ x ∈ l, x ∉ ext → w.store.data x = v.store.data x) {i : Nat} (hle : start ≤ i)
    (hlt : i < start + needed) : Vacant v l ext i := by
  have hstart := h.start
  have hlen := h.len
  have hraw : (w.raws (l ++ ext))[i]? = free[i - start]? := by
    rw [h.split, List.append_assoc, List.getElem?_append_right (by omega),
      List.getElem?_append_left (by omega), hstart]
  have hi : i < (w.raws (l ++ ext)).length := by
    rw [h.split, List.length_append, List.length_append]
    omega
  have hcluster : i / w.slotsPerCluster < (l ++ ext).length := by
    rw [Vol.raws_length] at hi
    exact Nat.div_lt_of_lt_mul (by rwa [Nat.mul_comm] at hi)
  rw [Vol.raws_getElem? w _ hi, List.getD_eq_getElem _ _ hcluster] at hraw
  have hfree := h.allFree _ (List.mem_of_getElem? hraw.symm)
  have hget := List.getElem?_eq_getElem hcluster
  have hmem := List.getElem_mem hcluster
  generalize (l ++ ext)[i / w.slotsPerCluster] = x at hfree hget hmem
  rw [hper] at hfree hget
  refine ⟨x, hget, ?_⟩
  by_cases hext : x ∈ ext
  · exact Or.inl hext
  · have hold := (List.mem_append.1 hmem).resolve_right hext
    rw [Vol.rawIn, hdata x hold hext] at hfree
    exact Or.inr ⟨hold, hfree⟩

/-- The slots that `fat32_dir_find_free` delivers are vacant, on the grown chain. -/
theorem fat32DirFindFree_vacant (g : Geometry v.online) (h : v.Chain c l) {needed start : Nat}
    (hneeded : 0 < needed) (hrun : fat32DirFindFree c needed v = (.ok start, v')) :
    ∃ ext, v'.Chain c (l ++ ext) ∧ (∀ x ∈ ext, v.Free x) ∧
      ∀ i, start ≤ i → i < start + needed → Vacant v l ext i := by
  have honline := lifts_dirFindFree c needed v start v' hrun
  have hchain : v.online.Chain c l := h
  have hsame : ∀ {w : Vol} {m : List Nat}, v'.online = w → w.Chain c m → v'.Chain c m := by
    rintro w m rfl hm
    exact hm
  rcases fat32DirFindFree_spec g hchain hneeded with ⟨start', left, free, right, hfound, hplace⟩ |
    ⟨trailing, ext, w, -, hgrown, ⟨start', left, free, right, hfound, hplace, -⟩ | ⟨hfull, -⟩⟩
  · rw [honline] at hfound
    obtain ⟨hstart, hvol⟩ := Prod.mk.inj hfound
    obtain rfl := Outcome.ok.inj hstart
    rw [← List.append_nil l] at hchain hplace
    refine ⟨[], hsame hvol hchain, fun x hx => absurd hx List.not_mem_nil, fun i hle hlt => ?_⟩
    exact hplace.vacant rfl (fun x _ _ => rfl) hle hlt
  · rw [honline] at hfound
    obtain ⟨hstart, hvol⟩ := Prod.mk.inj hfound
    obtain rfl := Outcome.ok.inj hstart
    have hc : c ≠ 0 := by
      have hmin := (IsChain.head_node h).1
      omega
    refine ⟨ext, hsame hvol (hgrown.holds.chain_of_ne_zero hc), hgrown.free, fun i hle hlt => ?_⟩
    refine hplace.vacant hgrown.shape.slotsPerCluster (fun x _ hx => ?_) hle hlt
    exact hgrown.store_data_of_not_mem hx
  · rw [honline] at hfull
    cases (Prod.mk.inj hfull).1

/-- Where the callback of `fat32_iter_dir` is told that a slot lies, `fat32_dir_entry_location`
finds it from its index; and `fat32_dir_find_free` leads to vacant slots. -/
theorem dirSlots_agree (g : Geometry v.online) (h : v.Chain c l) :
    (∀ (β : Type) (cb : DirHit → β → CbRet × β) (ctx : β),
      ∃ r, fat32IterDir v c (noted cb) (ctx, []) = some r ∧ ∀ hit ∈ r.2.2,
        fat32DirEntryLocation c hit.entryIndex v = (.ok (hit.direntLba, hit.direntOff), v)) ∧
    ∀ needed start v', 0 < needed → fat32DirFindFree c needed v = (.ok start, v') →
      ∃ ext, v'.Chain c (l ++ ext) ∧ (∀ x ∈ ext, v.Free x) ∧
        ∀ i, start ≤ i → i < start + needed → Vacant v l ext i := by
  have hle : l.length ≤ v.fs.clusterCount := g.chain_length_le h
  have hcount : v.fs.clusterCount + 1 < 0x0FFFFFF7 := g.count_lt
  have hc := IsChain.head_node h
  have hget : fat32GetClusterAt c 0 v = (.ok c, v) := by
    have hlt := g.inData_lt_eoc hc
    have hmin := hc.1
    rw [fat32GetClusterAt, if_neg (by rw [fat32MinCluster]; omega)]
    rfl
  constructor
  · intro β cb ctx
    have hfuel : l.length < fat32Eoc + 1 := by
      rw [fat32Eoc]
      omega
    have hnone : ∀ hit ∈ ([] : List DirHit), Located v c hit :=
      fun hit hmem => absurd hmem List.not_mem_nil
    have hiter := @iterChain_noted v c l β c 0 g cb h hget (by omega) (fat32Eoc + 1) hfuel
      (LfnState.init, (ctx, [])) hnone
    rw [Nat.zero_mul] at hiter
    exact hiter
  · intro needed start v' hneeded hrun
    exact fat32DirFindFree_vacant g h hneeded hrun

/-- The file in the first slot of a root directory. -/
theorem dirSlots_agree_oneFile :
    ∃ r, fat32IterDir (oneVol (endTable 2) (oneRaw 0 0)) 2
        (noted fun _ ctx => (.goOn, ctx)) ((), []) = some r ∧
      ∀ hit ∈ r.2.2,
        fat32DirEntryLocation 2 hit.entryIndex (oneVol (endTable 2) (oneRaw 0 0)) =
          (.ok (hit.direntLba, hit.direntOff), oneVol (endTable 2) (oneRaw 0 0)) :=
  (dirSlots_agree (oneVol_geometry (Nat.le_refl 2)).online (oneVol_root (Nat.le_refl 2))).1
    Unit (fun _ ctx => (.goOn, ctx)) ()

end Agreement

end OsAgentLab
