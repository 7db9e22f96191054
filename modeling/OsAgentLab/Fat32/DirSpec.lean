/-
Directories on a volume: the slots of a cluster chain as one list, and what
the directory functions read from it and write to it.
-/
import OsAgentLab.Fat32.Growth
import OsAgentLab.Fat32.Listing

namespace OsAgentLab

namespace Vol

variable (v : Vol)

/-- Directory slots in one cluster. -/
def slotsPerCluster : Nat := 16 * v.fs.sectorsPerCluster

/-- The `i`-th slot of the cluster `c`. -/
def rawIn (c i : Nat) : RawDirent := rawAt (v.store.data c) (32 * i)

/-- The slots of the cluster `c`. -/
def clusterRaws (c : Nat) : List RawDirent := (List.range v.slotsPerCluster).map (v.rawIn c)

/-- The slots of the clusters `l`, one cluster after the other. -/
def raws (l : List Nat) : List RawDirent := l.flatMap v.clusterRaws

/-- Sector address and offset of the `i`-th slot of the clusters `l`. -/
def place (l : List Nat) (i : Nat) : Nat × Nat :=
  (v.sectorLba (l.getD (i / v.slotsPerCluster) 0) (i % v.slotsPerCluster / 16),
    32 * (i % v.slotsPerCluster % 16))

/-- The entries of the directory with the clusters `l`. -/
def listing (l : List Nat) : List DirHit := hitsFrom (v.place l) LfnState.init 0 (v.raws l)

@[simp] theorem clusterRaws_length (c : Nat) :
    (v.clusterRaws c).length = v.slotsPerCluster := by
  simp [clusterRaws]

@[simp] theorem raws_nil : v.raws [] = [] := rfl

theorem raws_cons (c : Nat) (l : List Nat) : v.raws (c :: l) = v.clusterRaws c ++ v.raws l :=
  List.flatMap_cons

theorem raws_append (l m : List Nat) : v.raws (l ++ m) = v.raws l ++ v.raws m :=
  List.flatMap_append

theorem raws_length (l : List Nat) : (v.raws l).length = l.length * v.slotsPerCluster := by
  induction l with
  | nil => simp
  | cons c rest ih => rw [raws_cons, List.length_append, ih, clusterRaws_length,
      List.length_cons, Nat.succ_mul, Nat.add_comm]

/-- The slot with a given index lies in one cluster of the chain. -/
theorem raws_getElem? (l : List Nat) {i : Nat} (hi : i < (v.raws l).length) :
    (v.raws l)[i]? =
      some (v.rawIn (l.getD (i / v.slotsPerCluster) 0) (i % v.slotsPerCluster)) := by
  induction l generalizing i with
  | nil => simp at hi
  | cons c rest ih =>
      have hpos : 0 < v.slotsPerCluster := by
        rw [raws_length] at hi
        exact Nat.pos_of_ne_zero fun h => by simp [h] at hi
      rw [raws_cons] at hi ⊢
      by_cases hlt : i < v.slotsPerCluster
      · rw [List.getElem?_append_left (by rw [clusterRaws_length]; exact hlt),
          Nat.div_eq_of_lt hlt, Nat.mod_eq_of_lt hlt]
        simp [clusterRaws, hlt]
      · rw [List.length_append, clusterRaws_length] at hi
        obtain ⟨j, rfl⟩ := Nat.exists_eq_add_of_le (Nat.le_of_not_lt hlt)
        rw [List.getElem?_append_right (by rw [clusterRaws_length]; omega), clusterRaws_length,
          Nat.add_sub_cancel_left, ih (by omega), Nat.add_mod_left, Nat.add_comm v.slotsPerCluster,
          Nat.add_div_right j hpos, List.getD_cons_succ]

end Vol

variable {v v' : Vol}

theorem SameShape.slotsPerCluster (h : SameShape v v') :
    v'.slotsPerCluster = v.slotsPerCluster := by
  rw [Vol.slotsPerCluster, Vol.slotsPerCluster, h.spc]

theorem SameShape.place (h : SameShape v v') (l : List Nat) : v'.place l = v.place l := by
  funext i
  rw [Vol.place, Vol.place, h.slotsPerCluster, h.sectorLba]

theorem SameShape.clusterRaws (h : SameShape v v') {c : Nat}
    (hdata : v'.store.data c = v.store.data c) : v'.clusterRaws c = v.clusterRaws c := by
  rw [Vol.clusterRaws, Vol.clusterRaws, h.slotsPerCluster]
  refine List.map_congr_left fun i _ => ?_
  rw [Vol.rawIn, Vol.rawIn, hdata]

theorem SameShape.raws (h : SameShape v v') {l : List Nat}
    (hdata : ∀ x ∈ l, v'.store.data x = v.store.data x) : v'.raws l = v.raws l :=
  List.flatMap_congr fun x hx => h.clusterRaws (hdata x hx)

theorem SameShape.listing (h : SameShape v v') {l : List Nat}
    (hdata : ∀ x ∈ l, v'.store.data x = v.store.data x) : v'.listing l = v.listing l := by
  rw [Vol.listing, Vol.listing, h.place, h.raws hdata]

/-- The addresses of the slots of a chain do not depend on what follows it. -/
theorem Vol.place_append (v : Vol) (l ext : List Nat) {i : Nat} (hi : i < (v.raws l).length) :
    v.place (l ++ ext) i = v.place l i := by
  rw [Vol.raws_length] at hi
  have hdiv : i / v.slotsPerCluster < l.length :=
    Nat.div_lt_of_lt_mul (by rwa [Nat.mul_comm] at hi)
  rw [Vol.place, Vol.place, List.getD_append _ _ _ _ hdiv]

/-- The slots of a cleared cluster are end marks. -/
theorem Vol.clusterRaws_zero {c : Nat} (h : v.store.data c = fun _ => 0) :
    ∀ raw ∈ v.clusterRaws c, raw.isEnd = true := by
  intro raw hraw
  simp only [Vol.clusterRaws, List.mem_map] at hraw
  obtain ⟨i, _, rfl⟩ := hraw
  simp [RawDirent.isEnd, Vol.rawIn, rawAt, h]

section Slots

/-- Slot `i` of the cluster `c` as the loops over a directory see it. -/
def Vol.slotOf (v : Vol) (c base i : Nat) : DirSlot :=
  ⟨v.rawIn c i, v.sectorLba c (i / 16), 32 * (i % 16), base + i⟩

theorem slotsFrom_range (place : Nat → Nat × Nat) (base count : Nat) (f : Nat → RawDirent) :
    slotsFrom place base ((List.range count).map f) =
      (List.range count).map fun i => ⟨f i, (place (base + i)).1, (place (base + i)).2, base + i⟩ := by
  induction count with
  | zero => rfl
  | succ count ih =>
      rw [List.range_succ, List.map_append, slotsFrom_append, ih, List.map_append]
      simp [slotsFrom]

theorem range_mul_flatMap {α : Type} (n count : Nat) (f : Nat → α) :
    ((List.range count).flatMap fun s => (List.range n).map fun i => f (n * s + i)) =
      (List.range (n * count)).map f := by
  induction count with
  | zero => simp
  | succ count ih =>
      rw [List.range_succ, List.flatMap_append, ih, Nat.mul_succ, List.range_add,
        List.map_append, List.map_map]
      simp [Function.comp_def]

/-- One sector of a directory cluster. -/
theorem sectorSlots_eq (g : Geometry v) {c s : Nat} (hc : v.InData c)
    (hs : s < v.fs.sectorsPerCluster) (base : Nat) :
    ∃ sector, v.disk.read (v.sectorLba c s) = some sector ∧
      sectorSlots (v.sectorLba c s) (base + 16 * s) sector =
        (List.range 16).map fun i => v.slotOf c base (16 * s + i) := by
  obtain ⟨sector, _, hread, hbytes⟩ := blkRead_sector g hc hs
  refine ⟨sector, hread, List.map_congr_left fun i hi => ?_⟩
  have hlt := List.mem_range.mp hi
  have hraw : rawAt sector (32 * i) = v.rawIn c (16 * s + i) := by
    funext k
    have hk := k.isLt
    simp only [rawAt, Vol.rawIn]
    rw [hbytes _ (by omega)]
    congr 1
    omega
  rw [Vol.slotOf, hraw, show (16 * s + i) / 16 = s by omega,
    show (16 * s + i) % 16 = i by omega, Nat.add_assoc]

/-- The loops over the sectors of a cluster are one loop over its slots. -/
theorem loop_sectors {σ ρ : Type} (g : Geometry v) {c : Nat} (hc : v.InData c) (base : Nat)
    (place : Nat → Nat × Nat)
    (hplace : ∀ i, i < v.slotsPerCluster →
      place (base + i) = (v.sectorLba c (i / 16), 32 * (i % 16)))
    (pass : DirSlot → σ → Flow σ ρ) (body : Nat → σ → Flow σ ρ)
    (hbody : ∀ s, s < v.fs.sectorsPerCluster → ∀ sector,
      v.disk.read (v.sectorLba c s) = some sector →
      body s = Flow.loop pass (sectorSlots (v.sectorLba c s) (base + 16 * s) sector)) (st : σ) :
    Flow.loop body (List.range v.fs.sectorsPerCluster) st =
      Flow.loop pass (slotsFrom place base (v.clusterRaws c)) st := by
  have hslots : slotsFrom place base (v.clusterRaws c) =
      (List.range v.fs.sectorsPerCluster).flatMap fun s =>
        (List.range 16).map fun i => v.slotOf c base (16 * s + i) := by
    rw [Vol.clusterRaws, slotsFrom_range, range_mul_flatMap 16 _ (v.slotOf c base)]
    refine List.map_congr_left fun i hi => ?_
    rw [hplace i (List.mem_range.mp hi), Vol.slotOf]
  rw [hslots, Flow.loop_flatMap]
  refine Flow.loop_congr (fun s hs => ?_) st
  have hlt := List.mem_range.mp hs
  obtain ⟨sector, hread, heq⟩ := sectorSlots_eq g hc hlt base
  rw [hbody s hlt sector hread, heq]

/-- A chain with `base` slots before it, placed as `place` says. -/
def Vol.PlacedAt (v : Vol) (place : Nat → Nat × Nat) (base : Nat) (l : List Nat) : Prop :=
  ∀ i, i < (v.raws l).length → place (base + i) = v.place l i

theorem Vol.placedAt_zero (v : Vol) (l : List Nat) : v.PlacedAt (v.place l) 0 l := by
  intro i _
  rw [Nat.zero_add]

theorem Vol.PlacedAt.head {place : Nat → Nat × Nat} {base c : Nat} {rest : List Nat}
    (h : v.PlacedAt place base (c :: rest)) (i : Nat) (hi : i < v.slotsPerCluster) :
    place (base + i) = (v.sectorLba c (i / 16), 32 * (i % 16)) := by
  rw [h i (by rw [Vol.raws_cons, List.length_append, Vol.clusterRaws_length]; omega), Vol.place,
    Nat.div_eq_of_lt hi, Nat.mod_eq_of_lt hi, List.getD_cons_zero]

theorem Vol.PlacedAt.tail {place : Nat → Nat × Nat} {base c : Nat} {rest : List Nat}
    (hpos : 0 < v.slotsPerCluster) (h : v.PlacedAt place base (c :: rest)) :
    v.PlacedAt place (base + v.slotsPerCluster) rest := by
  intro i hi
  have hlen : v.slotsPerCluster + i < (v.raws (c :: rest)).length := by
    rw [Vol.raws_cons, List.length_append, Vol.clusterRaws_length]
    omega
  rw [Nat.add_assoc, h _ hlen, Vol.place, Vol.place, Nat.add_mod_left,
    Nat.add_comm v.slotsPerCluster, Nat.add_div_right i hpos, List.getD_cons_succ]

theorem Geometry.slotsPerCluster_pos (g : Geometry v) : 0 < v.slotsPerCluster := by
  have := g.spc_pos
  simp only [Vol.slotsPerCluster]
  omega

end Slots

section IterDir

variable {β : Type}

theorem iterCluster_eq (g : Geometry v) {c base : Nat} (hc : v.InData c)
    {place : Nat → Nat × Nat}
    (hplace : ∀ i, i < v.slotsPerCluster →
      place (base + i) = (v.sectorLba c (i / 16), 32 * (i % 16)))
    (cb : DirHit → β → CbRet × β) (state : LfnState × β) :
    iterCluster v cb c base state =
      Flow.loop (iterSlot cb) (slotsFrom place base (v.clusterRaws c)) state := by
  rw [iterCluster]
  refine loop_sectors g hc base place hplace (iterSlot cb) _ ?_ state
  intro s hs sector hread
  have hlba : fat32ClusterToLba v.fs c + s = v.sectorLba c s := by
    rw [g.clusterToLba_eq hc]
    simp only [Vol.sectorLba]
    omega
  funext st
  have hwrap : u32 (v.sectorLba c s) = v.sectorLba c s := by
    have := Geometry.sectorLba_lt hc hs
    have := g.end_le
    exact u32_of_lt (by omega)
  simp only [hlba, hread, hwrap]

theorem iterChain_eq (g : Geometry v) (cb : DirHit → β → CbRet × β)
    {place : Nat → Nat × Nat} {c : Nat} {l : List Nat} (h : v.Chain c l) {fuel : Nat}
    (hfuel : l.length < fuel) {base : Nat} (hplace : v.PlacedAt place base l)
    (state : LfnState × β) :
    iterChain v cb fuel c base state =
      some (iterEnd (Flow.loop (iterSlot cb) (slotsFrom place base (v.raws l)) state)) := by
  induction l generalizing c fuel base state with
  | nil => exact absurd rfl (IsChain.ne_nil h)
  | cons head rest ih =>
      obtain ⟨tail, htail⟩ := IsChain.head_eq h
      obtain ⟨rfl, rfl⟩ := List.cons.inj htail
      have hc := IsChain.head_node h
      cases fuel with
      | zero => omega
      | succ fuel =>
          rw [iterChain, if_neg (Nat.not_le_of_lt (g.inData_lt_eoc hc)),
            iterCluster_eq g hc (hplace.head), Vol.raws_cons, slotsFrom_append,
            Flow.loop_append]
          cases Flow.loop (iterSlot cb) (slotsFrom place base (v.clusterRaws head)) state with
          | done result => rfl
          | next state' =>
              simp only [fat32ReadFatEntry_eq g hc.2, Flow.next_bind, Vol.clusterRaws_length]
              by_cases hrest : rest = []
              · subst hrest
                have hend : fat32Eoc ≤ v.store.next head := by
                  have := IsChain.next_getLast h
                  simpa using this
                cases fuel with
                | zero => simp at hfuel
                | succ fuel =>
                    rw [iterChain, if_pos hend]
                    rfl
              · exact ih (IsChain.rest_chain h hrest) (Nat.lt_of_succ_lt_succ hfuel)
                  (hplace.tail g.slotsPerCluster_pos) state'

/-- `fat32_iter_dir` runs its callback over the entries of the directory. -/
theorem fat32IterDir_eq (g : Geometry v) {c : Nat} {l : List Nat} (h : v.Chain c l)
    (cb : DirHit → β → CbRet × β) (ctx : β) :
    fat32IterDir v c cb ctx = some (runHits cb (v.listing l) ctx) := by
  have hle := g.chain_length_le h
  have hcount := g.count_lt
  rw [fat32IterDir, iterChain_eq g cb h (by simp only [fat32Eoc]; omega) (v.placedAt_zero l),
    loop_iterSlot, Vol.listing]

end IterDir

section Lookups

variable {c : Nat} {l : List Nat}

theorem fat32FindEntry_eq (g : Geometry v) (h : v.Chain c l) (name : CName) :
    fat32FindEntry c name v =
      match (v.listing l).find? fun hit => nameEqNocase hit.name name with
      | some hit => (.ok hit, v)
      | none => (.err .noent, v) := by
  rw [fat32FindEntry, fat32IterDir_eq g h, runHits_find]
  cases (v.listing l).find? fun hit => nameEqNocase hit.name name <;> rfl

theorem fat32ShortExists_eq (g : Geometry v) (h : v.Chain c l) (short : List UInt8) :
    fat32ShortExists c short v =
      (.ok ((v.listing l).any fun hit => hit.raw.name = short), v) := by
  rw [fat32ShortExists, fat32IterDir_eq g h, runHits_shortExists]
  cases hany : (v.listing l).any fun hit => hit.raw.name = short with
  | true => simp
  | false => simp

theorem fat32DirIsEmpty_eq (g : Geometry v) (h : v.Chain c l) :
    fat32DirIsEmpty c v = (.ok ((v.listing l).all fun hit => isDotName hit.name), v) := by
  rw [fat32DirIsEmpty, fat32IterDir_eq g h, runHits_readdir_first]
  cases hfind : (v.listing l).find? fun hit => !isDotName hit.name with
  | none =>
      have hall := List.find?_eq_none.mp hfind
      simp only [Prod.mk.injEq, Outcome.ok.injEq, and_true]
      rw [eq_comm, List.all_eq_true]
      intro hit hhit
      simpa using hall hit hhit
  | some hit =>
      have hmem := List.mem_of_find?_eq_some hfind
      have hnot := List.find?_some hfind
      simp only [Prod.mk.injEq, Outcome.ok.injEq, and_true]
      rw [eq_comm, List.all_eq_false]
      exact ⟨hit, hmem, by simpa using hnot⟩

end Lookups

end OsAgentLab
