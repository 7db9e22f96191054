/-
Cluster chains of a volume and the functions that allocate, extend, walk and
free them.
-/
import OsAgentLab.Chain
import OsAgentLab.Fat32.TableSpec
import Mathlib.Data.List.Perm.Subperm

namespace OsAgentLab

namespace ClusterStore

/-- The store after the clusters `ext` have been allocated and linked one
after the other behind `last`. -/
def extend (st : ClusterStore) : Nat → List Nat → ClusterStore
  | _, [] => st
  | last, c :: rest => extend (((st.setNext c fat32Eoc).zero c).setNext last c) c rest

/-- The store after the clusters `l` have been freed. -/
def clear (st : ClusterStore) (l : List Nat) : ClusterStore where
  next x := if x ∈ l then 0 else st.next x
  data := st.data

@[simp] theorem clear_data (st : ClusterStore) (l : List Nat) :
    (st.clear l).data = st.data := rfl

@[simp] theorem clear_next (st : ClusterStore) (l : List Nat) (x : Nat) :
    (st.clear l).next x = if x ∈ l then 0 else st.next x := rfl

theorem extend_data (st : ClusterStore) (last : Nat) (ext : List Nat) (x : Nat) :
    (st.extend last ext).data x = if x ∈ ext then fun _ => 0 else st.data x := by
  induction ext generalizing st last with
  | nil => simp [extend]
  | cons c rest ih =>
      rw [extend, ih]
      by_cases hx : x ∈ rest
      · simp [hx]
      · by_cases hxc : x = c <;> simp [hx, hxc]

theorem extend_next_of_ne (st : ClusterStore) {last x : Nat} {ext : List Nat}
    (hlast : x ≠ last) (hext : x ∉ ext) : (st.extend last ext).next x = st.next x := by
  induction ext generalizing st last with
  | nil => rfl
  | cons c rest ih =>
      rw [List.mem_cons, not_or] at hext
      rw [extend, ih _ hext.1 hext.2]
      simp [hlast, hext.1]

theorem extend_nil (st : ClusterStore) (last : Nat) : st.extend last [] = st := rfl

/-- Two extensions one after the other. -/
theorem extend_append (st : ClusterStore) (last c : Nat) (left right : List Nat) :
    st.extend last (left ++ [c] ++ right) = (st.extend last (left ++ [c])).extend c right := by
  induction left generalizing st last with
  | nil => rfl
  | cons x rest ih => exact ih _ x

end ClusterStore

namespace Vol

/-- The cluster chain that starts at `c`: it stays in the data region and ends
in an end-of-chain value. -/
def Chain (v : Vol) (c : Nat) (l : List Nat) : Prop :=
  IsChain v.store.next v.InData (fun x => fat32Eoc ≤ x) c l

/-- A free cluster. -/
def Free (v : Vol) (c : Nat) : Prop := v.InData c ∧ v.store.next c = 0

end Vol

variable {v : Vol}

namespace Geometry

theorem eoc_not_inData (g : Geometry v) : ∀ x, fat32Eoc ≤ x → ¬ v.InData x := by
  intro x hx ⟨_, hhigh⟩
  have := g.count_lt
  simp only [Vol.maxCluster, fat32Eoc] at *
  omega

theorem chain_unique (g : Geometry v) {c : Nat} {l l' : List Nat} (h : v.Chain c l)
    (h' : v.Chain c l') : l = l' :=
  IsChain.unique g.eoc_not_inData h h'

theorem chain_nodup (g : Geometry v) {c : Nat} {l : List Nat} (h : v.Chain c l) :
    l.Nodup :=
  IsChain.nodup g.eoc_not_inData h

/-- A chain has at most as many clusters as there are. -/
theorem chain_length_le (g : Geometry v) {c : Nat} {l : List Nat} (h : v.Chain c l) :
    l.length ≤ v.fs.clusterCount := by
  have hsub : l ⊆ List.range' 2 v.fs.clusterCount := by
    intro x hx
    obtain ⟨hlow, hhigh⟩ := IsChain.node_of_mem h x hx
    simp only [Vol.maxCluster] at hhigh
    exact List.mem_range'_1.mpr ⟨hlow, by omega⟩
  have hle := ((g.chain_nodup h).subperm hsub).length_le
  rwa [List.length_range'] at hle

/-- The successors inside a chain are not free-cluster marks. -/
theorem chain_next_ne_zero {c : Nat} {l : List Nat} (h : v.Chain c l)
    {x : Nat} (hx : x ∈ l) : v.store.next x ≠ 0 := by
  obtain ⟨pre, suf, rfl, hsuf⟩ := IsChain.suffix h hx
  intro hzero
  cases hsuf with
  | last _ hend =>
      rw [hzero] at hend
      simp [fat32Eoc] at hend
  | link _ hrest =>
      have := hrest.head_node.1
      omega

theorem chain_not_free {c : Nat} {l : List Nat} (h : v.Chain c l)
    {x : Nat} (hx : x ∈ l) : ¬ v.Free x :=
  fun hfree => chain_next_ne_zero h hx hfree.2

theorem inData_lt_eoc (g : Geometry v) {c : Nat} (h : v.InData c) : c < fat32Eoc := by
  by_contra hnot
  exact g.eoc_not_inData c (Nat.le_of_not_lt hnot) h

end Geometry

theorem Vol.InData.ne_zero {c : Nat} (h : v.InData c) : c ≠ 0 := by
  have := h.1
  omega

/-- Chains carry over to a volume of the same shape with the same successors. -/
theorem Vol.Chain.congr {v' : Vol} (hshape : SameShape v v') {c : Nat} {l : List Nat}
    (h : v.Chain c l) (hnext : ∀ x ∈ l, v'.store.next x = v.store.next x) : v'.Chain c l :=
  (IsChain.frame h hnext).node_congr fun x hx =>
    hshape.inData.mpr (IsChain.node_of_mem h x hx)

section Zero

/-- Bytes behind the end of a cluster do not exist. -/
theorem Vol.store_data_of_le (v : Vol) (c : Nat) {k : Nat} (hk : v.clusterBytes ≤ k) :
    v.store.data c k = 0 := by
  simp only [Vol.store]
  rw [if_neg]
  intro h
  omega

theorem ClusterStore.put_zero_eq_zero (v : Vol) (c : Nat) :
    (v.store.put c 0 v.clusterBytes fun _ => 0) = v.store.zero c := by
  refine ClusterStore.ext rfl ?_
  funext x k
  rw [ClusterStore.put_data, ClusterStore.zero_data]
  by_cases hx : x = c
  · subst hx
    simp only [↓reduceIte]
    by_cases hk : k < v.clusterBytes
    · rw [overlay_of_mem (by omega)]
    · rw [overlay_of_not_mem (by omega), v.store_data_of_le x (Nat.le_of_not_lt hk)]
  · simp only [hx, ↓reduceIte]

/-- Storing zeros piece by piece. -/
theorem ClusterStore.put_zero_step (st : ClusterStore) (c i : Nat) :
    ((st.put c 0 (512 * i) fun _ => 0).put c (512 * i) 512 fun _ => 0) =
      st.put c 0 (512 * (i + 1)) fun _ => 0 := by
  refine ClusterStore.ext rfl ?_
  funext x k
  simp only [ClusterStore.put_data]
  by_cases hx : x = c
  · subst hx
    simp only [↓reduceIte, overlay]
    by_cases h1 : k < 512 * i
    · simp [h1, show k < 512 * (i + 1) by omega]
    · by_cases h2 : k < 512 * (i + 1)
      · rw [if_pos (by omega), if_pos (by omega)]
      · rw [if_neg (by omega), if_neg (by omega), if_neg (by omega)]
  · simp only [hx, ↓reduceIte]

/-- `fat32_zero_cluster` clears one cluster. -/
theorem fat32ZeroCluster_eq (g : Geometry v) {c : Nat} (hc : v.InData c) :
    ∃ v', fat32ZeroCluster c v = (.ok (), v') ∧ SameShape v v' ∧ v'.fs = v.fs ∧
      v'.store = v.store.zero c := by
  rw [fat32ZeroCluster, Prog.bind_ok (show getFs v = (.ok v.fs, v) from rfl)]
  obtain ⟨v', hrun, hshape, hfs, hstore⟩ := Prog.forCount_inv
    (fun s => Prog.orElse
      (blkWrite (u32 (fat32ClusterToLba v.fs c + s)) fun _ => 0) Errno.io)
    (fun i mid => SameShape v mid ∧ mid.fs = v.fs ∧
      mid.store = v.store.put c 0 (512 * i) fun _ => 0)
    v.fs.sectorsPerCluster 0 v
    ⟨SameShape.refl v, rfl, by
      refine ClusterStore.ext rfl ?_
      funext x k
      rw [ClusterStore.put_data]
      by_cases hx : x = c
      · subst hx
        simp only [↓reduceIte]
        rw [overlay_of_not_mem (by omega)]
      · simp only [hx, ↓reduceIte]⟩
    (by
      intro i mid _ hi ⟨hshape, hfs, hstore⟩
      rw [Nat.zero_add] at hi
      have gmid := hshape.geometry g
      obtain ⟨next, hrun, hnext, hnextFs, hnextStore⟩ :=
        blkWrite_sector gmid (hshape.inData.mpr hc) (hshape.spc ▸ hi) fun _ => 0
      refine ⟨next, ?_, hshape.trans hnext, hnextFs.trans hfs, ?_⟩
      · rw [g.sectorLba_u32 hc hi, ← hshape.sectorLba]
        exact Prog.orElse_ok hrun _
      · rw [hnextStore, hstore, ClusterStore.put_zero_step])
  refine ⟨v', hrun, hshape, hfs, ?_⟩
  rw [hstore, Nat.zero_add]
  exact ClusterStore.put_zero_eq_zero v c

end Zero

section Allocation

/-- What a successful allocation does. -/
structure Allocated (v : Vol) (c : Nat) (v' : Vol) : Prop where
  free : v.Free c
  shape : SameShape v v'
  store : v'.store = (v.store.setNext c fat32Eoc).zero c

/-- One pass of the search either takes a free cluster or has seen none. -/
theorem fat32AllocPass_spec (g : Geometry v) {count c : Nat} (hlow : 2 ≤ c)
    (hhigh : c + count ≤ v.maxCluster + 1) :
    (∃ fresh v', fat32AllocPass count c v = (.ok (some fresh), v') ∧
      Allocated v fresh v') ∨
    (fat32AllocPass count c v = (.ok none, v) ∧
      ∀ x, c ≤ x → x < c + count → v.store.next x ≠ 0) := by
  induction count generalizing c with
  | zero => exact Or.inr ⟨rfl, fun x _ _ => by omega⟩
  | succ count ih =>
      have hc : v.InData c := ⟨hlow, by omega⟩
      have hread := Prog.orElse_ok (fat32ReadFatEntry_eq g hc.2) Errno.io
      rw [fat32AllocPass, Prog.bind_ok hread]
      by_cases hfree : v.store.next c = 0
      · -- mark the cluster, clear it, and move the hint
        obtain ⟨v₁, hmark, hshape₁, hfs₁, hstore₁⟩ :=
          fat32WriteFatEntry_eq g fat32Eoc hc.2 (by decide)
        obtain ⟨v₂, hzero, hshape₂, hfs₂, hstore₂⟩ :=
          fat32ZeroCluster_eq (hshape₁.geometry g) (hshape₁.inData.mpr hc)
        refine Or.inl ⟨c, { v₂ with fs := { v₂.fs with allocHint := u32 (c + 1) } }, ?_,
          ⟨⟨hc, hfree⟩, (hshape₁.trans hshape₂).trans ⟨rfl, rfl⟩, ?_⟩⟩
        · rw [if_pos hfree, Prog.bind_ok (Prog.orElse_ok hmark _),
            Prog.bind_ok (Prog.orElse_ok hzero _)]
          rfl
        · rw [← hstore₁, ← hstore₂]
          rfl
      · rw [if_neg hfree]
        rcases ih (c := c + 1) (by omega) (by omega) with hsome | ⟨hrun, hnone⟩
        · exact Or.inl hsome
        · refine Or.inr ⟨hrun, fun x hx hlt => ?_⟩
          rcases Nat.eq_or_lt_of_le hx with rfl | hx
          · exact hfree
          · exact hnone x hx (by omega)

/-- `fat32_alloc_cluster` takes a free cluster, and fails only when there is
none. -/
theorem fat32AllocCluster_spec (g : Geometry v) :
    (∃ fresh v', fat32AllocCluster v = (.ok fresh, v') ∧ Allocated v fresh v') ∨
    (fat32AllocCluster v = (.err .nospc, v) ∧ ∀ x, ¬ v.Free x) := by
  have hmax : u32 (v.fs.clusterCount + 1) = v.maxCluster := by
    have := g.count_lt
    exact u32_of_lt (by omega)
  have hmax_ne : v.maxCluster ≠ 4294967295 := by
    have := g.count_lt
    simp only [Vol.maxCluster]
    omega
  rw [fat32AllocCluster, Prog.bind_ok (show getFs v = (.ok v.fs, v) from rfl)]
  simp only [hmax, hmax_ne, ↓reduceIte]
  generalize hstart : (if v.fs.allocHint < fat32MinCluster then fat32MinCluster
    else v.fs.allocHint) = start
  have hlow : 2 ≤ start := by
    rw [← hstart]
    split
    · exact Nat.le_refl 2
    · rename_i h
      simp only [fat32MinCluster] at h
      omega
  -- a hint behind the last cluster makes the first pass empty
  have hfirst : (∃ fresh v', fat32AllocPass (v.maxCluster + 1 - start) start v =
        (.ok (some fresh), v') ∧ Allocated v fresh v') ∨
      fat32AllocPass (v.maxCluster + 1 - start) start v = (.ok none, v) := by
    by_cases hle : start ≤ v.maxCluster + 1
    · rcases fat32AllocPass_spec g hlow
        (show start + (v.maxCluster + 1 - start) ≤ v.maxCluster + 1 by omega) with h | h
      · exact Or.inl h
      · exact Or.inr h.1
    · rw [show v.maxCluster + 1 - start = 0 by omega]
      exact Or.inr rfl
  rcases hfirst with ⟨fresh, v', hrun, halloc⟩ | hrun
  · refine Or.inl ⟨fresh, v', ?_, halloc⟩
    rw [Prog.bind_ok hrun]
    rfl
  · rw [Prog.bind_ok hrun]
    rcases fat32AllocPass_spec g (Nat.le_refl 2)
        (show 2 + (v.maxCluster + 1 - 2) ≤ v.maxCluster + 1 by
          simp only [Vol.maxCluster]; omega) with ⟨fresh, v', hrun', halloc⟩ | ⟨hrun', hnone⟩
    · refine Or.inl ⟨fresh, v', ?_, halloc⟩
      simp only [fat32MinCluster]
      rw [Prog.bind_ok hrun']
      rfl
    · refine Or.inr ⟨?_, ?_⟩
      · simp only [fat32MinCluster]
        rw [Prog.bind_ok hrun']
        rfl
      · intro x hx
        have := hx.1.2
        exact hnone x hx.1.1 (by omega) hx.2

end Allocation

end OsAgentLab
