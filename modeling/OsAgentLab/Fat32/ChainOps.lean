/-
Freeing, indexing and extending cluster chains.
-/
import OsAgentLab.Fat32.Alloc

namespace OsAgentLab

variable {v : Vol}

/-- `fat32_free_chain` makes exactly the clusters of the chain free. -/
theorem fat32FreeChainLoop_eq (g : Geometry v) {c : Nat} {l : List Nat}
    (h : v.Chain c l) {fuel : Nat} (hfuel : l.length < fuel) :
    ∃ v', fat32FreeChainLoop fuel c v = (.ok (), v') ∧ SameShape v v' ∧
      v'.store = v.store.clear l := by
  induction l generalizing v c fuel with
  | nil => exact absurd rfl (IsChain.ne_nil h)
  | cons head rest ih =>
      obtain ⟨tail, htail⟩ := IsChain.head_eq h
      obtain ⟨rfl, rfl⟩ := List.cons.inj htail
      cases fuel with
      | zero => omega
      | succ fuel =>
          have hc := IsChain.head_node h
          have hnodup := g.chain_nodup h
          have hmax : u32 (v.fs.clusterCount + 1) = v.maxCluster := by
            have := g.count_lt
            exact u32_of_lt (by omega)
          have hgo : fat32MinCluster ≤ head ∧ head ≤ u32 (v.fs.clusterCount + 1) ∧
              head < fat32Eoc := ⟨hc.1, hmax ▸ hc.2, g.inData_lt_eoc hc⟩
          obtain ⟨v₁, hwrite, hshape₁, _, hstore₁⟩ :=
            fat32WriteFatEntry_eq g 0 hc.2 (by decide)
          rw [fat32FreeChainLoop, Prog.bind_ok (show getFs v = (.ok v.fs, v) from rfl),
            if_pos hgo, Prog.bind_ok (Prog.orElse_ok (fat32ReadFatEntry_eq g hc.2) _),
            Prog.bind_ok (Prog.orElse_ok hwrite _)]
          have hcons : v.store.clear (head :: rest) = v₁.store.clear rest := by
            rw [hstore₁]
            refine ClusterStore.ext ?_ rfl
            funext x
            simp only [ClusterStore.clear_next, List.mem_cons, ClusterStore.setNext_next]
            by_cases hx : x = head <;> by_cases hr : x ∈ rest <;> simp [hx, hr]
          by_cases hrest : rest = []
          · subst hrest
            have hend : fat32Eoc ≤ v.store.next head := by
              have := IsChain.next_getLast h
              simpa using this
            cases fuel with
            | zero => simp at hfuel
            | succ fuel =>
                refine ⟨v₁, ?_, hshape₁, ?_⟩
                · rw [fat32FreeChainLoop, Prog.bind_ok (show getFs v₁ = (.ok v₁.fs, v₁) from rfl),
                    if_neg (fun hgo => by omega), Prog.pure_apply]
                · rw [hcons]
                  refine ClusterStore.ext ?_ rfl
                  funext x
                  simp
          · have hchain : v₁.Chain (v.store.next head) rest := by
              refine Vol.Chain.congr hshape₁ (IsChain.rest_chain h hrest) ?_
              intro x hx
              have hne : x ≠ head := by
                rintro rfl
                exact (List.nodup_cons.mp hnodup).1 hx
              rw [hstore₁]
              simp [hne]
            obtain ⟨v', hrun, hshape, hstore⟩ := ih (hshape₁.geometry g) hchain
              (Nat.lt_of_succ_lt_succ hfuel)
            exact ⟨v', hrun, hshape₁.trans hshape, by rw [hstore, hcons]⟩

theorem fat32FreeChain_eq (g : Geometry v) {c : Nat} {l : List Nat} (h : v.Chain c l) :
    ∃ v', fat32FreeChain c v = (.ok (), v') ∧ SameShape v v' ∧
      v'.store = v.store.clear l := by
  have hle := g.chain_length_le h
  have hcount := g.count_lt
  exact fat32FreeChainLoop_eq g h (by simp only [fat32Eoc]; omega)

/-- `fat32_get_cluster_at` delivers the cluster at the index, or fails behind
the end of the chain. -/
theorem fat32GetClusterAt_eq (g : Geometry v) {c : Nat} {l : List Nat}
    (h : v.Chain c l) (index : Nat) :
    fat32GetClusterAt c index v =
      if hi : index < l.length then (.ok (l.get ⟨index, hi⟩), v) else (.err .noent, v) := by
  induction l generalizing c index with
  | nil => exact absurd rfl (IsChain.ne_nil h)
  | cons head rest ih =>
      obtain ⟨tail, htail⟩ := IsChain.head_eq h
      obtain ⟨rfl, rfl⟩ := List.cons.inj htail
      have hc := IsChain.head_node h
      have hlt := g.inData_lt_eoc hc
      have hin : ¬ (head < fat32MinCluster ∨ fat32Eoc ≤ head) := by
        have := hc.1
        simp only [fat32MinCluster]
        omega
      cases index with
      | zero => rw [fat32GetClusterAt, if_neg hin]; rfl
      | succ index =>
          rw [fat32GetClusterAt, if_neg hin,
            Prog.bind_ok (Prog.orElse_ok (fat32ReadFatEntry_eq g hc.2) _)]
          by_cases hrest : rest = []
          · subst hrest
            have hend : fat32Eoc ≤ v.store.next head := by
              have := IsChain.next_getLast h
              simpa using this
            cases index <;>
              · rw [fat32GetClusterAt, if_pos (Or.inr hend)]
                simp [Prog.fail_apply]
          · rw [ih (IsChain.rest_chain h hrest) index]
            simp only [List.length_cons, Nat.add_lt_add_iff_right, List.get_eq_getElem,
              List.getElem_cons_succ]

/-- The walk of the first loop of `fat32_ensure_chain` over a chain. -/
theorem fat32EnsureWalk_eq (g : Geometry v) {c : Nat} {l : List Nat} (h : v.Chain c l)
    (missing last : Nat) :
    fat32EnsureWalk (missing + 1) c last v =
      if hm : missing < l.length then (.ok (l.get ⟨missing, hm⟩, 0), v)
      else (.ok (l.getLast (IsChain.ne_nil h), missing + 1 - l.length), v) := by
  induction l generalizing c missing last with
  | nil => exact absurd rfl (IsChain.ne_nil h)
  | cons head rest ih =>
      obtain ⟨tail, htail⟩ := IsChain.head_eq h
      obtain ⟨rfl, rfl⟩ := List.cons.inj htail
      have hc := IsChain.head_node h
      rw [fat32EnsureWalk, if_pos (g.inData_lt_eoc hc)]
      cases missing with
      | zero =>
          rw [if_pos rfl, Prog.pure_apply]
          simp
      | succ missing =>
          rw [if_neg (Nat.succ_ne_zero _),
            Prog.bind_ok (Prog.orElse_ok (fat32ReadFatEntry_eq g hc.2) _)]
          by_cases hrest : rest = []
          · subst hrest
            have hend : fat32Eoc ≤ v.store.next head := by
              have := IsChain.next_getLast h
              simpa using this
            rw [if_pos hend, Prog.pure_apply]
            simp
          · have hchain := IsChain.rest_chain h hrest
            have hlt := g.inData_lt_eoc (IsChain.head_node hchain)
            rw [if_neg (Nat.not_le_of_lt hlt), ih hchain missing head]
            simp only [List.length_cons, Nat.add_lt_add_iff_right, List.get_eq_getElem,
              List.getElem_cons_succ, List.getLast_cons hrest]
            split
            · rfl
            · congr 3
              omega

section Append

/-- What the appending loops do behind the last cluster of a chain: `ext` are
the clusters taken, all of them free before. -/
structure Appended (v : Vol) (last : Nat) (ext : List Nat) (v' : Vol) : Prop where
  free : ∀ x ∈ ext, v.Free x
  nodup : ext.Nodup
  shape : SameShape v v'
  store : v'.store = v.store.extend last ext

theorem Appended.nil (v : Vol) (last : Nat) : Appended v last [] v :=
  ⟨by simp, List.nodup_nil, SameShape.refl v, rfl⟩

/-- Allocating a cluster and linking it behind `last`. -/
theorem Allocated.link (g : Geometry v) {fresh : Nat} {v₁ : Vol}
    (h : Allocated v fresh v₁) {last : Nat} (hlast : v.InData last) :
    ∃ v₂, fat32WriteFatEntry last fresh v₁ = (.ok (), v₂) ∧ SameShape v v₂ ∧
      v₂.store = ((v.store.setNext fresh fat32Eoc).zero fresh).setNext last fresh := by
  have hfresh := h.free.1
  have hlt : fresh < 268435456 := by
    have := g.inData_lt_eoc hfresh
    simp only [fat32Eoc] at this
    omega
  obtain ⟨v₂, hrun, hshape, _, hstore⟩ := fat32WriteFatEntry_eq (h.shape.geometry g) _
    (h.shape.inData.mpr hlast).2 hlt
  exact ⟨v₂, hrun, h.shape.trans hshape, by rw [hstore, h.store]⟩

/-- The appending loop takes free clusters until the count is reached, or
until there are none left. -/
theorem fat32Append_spec (g : Geometry v) (step needed : Nat) (hstep : 0 < step)
    (fuel last count : Nat) (hlast : v.InData last) (hused : v.store.next last ≠ 0)
    (hfuel : needed ≤ count + fuel) :
    ∃ ext v', Appended v last ext v' ∧
      ((fat32Append step needed fuel last count v = (.ok (), v') ∧
          needed ≤ count + step * ext.length ∧
          (ext ≠ [] → count + step * (ext.length - 1) < needed)) ∨
        (fat32Append step needed fuel last count v = (.err .nospc, v') ∧
          (∀ x, ¬ v'.Free x) ∧ count + step * ext.length < needed)) := by
  induction fuel generalizing v last count with
  | zero =>
      exact ⟨[], v, Appended.nil v last, Or.inl ⟨rfl, by simpa using hfuel, by simp⟩⟩
  | succ fuel ih =>
      by_cases hmore : count < needed
      · rw [fat32Append, if_pos hmore]
        rcases fat32AllocCluster_spec g with ⟨fresh, v₁, hrun, halloc⟩ | ⟨hrun, hnone⟩
        · obtain ⟨v₂, hlink, hshape, hstore⟩ := halloc.link g hlast
          have hne : fresh ≠ last := by
            rintro rfl
            exact hused halloc.free.2
          have hfresh : v₂.InData fresh := hshape.inData.mpr halloc.free.1
          have hfreshUsed : v₂.store.next fresh ≠ 0 := by
            rw [hstore]
            simp [hne, fat32Eoc]
          obtain ⟨ext, v', happ, hcases⟩ := ih (hshape.geometry g) fresh (count + step)
            hfresh hfreshUsed (by omega)
          -- what is free afterwards was free before and is not the new cluster
          have hback : ∀ x, v₂.Free x → v.Free x ∧ x ≠ fresh := by
            intro x hx
            have hxne : x ≠ fresh := by
              rintro rfl
              exact hfreshUsed hx.2
            refine ⟨⟨hshape.inData.mp hx.1, ?_⟩, hxne⟩
            have hnext := hx.2
            rw [hstore] at hnext
            by_cases hxl : x = last
            · subst hxl
              simp only [ClusterStore.setNext_next, ↓reduceIte] at hnext
              exact absurd hnext halloc.free.1.ne_zero
            · simpa [hxne, hxl] using hnext
          refine ⟨fresh :: ext, v', ?_, ?_⟩
          · refine ⟨?_, ?_, hshape.trans happ.shape, ?_⟩
            · intro x hx
              rcases List.mem_cons.mp hx with rfl | hx
              · exact halloc.free
              · exact (hback x (happ.free x hx)).1
            · refine List.nodup_cons.mpr ⟨fun hmem => ?_, happ.nodup⟩
              exact (hback fresh (happ.free fresh hmem)).2 rfl
            · rw [happ.store, hstore]
              rfl
          · rw [Prog.bind_ok (Prog.orElse_ok hrun _), Prog.bind_ok (Prog.orElse_ok hlink _)]
            have hlen : step * (ext.length + 1) = step * ext.length + step := by ring
            rcases hcases with ⟨hok, hle, hmin⟩ | ⟨herr, hfull, hlt⟩
            · refine Or.inl ⟨hok, by simp only [List.length_cons]; omega, fun _ => ?_⟩
              simp only [List.length_cons, Nat.add_sub_cancel]
              by_cases hext : ext = []
              · subst hext
                simpa using hmore
              · have := hmin hext
                have hpos : 0 < ext.length := List.length_pos_iff.mpr hext
                have hsub : step * ext.length = step * (ext.length - 1) + step := by
                  rw [← Nat.mul_succ, Nat.succ_eq_add_one, Nat.sub_add_cancel hpos]
                omega
            · refine Or.inr ⟨herr, hfull, ?_⟩
              simp only [List.length_cons]
              omega
        · refine ⟨[], v, Appended.nil v last, Or.inr ⟨?_, hnone, by simpa using hmore⟩⟩
          rw [Prog.bind_err (Prog.orElse_err hrun _)]
      · refine ⟨[], v, Appended.nil v last, Or.inl ⟨?_, by simp; omega, by simp⟩⟩
        rw [fat32Append, if_neg hmore, Prog.pure_apply]

end Append

end OsAgentLab
