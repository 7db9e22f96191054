/-
Chains that grow: what the appending loops leave behind, stated about chains,
free clusters and cluster contents.
-/
import OsAgentLab.Fat32.ChainOps

namespace OsAgentLab

variable {v v' v'' : Vol}

/-- The clusters of an object with the start cluster `c`: none when `c` is
zero, otherwise the chain of `c`. -/
def Vol.Holds (v : Vol) (c : Nat) (l : List Nat) : Prop :=
  (c = 0 ∧ l = []) ∨ v.Chain c l

namespace Vol.Holds

theorem empty (v : Vol) : v.Holds 0 [] := Or.inl ⟨rfl, rfl⟩

theorem of_chain {c : Nat} {l : List Nat} (h : v.Chain c l) : v.Holds c l := Or.inr h

theorem chain_of_ne_zero {c : Nat} {l : List Nat} (h : v.Holds c l) (hc : c ≠ 0) :
    v.Chain c l := by
  rcases h with ⟨rfl, _⟩ | h
  · exact absurd rfl hc
  · exact h

theorem nil_of_zero {l : List Nat} (h : v.Holds 0 l) : l = [] := by
  rcases h with ⟨_, rfl⟩ | h
  · rfl
  · exact absurd rfl (IsChain.head_node h).ne_zero

theorem not_free {c : Nat} {l : List Nat} (h : v.Holds c l) {x : Nat} (hx : x ∈ l) :
    ¬ v.Free x := by
  rcases h with ⟨_, rfl⟩ | h
  · cases hx
  · exact Geometry.chain_not_free h hx

theorem inData {c : Nat} {l : List Nat} (h : v.Holds c l) {x : Nat} (hx : x ∈ l) :
    v.InData x := by
  rcases h with ⟨_, rfl⟩ | h
  · cases hx
  · exact IsChain.node_of_mem h x hx

theorem unique (g : Geometry v) {c : Nat} {l l' : List Nat} (h : v.Holds c l)
    (h' : v.Holds c l') : l = l' := by
  by_cases hc : c = 0
  · subst hc
    rw [h.nil_of_zero, h'.nil_of_zero]
  · exact g.chain_unique (h.chain_of_ne_zero hc) (h'.chain_of_ne_zero hc)

theorem nodup (g : Geometry v) {c : Nat} {l : List Nat} (h : v.Holds c l) : l.Nodup := by
  rcases h with ⟨_, rfl⟩ | h
  · exact List.nodup_nil
  · exact g.chain_nodup h

theorem congr (hshape : SameShape v v') {c : Nat} {l : List Nat} (h : v.Holds c l)
    (hnext : ∀ x ∈ l, v'.store.next x = v.store.next x) : v'.Holds c l := by
  rcases h with h | h
  · exact Or.inl h
  · exact Or.inr (Vol.Chain.congr hshape h hnext)

end Vol.Holds

section ExtendedChain

variable {node : Nat → Prop}

/-- Clusters appended behind the end of a chain prolong it. -/
theorem ClusterStore.extend_chain (st : ClusterStore) {a last : Nat} {l ext : List Nat}
    (h : IsChain st.next node (fun x => fat32Eoc ≤ x) a l) (hnodup : l.Nodup)
    (hlast : l.getLast h.ne_nil = last) (hext : ext.Nodup) (hapart : ∀ x ∈ ext, x ∉ l)
    (hnode : ∀ x ∈ ext, node x) :
    IsChain (st.extend last ext).next node (fun x => fat32Eoc ≤ x) a (l ++ ext) := by
  induction ext generalizing st last l with
  | nil =>
      rw [List.append_nil, ClusterStore.extend_nil]
      exact h
  | cons c rest ih =>
      have hcl : c ∉ l := hapart c List.mem_cons_self
      have hmem : last ∈ l := hlast ▸ List.getLast_mem h.ne_nil
      have hne : c ≠ last := by
        rintro rfl
        exact hcl hmem
      have hone : IsChain (((st.setNext c fat32Eoc).zero c).setNext last c).next node
          (fun x => fat32Eoc ≤ x) a (l ++ [c]) := by
        refine h.append hnodup hlast ?_ ?_
        · intro x hx hxl
          have hxc : x ≠ c := by
            rintro rfl
            exact hcl hx
          simp [hxl, hxc]
        · simp only [ClusterStore.setNext_next, ↓reduceIte]
          refine .last (hnode c List.mem_cons_self) ?_
          simp [hne]
      have hnext := ih _ hone
        (by
          rw [List.nodup_append]
          refine ⟨hnodup, List.nodup_singleton c, ?_⟩
          intro x hx y hy
          rw [List.mem_singleton.mp hy]
          rintro rfl
          exact hcl hx)
        (List.getLast_append_singleton l) (List.nodup_cons.mp hext).2
        (by
          intro x hx hmem
          rcases List.mem_append.mp hmem with hmem | hmem
          · exact hapart x (List.mem_cons_of_mem c hx) hmem
          · rw [List.mem_singleton.mp hmem] at hx
            exact (List.nodup_cons.mp hext).1 hx)
        (fun x hx => hnode x (List.mem_cons_of_mem c hx))
      rw [List.append_assoc, List.singleton_append] at hnext
      exact hnext

end ExtendedChain

/-- The clusters `ext`, free before, have been cleared and appended to the
clusters `l` of an object that now starts at `c`; everything else is as it
was. -/
structure Grown (v : Vol) (l ext : List Nat) (c : Nat) (v' : Vol) : Prop where
  free : ∀ x ∈ ext, v.Free x
  nodup : ext.Nodup
  shape : SameShape v v'
  next : ∀ x, x ∉ l → x ∉ ext → v'.store.next x = v.store.next x
  data : ∀ x, v'.store.data x = if x ∈ ext then fun _ => 0 else v.store.data x
  holds : v'.Holds c (l ++ ext)

namespace Grown

variable {l ext : List Nat} {c : Nat}

theorem refl (h : v.Holds c l) : Grown v l [] c v where
  free := by simp
  nodup := List.nodup_nil
  shape := SameShape.refl v
  next _ _ _ := rfl
  data x := by simp
  holds := by
    rw [List.append_nil]
    exact h

/-- An object without clusters receives its first one. -/
theorem of_allocated {fresh : Nat} (h : Allocated v fresh v') :
    Grown v [] [fresh] fresh v' where
  free x hx := by
    rw [List.mem_singleton.mp hx]
    exact h.free
  nodup := List.nodup_singleton fresh
  shape := h.shape
  next x _ hx := by
    have hne : x ≠ fresh := fun heq => hx (List.mem_singleton.mpr heq)
    rw [h.store]
    simp [hne]
  data x := by
    rw [h.store]
    simp
  holds := by
    refine Or.inr (.last (h.shape.inData.mpr h.free.1) ?_)
    rw [h.store]
    simp

/-- The appending loops prolong the chain whose last cluster they are given. -/
theorem of_appended (g : Geometry v) (hchain : v.Chain c l) {last : Nat}
    (hlast : l.getLast (IsChain.ne_nil hchain) = last) (h : Appended v last ext v') :
    Grown v l ext c v' where
  free := h.free
  nodup := h.nodup
  shape := h.shape
  next x hx hext := by
    have hne : x ≠ last := by
      rintro rfl
      exact hx (hlast ▸ List.getLast_mem (IsChain.ne_nil hchain))
    rw [h.store, ClusterStore.extend_next_of_ne _ hne hext]
  data x := by rw [h.store, ClusterStore.extend_data]
  holds := by
    refine Or.inr ?_
    rw [Vol.Chain, h.store]
    have hext := ClusterStore.extend_chain v.store hchain (g.chain_nodup hchain) hlast h.nodup
      (fun x hx hmem => Geometry.chain_not_free hchain hmem (h.free x hx))
      (fun x hx => (h.free x hx).1)
    refine hext.node_congr fun x hx => h.shape.inData.mpr ?_
    rcases List.mem_append.mp hx with hx | hx
    · exact IsChain.node_of_mem hchain x hx
    · exact (h.free x hx).1

theorem trans {c' : Nat} {more : List Nat} (h : Grown v l ext c v')
    (h' : Grown v' (l ++ ext) more c' v'') : Grown v l (ext ++ more) c' v'' := by
  have hback : ∀ x ∈ more, v.Free x ∧ x ∉ ext := by
    intro x hx
    have hfree := h'.free x hx
    have hnot : x ∉ l ++ ext := fun hmem => h.holds.not_free hmem hfree
    simp only [List.mem_append, not_or] at hnot
    refine ⟨⟨h.shape.inData.mp hfree.1, ?_⟩, hnot.2⟩
    rw [← h.next x hnot.1 hnot.2]
    exact hfree.2
  refine ⟨?_, ?_, h.shape.trans h'.shape, ?_, ?_, ?_⟩
  · intro x hx
    rcases List.mem_append.mp hx with hx | hx
    · exact h.free x hx
    · exact (hback x hx).1
  · rw [List.nodup_append]
    refine ⟨h.nodup, h'.nodup, ?_⟩
    rintro x hx y hy rfl
    exact (hback x hy).2 hx
  · intro x hl hx
    simp only [List.mem_append, not_or] at hx
    rw [h'.next x (by simp [hl, hx.1]) hx.2, h.next x hl hx.1]
  · intro x
    rw [h'.data, h.data]
    by_cases hm : x ∈ more <;> by_cases he : x ∈ ext <;> simp [hm, he]
  · rw [← List.append_assoc]
    exact h'.holds

/-- What is free afterwards was free before and has not been taken. -/
theorem free_iff (hl : v.Holds c' l) (h : Grown v l ext c v') {x : Nat} :
    v'.Free x ↔ v.Free x ∧ x ∉ ext := by
  constructor
  · intro hfree
    have hnot : x ∉ l ++ ext := fun hmem => h.holds.not_free hmem hfree
    simp only [List.mem_append, not_or] at hnot
    refine ⟨⟨h.shape.inData.mp hfree.1, ?_⟩, hnot.2⟩
    rw [← h.next x hnot.1 hnot.2]
    exact hfree.2
  · rintro ⟨hfree, hext⟩
    have hnot : x ∉ l := fun hmem => hl.not_free hmem hfree
    refine ⟨h.shape.inData.mpr hfree.1, ?_⟩
    rw [h.next x hnot hext]
    exact hfree.2

theorem geometry (g : Geometry v) (h : Grown v l ext c v') : Geometry v' :=
  h.shape.geometry g

/-- Chains that share no cluster with the growing object stay as they are. -/
theorem holds_frame (h : Grown v l ext c v') {a : Nat} {m : List Nat} (hm : v.Holds a m)
    (hapart : ∀ x ∈ m, x ∉ l) : v'.Holds a m :=
  hm.congr h.shape fun x hx => h.next x (hapart x hx) fun hext =>
    hm.not_free hx (h.free x hext)

theorem chain_frame (h : Grown v l ext c v') {a : Nat} {m : List Nat} (hm : v.Chain a m)
    (hapart : ∀ x ∈ m, x ∉ l) : v'.Chain a m :=
  (h.holds_frame (.of_chain hm) hapart).chain_of_ne_zero (IsChain.head_node hm).ne_zero

/-- Without new clusters nothing has changed. -/
theorem store_data_of_not_mem (h : Grown v l ext c v') {x : Nat} (hx : x ∉ ext) :
    v'.store.data x = v.store.data x := by
  rw [h.data, if_neg hx]

end Grown

section EnsureChain

/-- The two halves of `fat32_ensure_chain` on an object with the clusters
`l`: the chain reaches the length `needed`, or there is no free cluster left. -/
theorem fat32Ensure_spec (g : Geometry v) {start : Nat} (needed : Nat) {l : List Nat}
    (h : v.Holds start l) :
    (fat32EnsureStart start needed v = (.err .nospc, v) ∧
      start = 0 ∧ needed ≠ 0 ∧ ∀ x, ¬ v.Free x) ∨
    ∃ c mid ext v', fat32EnsureStart start needed v = (.ok c, mid) ∧
      Grown v l ext c v' ∧ (start ≠ 0 ∨ needed = 0 → c = start) ∧
      (needed ≠ 0 → c ≠ 0) ∧
      ((fat32EnsureRest c needed mid = (.ok (), v') ∧
          needed ≤ (l ++ ext).length ∧ (ext ≠ [] → (l ++ ext).length = needed)) ∨
        (fat32EnsureRest c needed mid = (.err .nospc, v') ∧
          (∀ x, ¬ v'.Free x) ∧ (l ++ ext).length < needed)) := by
  by_cases hneeded : needed = 0
  · subst hneeded
    exact Or.inr ⟨start, v, [], v, rfl, Grown.refl h, fun _ => rfl, fun h => absurd rfl h,
      Or.inl ⟨rfl, Nat.zero_le _, fun h => absurd rfl h⟩⟩
  obtain ⟨needed, rfl⟩ := Nat.exists_eq_succ_of_ne_zero hneeded
  -- the second half, from any chain on
  have hrest : ∀ {w : Vol} {c : Nat} {m : List Nat}, Geometry w → w.Chain c m →
      ∃ ext v', Grown w m ext c v' ∧
        ((fat32EnsureRest c (needed + 1) w = (.ok (), v') ∧
            needed + 1 ≤ (m ++ ext).length ∧ (ext ≠ [] → (m ++ ext).length = needed + 1)) ∨
          (fat32EnsureRest c (needed + 1) w = (.err .nospc, v') ∧
            (∀ x, ¬ v'.Free x) ∧ (m ++ ext).length < needed + 1)) := by
    intro w c m gw hchain
    have hpos := IsChain.length_pos hchain
    rw [fat32EnsureRest, if_neg (Nat.succ_ne_zero needed)]
    by_cases hlen : needed < m.length
    · have hwalk : fat32EnsureWalk (needed + 1) c 0 w = (.ok (m.get ⟨needed, hlen⟩, 0), w) := by
        rw [fat32EnsureWalk_eq gw hchain needed 0, dif_pos hlen]
      refine ⟨[], w, Grown.refl (.of_chain hchain), Or.inl ⟨?_, ?_, fun h => absurd rfl h⟩⟩
      · rw [Prog.bind_ok hwalk]
        rfl
      · rw [List.append_nil]
        exact hlen
    · have hmem := List.getLast_mem (IsChain.ne_nil hchain)
      have hwalk : fat32EnsureWalk (needed + 1) c 0 w =
          (.ok (m.getLast (IsChain.ne_nil hchain), needed + 1 - m.length), w) := by
        rw [fat32EnsureWalk_eq gw hchain needed 0, dif_neg hlen]
      obtain ⟨ext, v', happ, hcases⟩ := fat32Append_spec gw 1 (needed + 1) Nat.one_pos
        (needed + 1 - m.length) (m.getLast (IsChain.ne_nil hchain))
        (needed + 1 - (needed + 1 - m.length))
        (IsChain.node_of_mem hchain _ hmem) (Geometry.chain_next_ne_zero hchain hmem) (by omega)
      refine ⟨ext, v', Grown.of_appended gw hchain rfl happ, ?_⟩
      rw [Prog.bind_ok hwalk]
      rcases hcases with ⟨hok, hle, hmin⟩ | ⟨herr, hfull, hlt⟩
      · refine Or.inl ⟨hok, ?_, fun hext => ?_⟩
        · rw [List.length_append]
          omega
        · have hlow := hmin hext
          have := List.length_pos_iff.mpr hext
          rw [List.length_append]
          omega
      · refine Or.inr ⟨herr, hfull, ?_⟩
        rw [List.length_append]
        omega
  by_cases hstart : start = 0
  · subst hstart
    have hnil := h.nil_of_zero
    subst hnil
    have hrun : fat32EnsureStart 0 (needed + 1) =
        Prog.orElse fat32AllocCluster .nospc := by
      rw [fat32EnsureStart, if_neg hneeded, if_pos rfl]
    rw [hrun]
    rcases fat32AllocCluster_spec g with ⟨fresh, v₁, halloc, hspec⟩ | ⟨halloc, hnone⟩
    · have hone := Grown.of_allocated hspec
      obtain ⟨ext, v', hgrown, hcases⟩ := hrest (hone.geometry g)
        (hone.holds.chain_of_ne_zero hspec.free.1.ne_zero)
      refine Or.inr ⟨fresh, v₁, [fresh] ++ ext, v', Prog.orElse_ok halloc _, hone.trans hgrown,
        by simp, fun _ => hspec.free.1.ne_zero, ?_⟩
      rcases hcases with ⟨hok, hle, hmin⟩ | hcases
      · refine Or.inl ⟨hok, hle, fun _ => ?_⟩
        by_cases hext : ext = []
        · subst hext
          simp only [List.nil_append, List.append_nil, List.length_singleton] at hle ⊢
          omega
        · exact hmin hext
      · exact Or.inr hcases
    · exact Or.inl ⟨Prog.orElse_err halloc _, rfl, hneeded, hnone⟩
  · have hchain := h.chain_of_ne_zero hstart
    obtain ⟨ext, v', hgrown, hcases⟩ := hrest g hchain
    refine Or.inr ⟨start, v, ext, v', ?_, hgrown, fun _ => rfl, fun _ => hstart, hcases⟩
    rw [fat32EnsureStart, if_neg hneeded, if_neg hstart, Prog.pure_apply]

end EnsureChain

end OsAgentLab
