/-
Create, mkdir and unlink as updates of one entry of a well-formed volume.
-/
import OsAgentLab.Fat32.TreeUpdate
import OsAgentLab.Fat32.DirShape

namespace OsAgentLab

section NewDir

/-- The dot slots are dot entries of any directory. -/
theorem isDot_hitAt {place : Nat → Nat × Nat} {st : LfnState} (h : st.Inert) (i : Nat)
    {short : List UInt8} {name : CName} (hshort : short = padTo 11 name)
    (hname : name = dotName ∨ name = dotDotName) (attr : UInt8) (cluster size : Nat) :
    (hitAt place st i (mkDirent short attr cluster size)).isDot = true := by
  have hlen : short.length = 11 := by
    rcases hname with rfl | rfl <;> rw [hshort] <;> decide
  simp only [DirHit.isDot, hitAt, LfnState.entryName_inert h]
  rw [mkDirent_name hlen, hshort]
  rcases hname with rfl | rfl
  · decide
  · decide

/-- The dot slots are live entries. -/
theorem mkDirent_dot_isEntry {short : List UInt8} {name : CName} (hshort : short = padTo 11 name)
    (hname : name = dotName ∨ name = dotDotName) (cluster : Nat) :
    (mkDirent short 0x10 cluster 0).isEntry = true := by
  have hfirst : mkDirent short 0x10 cluster 0 0 = 46 := by
    rcases hname with rfl | rfl <;> rw [hshort] <;> rfl
  rw [RawDirent.isEntry, RawDirent.isEnd, RawDirent.isDeleted, RawDirent.isLfn,
    RawDirent.isVolume, mkDirent_attr, hfirst]
  decide

/-- A new directory lists its two dot entries. -/
theorem newDir_listing {v : Vol} {m : List Nat} {cluster parent : Nat} {rest : List RawDirent}
    (hraws : v.raws m = dotRaw cluster :: dotDotRaw parent :: rest)
    (hrest : ∀ raw ∈ rest, raw.isEnd = true) (hc : cluster < 4294967296) (hc0 : cluster ≠ 0)
    (hp : parent < 4294967296) (hp0 : parent ≠ 0) :
    CleanTail (v.raws m) ∧ ∀ sub ∈ v.listing m, sub.isDot = true ∧ sub.raw.cluster ≠ 0 := by
  have hdot : (dotRaw cluster).isEntry = true := mkDirent_dot_isEntry rfl (Or.inl rfl) cluster
  have hdd : (dotDotRaw parent).isEntry = true := mkDirent_dot_isEntry rfl (Or.inr rfl) parent
  have hends : NoEnd [dotRaw cluster, dotDotRaw parent] := by
    intro raw hraw
    rcases List.mem_pair.mp hraw with rfl | rfl
    · exact RawDirent.isEnd_of_isEntry hdot
    · exact RawDirent.isEnd_of_isEntry hdd
  have hsplit : v.raws m = [dotRaw cluster, dotDotRaw parent] ++ rest := hraws
  constructor
  · rw [hsplit]
    exact CleanTail.prepend hends (List.pairwise_of_forall_mem_list fun _ _ b hb _ => hrest b hb)
  · intro sub hsub
    rw [Vol.listing, hsplit, hitsFrom_append hends, hitsFrom_ends hrest, List.append_nil,
      show [dotRaw cluster, dotDotRaw parent] = [dotRaw cluster] ++ [dotDotRaw parent] from rfl,
      hitsFrom_append (.singleton (RawDirent.isEnd_of_isEntry hdot)), hitsFrom_singleton hdot,
      hitsFrom_singleton hdd] at hsub
    rcases List.mem_append.mp hsub with hsub | hsub
    · rw [List.mem_singleton.mp hsub]
      refine ⟨isDot_hitAt LfnState.init_inert _ rfl (Or.inl rfl) _ _ _, ?_⟩
      simp only [hitAt, dotRaw, mkDirent_cluster _ _ hc]
      exact hc0
    · rw [List.mem_singleton.mp hsub]
      refine ⟨isDot_hitAt ?_ _ rfl (Or.inr rfl) _ _ _, ?_⟩
      · rw [show [dotRaw cluster] = [] ++ [dotRaw cluster] from rfl, LfnState.afterAll_concat,
          LfnState.after_entry _ hdot]
        exact LfnState.drop_inert _
      · simp only [hitAt, dotDotRaw, mkDirent_cluster _ _ hp]
        exact hp0

end NewDir

section Updates

variable {v v' v₁ v₂ : Vol} {d : Nat} {l ext : List Nat}

/-- Cluster numbers fit into the fields of an entry. -/
theorem Geometry.inData_lt (g : Geometry v) {c : Nat} (h : v.InData c) : c < 4294967296 := by
  have := g.inData_lt_eoc h
  simp only [fat32Eoc] at this
  omega

/-- Growing a directory changes no entry. -/
theorem Grown.treeUpdate (h : Grown v l ext d v') (w : WellFormed v) (hdir : v.IsDir d)
    (hl : v.Chain d l) : TreeUpdate v v' d (v.raws l).length l (l ++ ext) := by
  have hlist := h.listing (.of_chain hl)
  have hold : ∀ hit ∈ v'.listing (l ++ ext), hit ∈ v.listing l := fun hit hmem => by
    rwa [hlist] at hmem
  exact
    { dir := hdir
      chain := hl
      shape := h.shape
      chain' := h.holds.chain_of_ne_zero (IsChain.head_node hl).ne_zero
      clean := h.cleanTail (.of_chain hl) (w.clean d l hdir hl)
      grown := fun x hx => (List.mem_append.mp hx).imp id (h.free x)
      next := fun x hfree hxl _ => h.next x hxl fun hext => hfree (h.free x hext)
      data := fun x hfree _ _ => h.store_data_of_not_mem fun hext => hfree (h.free x hext)
      kept := fun hit hmem _ => hold hit hmem
      own := fun hit hmem hidx => by
        have hlt := (hitsFrom_index.1 hit (hold hit hmem)).2
        omega }

variable {name : CName} {attr : UInt8} {short : List UInt8} {needsLfn : Bool}
  {left free right : List RawDirent} {own : List Nat} {added : AddedEntry}

/-- The clusters of a new object lie apart from those of its directory. -/
theorem EntryAdded.own_apart (h : EntryAdded v d l ext name attr short needsLfn left free right
    own added v₁ v₂ v') (hl : v.Chain d l) {x : Nat} (hx : x ∈ own) :
    v.Free x ∧ x ∉ l ++ ext := by
  have hfree := h.prepared.free x hx
  exact ⟨((Grown.free_iff (.of_chain hl) h.grown).mp hfree).1, fun hmem => h.grown.holds.not_free hmem hfree⟩

/-- A new entry changes nothing but its slots and the clusters it takes. -/
theorem EntryAdded.frame (h : EntryAdded v d l ext name attr short needsLfn left free right
    own added v₁ v₂ v') (hl : v.Chain d l) {x : Nat} (hfree : ¬ v.Free x) :
    (x ∉ l → v'.store.next x = v.store.next x) ∧
      (x ∉ l → v'.store.data x = v.store.data x) := by
  have hext : x ∉ ext := fun hx => hfree (h.grown.free x hx)
  have hown : x ∉ own := fun hx => hfree (h.own_apart hl hx).1
  constructor
  · intro hx
    rw [h.written.next, h.prepared.next x hown, h.grown.next x hx hext]
  · intro hx
    have hnot : x ∉ l ++ ext := fun hmem => (List.mem_append.mp hmem).elim hx hext
    rw [h.written.data x hnot, h.prepared.data x hown, h.grown.store_data_of_not_mem hext]

theorem EntryAdded.shape (h : EntryAdded v d l ext name attr short needsLfn left free right
    own added v₁ v₂ v') : SameShape v v' :=
  h.grown.shape.trans (h.prepared.shape.trans h.written.shape)

theorem EntryAdded.chain (h : EntryAdded v d l ext name attr short needsLfn left free right
    own added v₁ v₂ v') (hl : v.Chain d l) : v'.Chain d (l ++ ext) :=
  h.written.chain (h.prepared.chain_frame
    (h.grown.holds.chain_of_ne_zero (IsChain.head_node hl).ne_zero))

/-- A new directory is listed with its dot entries. -/
theorem EntryAdded.newDir (h : EntryAdded v d l ext name attr short needsLfn left free right
    own added v₁ v₂ v') (g : Geometry v) (hl : v.Chain d l) (hdir : attr &&& 0x10 ≠ 0) :
    CleanTail (v'.raws own) ∧ ∀ sub ∈ v'.listing own, sub.isDot = true ∧ sub.raw.cluster ≠ 0 := by
  obtain ⟨hown, rest, hraws, hrest⟩ := h.prepared.dir hdir
  have hhead := IsChain.head_node hl
  have hin : v.InData added.cluster := (h.own_apart hl (by rw [hown]; simp)).1.1
  refine newDir_listing ?_ hrest (g.inData_lt hin) hin.ne_zero (g.inData_lt hhead) hhead.ne_zero
  rw [h.written.shape.raws fun x hx => h.written.data x (h.own_apart hl hx).2]
  exact hraws

/-- Create and mkdir as an update. -/
theorem EntryAdded.treeUpdate (h : EntryAdded v d l ext name attr short needsLfn left free right
    own added v₁ v₂ v') (w : WellFormed v) (hdir : v.IsDir d) (hl : v.Chain d l)
    (hname : name.length ≤ 255) (hattr : CreateAttr attr) (hshort : ShortFieldOk short) :
    TreeUpdate v v' d added.index l (l ++ ext) := by
  obtain ⟨pre, post, hold, hnew, hclean⟩ :=
    h.listing hl (w.clean d l hdir hl) hname hattr hshort
  have hkept : ∀ hit ∈ v'.listing (l ++ ext), hit.entryIndex ≠ added.index →
      hit ∈ v.listing l := by
    intro hit hmem hidx
    rw [hnew] at hmem
    rw [hold]
    rcases List.mem_append.mp hmem with hmem | hmem
    · exact List.mem_append_left _ hmem
    · rcases List.mem_cons.mp hmem with rfl | hmem
      · exact absurd rfl hidx
      · exact List.mem_append_right _ hmem
  have hin : v'.Holds added.cluster own := h.written.holds h.prepared.holds
  have hlt : added.cluster < 4294967296 := by
    by_cases hzero : added.cluster = 0
    · omega
    · exact w.geometry.inData_lt (h.shape.inData.mp
        (IsChain.head_node (hin.chain_of_ne_zero hzero)))
  have hown : OwnEntry v v' d (l ++ ext)
      (EntryAdded.newHit v' (l ++ ext) name attr short needsLfn left added) := by
    have hcluster : (EntryAdded.newHit v' (l ++ ext) name attr short needsLfn left
        added).raw.cluster = added.cluster := mkDirent_cluster _ _ hlt _
    have hisDir : (EntryAdded.newHit v' (l ++ ext) name attr short needsLfn left
        added).raw.isDir = true → attr &&& 0x10 ≠ 0 := by
      intro hd
      rw [EntryAdded.newHit, hitAt, mkDirent_isDir short hattr] at hd
      exact of_decide_eq_true hd
    refine ⟨fun hd => ?_, fun _ => ⟨own, by rw [hcluster]; exact hin, fun x hx =>
      Or.inr (h.own_apart hl hx), fun hd => h.newDir w.geometry hl (hisDir hd)⟩⟩
    obtain ⟨howns, _⟩ := h.prepared.dir (hisDir hd)
    rw [hcluster]
    exact (h.own_apart hl (by rw [howns]; simp)).1.1.ne_zero
  exact
    { dir := hdir
      chain := hl
      shape := h.shape
      chain' := h.chain hl
      clean := hclean
      grown := fun x hx => (List.mem_append.mp hx).imp id (h.grown.free x)
      next := fun x hfree hxl _ => (h.frame hl hfree).1 hxl
      data := fun x hfree hxl _ => (h.frame hl hfree).2 hxl
      kept := hkept
      own := fun hit hmem hidx => by
        have hmem' : EntryAdded.newHit v' (l ++ ext) name attr short needsLfn left added ∈
            v'.listing (l ++ ext) := by
          rw [hnew]
          simp
        rw [Vol.listing_index_inj v' (l ++ ext) hmem hmem' hidx]
        exact hown }

/-- Unlink as an update. -/
theorem EntryRemoved.treeUpdate {m : List Nat} {hit : DirHit} {run : List RawDirent}
    (h : EntryRemoved v l m hit left run right v') (w : WellFormed v) (hdir : v.IsDir d)
    (hl : v.Chain d l) (hm : ∀ x ∈ m, v.Owns (.entry d hit.entryIndex) x) :
    TreeUpdate v v' d hit.entryIndex l l := by
  obtain ⟨pre, post, hold, hnew, hclean⟩ := h.listing (w.clean d l hdir hl)
  have hmem : hit ∈ v.listing l := by
    rw [hold]
    simp
  have hpair : (v.listing l).Pairwise fun a b => a.entryIndex < b.entryIndex := hitsFrom_index.2
  rw [hold] at hpair
  obtain ⟨_, hright, hcross⟩ := List.pairwise_append.mp hpair
  obtain ⟨od, hod⟩ := hdir
  have hapart : ∀ x ∈ l, x ∉ m := by
    intro x hx hxm
    have hown : v.Owns od x := (w.owns_chain (w.head_of_dir hod) hl).mpr hx
    exact w.dir_ne_self hod _ (w.apart hown (hm x hxm))
  exact
    { dir := ⟨od, hod⟩
      chain := hl
      shape := h.shape
      chain' := Vol.Chain.congr h.shape hl fun x hx => by rw [h.next, if_neg (hapart x hx)]
      clean := hclean
      grown := fun x hx => Or.inl hx
      next := fun x _ _ hown => by rw [h.next, if_neg fun hx => hown (hm x hx)]
      data := fun x _ hxl _ => h.data x hxl
      kept := fun other hother _ => by
        rw [hnew] at hother
        rw [hold]
        exact (List.mem_append.mp hother).elim (List.mem_append_left _)
          fun hin => List.mem_append_right _ (List.mem_cons_of_mem _ hin)
      own := fun other hother hidx => by
        rw [hnew] at hother
        rcases List.mem_append.mp hother with hin | hin
        · have := hcross other hin hit List.mem_cons_self
          omega
        · have := (List.pairwise_cons.mp hright).1 other hin
          omega }

end Updates

end OsAgentLab
