/-
Writing directory slots: slot addresses, single writes, runs of writes, and
the search for free slots with the growth of the directory.
-/
import OsAgentLab.Fat32.DirSpec

namespace OsAgentLab

variable {v v' v'' : Vol} {c : Nat} {l : List Nat}

/-- The directory with the clusters `l` has been given the slots `raws`;
successors and all other clusters are as they were. -/
structure SlotsWritten (v : Vol) (l : List Nat) (raws : List RawDirent) (v' : Vol) : Prop where
  shape : SameShape v v'
  next : v'.store.next = v.store.next
  data : ∀ x, x ∉ l → v'.store.data x = v.store.data x
  raws : v'.raws l = raws

namespace SlotsWritten

variable {raws raws' : List RawDirent}

theorem refl (v : Vol) (l : List Nat) : SlotsWritten v l (v.raws l) v :=
  ⟨SameShape.refl v, rfl, fun _ _ => rfl, rfl⟩

theorem trans (h : SlotsWritten v l raws v') (h' : SlotsWritten v' l raws' v'') :
    SlotsWritten v l raws' v'' where
  shape := h.shape.trans h'.shape
  next := h'.next.trans h.next
  data x hx := (h'.data x hx).trans (h.data x hx)
  raws := h'.raws

theorem chain (h : SlotsWritten v l raws v') {a : Nat} {m : List Nat} (hm : v.Chain a m) :
    v'.Chain a m :=
  Vol.Chain.congr h.shape hm fun x _ => by rw [h.next]

theorem holds (h : SlotsWritten v l raws v') {a : Nat} {m : List Nat} (hm : v.Holds a m) :
    v'.Holds a m :=
  hm.congr h.shape fun x _ => by rw [h.next]

theorem free_iff (h : SlotsWritten v l raws v') {x : Nat} : v'.Free x ↔ v.Free x := by
  rw [Vol.Free, Vol.Free, h.shape.inData, h.next]

end SlotsWritten

/-- `fat32_dir_entry_location` of a slot in the `k`-th cluster of the chain. -/
theorem fat32DirEntryLocation_cluster (hbytes : v.fs.bytesPerSector = 512)
    (hspc : v.fs.sectorsPerCluster < 256) {k e x : Nat}
    (hget : fat32GetClusterAt c k v = (.ok x, v)) (hk : k < 4294967296)
    (he : e < v.slotsPerCluster) :
    fat32DirEntryLocation c (k * v.slotsPerCluster + e) v =
      (.ok (u32 (fat32ClusterToLba v.fs x + e / 16), 32 * (e % 16)), v) := by
  have hper : u32 (v.fs.sectorsPerCluster * v.fs.bytesPerSector) / 32 = v.slotsPerCluster := by
    rw [hbytes, u32_of_lt (by omega), Vol.slotsPerCluster]
    omega
  have hdiv : (k * v.slotsPerCluster + e) / v.slotsPerCluster = k := by
    rw [Nat.mul_comm, Nat.mul_add_div (by omega), Nat.div_eq_of_lt he, Nat.add_zero]
  have hmod : (k * v.slotsPerCluster + e) % v.slotsPerCluster = e := by
    rw [Nat.mul_comm, Nat.mul_add_mod, Nat.mod_eq_of_lt he]
  have hlt : e < 4096 := by
    rw [Vol.slotsPerCluster] at he
    omega
  have he32 : u32 e = e := u32_of_lt (by omega)
  have hbyte : u32 (e * 32) = e * 32 := u32_of_lt (by omega)
  rw [fat32DirEntryLocation, Prog.bind_ok (show getFs v = (.ok v.fs, v) from rfl)]
  simp only [hper, hdiv, hmod, u32_of_lt hk, he32, hbyte]
  rw [Prog.bind_ok (Prog.orElse_ok hget _), Prog.pure_apply,
    show e * 32 / 512 = e / 16 by omega, show e * 32 % 512 = 32 * (e % 16) by omega]

/-- `fat32_dir_entry_location` delivers the address of the slot. -/
theorem fat32DirEntryLocation_eq (g : Geometry v) (h : v.Chain c l) {i : Nat}
    (hi : i < (v.raws l).length) :
    fat32DirEntryLocation c i v = (.ok (v.place l i), v) := by
  rw [Vol.raws_length] at hi
  have hdiv : i / v.slotsPerCluster < l.length :=
    Nat.div_lt_of_lt_mul (by rwa [Nat.mul_comm] at hi)
  have hmod : i % v.slotsPerCluster < v.slotsPerCluster := Nat.mod_lt _ g.slotsPerCluster_pos
  have hle := g.chain_length_le h
  have hcount := g.count_lt
  have hget := fat32GetClusterAt_eq g h (i / v.slotsPerCluster)
  rw [dif_pos hdiv] at hget
  have hin := IsChain.node_of_mem h _ (List.get_mem l ⟨i / v.slotsPerCluster, hdiv⟩)
  have hloc := fat32DirEntryLocation_cluster g.bytes g.spc_lt hget (by omega) hmod
  have hs : i % v.slotsPerCluster / 16 < v.fs.sectorsPerCluster := by
    simp only [Vol.slotsPerCluster] at hmod ⊢
    omega
  rw [Nat.mul_comm, Nat.div_add_mod] at hloc
  rw [hloc, g.sectorLba_u32 hin hs, Vol.place, List.getD_eq_getElem _ _ hdiv, List.get_eq_getElem]

/-- `fat32_write_dir_entry` replaces one slot of the directory. -/
theorem fat32WriteDirEntry_eq (g : Geometry v) (h : v.Chain c l) {i : Nat}
    (hi : i < (v.raws l).length) (raw : RawDirent) :
    ∃ v', fat32WriteDirEntry c i raw v = (.ok (), v') ∧ v'.fs = v.fs ∧
      SlotsWritten v l ((v.raws l).set i raw) v' := by
  have hlen := hi
  rw [Vol.raws_length] at hlen
  have hdiv : i / v.slotsPerCluster < l.length :=
    Nat.div_lt_of_lt_mul (by rwa [Nat.mul_comm] at hlen)
  have hmod : i % v.slotsPerCluster < v.slotsPerCluster := Nat.mod_lt _ g.slotsPerCluster_pos
  have hmem := List.getElem_mem hdiv
  have hin := IsChain.node_of_mem h _ hmem
  have hs : i % v.slotsPerCluster / 16 < v.fs.sectorsPerCluster := by
    simp only [Vol.slotsPerCluster] at hmod ⊢
    omega
  generalize hcl : l[i / v.slotsPerCluster] = cl at hin hmem
  generalize hidx : i % v.slotsPerCluster = e at hs hmod
  have hplace : v.place l i = (v.sectorLba cl (e / 16), 32 * (e % 16)) := by
    rw [Vol.place, List.getD_eq_getElem _ _ hdiv, hcl, hidx]
  obtain ⟨sector, hread, _, hbytes⟩ := blkRead_sector g hin hs
  obtain ⟨v', hwrite, hshape, hfs, hstore⟩ :=
    blkWrite_sector g hin hs (putRaw sector (32 * (e % 16)) raw)
  have hdata : ∀ k, v'.store.data cl k =
      overlay (v.store.data cl) (32 * e) 32 (fun k => if h : k < 32 then raw ⟨k, h⟩ else 0) k := by
    intro k
    rw [hstore, ClusterStore.put_data, if_pos rfl]
    by_cases hk : 512 * (e / 16) ≤ k ∧ k < 512 * (e / 16) + 512
    · rw [overlay_of_mem hk, putRaw]
      by_cases hslot : 32 * e ≤ k ∧ k < 32 * e + 32
      · rw [overlay_of_mem (by omega), overlay_of_mem hslot]
        have heq : k - 512 * (e / 16) - 32 * (e % 16) = k - 32 * e := by omega
        simp only [heq]
      · rw [overlay_of_not_mem (by omega), overlay_of_not_mem hslot, hbytes _ (by omega)]
        congr 1
        omega
    · rw [overlay_of_not_mem hk, overlay_of_not_mem (by omega)]
  refine ⟨v', ?_, hfs, hshape, ?_, ?_, ?_⟩
  · rw [fat32WriteDirEntry, Prog.bind_ok (Prog.orElse_ok (fat32DirEntryLocation_eq g h hi) _)]
    simp only [hplace]
    rw [Prog.bind_ok (Prog.orElse_ok hread _)]
    exact Prog.orElse_ok hwrite _
  · rw [hstore]
    rfl
  · intro x hx
    have hne : x ≠ cl := by
      rintro rfl
      exact hx hmem
    rw [hstore, ClusterStore.put_data, if_neg hne]
  · -- slot by slot; a cluster occurs only once in the chain
    have hspc := hshape.slotsPerCluster
    have hlen' : (v'.raws l).length = (v.raws l).length := by
      rw [Vol.raws_length, Vol.raws_length, hspc]
    refine List.ext_getElem? fun j => ?_
    by_cases hj : j < (v.raws l).length
    · rw [Vol.raws_getElem? v' l (hlen' ▸ hj), hspc, List.getElem?_set]
      have hjl := hj
      rw [Vol.raws_length] at hjl
      have hjdiv : j / v.slotsPerCluster < l.length :=
        Nat.div_lt_of_lt_mul (by rwa [Nat.mul_comm] at hjl)
      have hnodup := g.chain_nodup h
      rw [List.getD_eq_getElem _ _ hjdiv]
      by_cases hij : i = j
      · subst hij
        rw [if_pos rfl, if_pos hi, hcl, hidx]
        congr 1
        funext k
        have hk := k.isLt
        rw [Vol.rawIn, rawAt, hdata, overlay_of_mem (by omega)]
        simp only [Nat.add_sub_cancel_left]
        rw [dif_pos hk]
      · rw [if_neg hij, Vol.raws_getElem? v l hj, List.getD_eq_getElem _ _ hjdiv]
        congr 1
        by_cases hsame : l[j / v.slotsPerCluster] = cl
        · have hquot : j / v.slotsPerCluster = i / v.slotsPerCluster := by
            rw [← hcl] at hsame
            exact (List.Nodup.getElem_inj_iff hnodup).mp hsame
          have hrest : j % v.slotsPerCluster ≠ e := by
            intro hrest
            apply hij
            rw [← Nat.div_add_mod i v.slotsPerCluster, ← Nat.div_add_mod j v.slotsPerCluster,
              hquot, hrest, hidx]
          funext k
          have hk := k.isLt
          rw [hsame, Vol.rawIn, Vol.rawIn, rawAt, rawAt, hdata, overlay_of_not_mem (by omega)]
        · funext k
          rw [Vol.rawIn, Vol.rawIn, rawAt, rawAt, hstore, ClusterStore.put_data, if_neg hsame]
    · rw [List.getElem?_eq_none (by omega), List.getElem?_eq_none (by
        rw [List.length_set]
        omega)]

theorem set_middle {α : Type} (left right : List α) (old new : α) :
    (left ++ old :: right).set left.length new = left ++ new :: right := by
  rw [List.set_append_right _ _ (Nat.le_refl _), Nat.sub_self, List.set_cons_zero]

/-- A loop of `fat32_write_dir_entry` calls replaces consecutive slots. -/
theorem fat32WriteRun_eq (g : Geometry v) (h : v.Chain c l) (at' : Nat → Nat)
    (f : Nat → RawDirent) (left old right : List RawDirent)
    (hraws : v.raws l = left ++ old ++ right)
    (hat : ∀ i, i < old.length → at' i = left.length + i) :
    ∃ v', Prog.forCount (fun i => fat32WriteDirEntry c (at' i) (f i)) old.length 0 v =
        (.ok (), v') ∧ v'.fs = v.fs ∧
      SlotsWritten v l (left ++ (List.range old.length).map f ++ right) v' := by
  obtain ⟨v', hrun, hfs, hwritten⟩ := Prog.forCount_inv
    (fun i => fat32WriteDirEntry c (at' i) (f i))
    (fun i w => w.fs = v.fs ∧
      SlotsWritten v l (left ++ (List.range i).map f ++ old.drop i ++ right) w)
    old.length 0 v
    ⟨rfl, by
      have hrefl := SlotsWritten.refl v l
      rw [hraws] at hrefl
      simpa using hrefl⟩
    (by
      rintro i w - hi ⟨hfs, hw⟩
      rw [Nat.zero_add] at hi
      have hdrop := List.drop_eq_getElem_cons hi
      have hold : w.raws l =
          (left ++ (List.range i).map f) ++ old[i] :: (old.drop (i + 1) ++ right) := by
        rw [hw.raws, hdrop]
        simp only [List.append_assoc, List.cons_append]
      have hlen : (left ++ (List.range i).map f).length = left.length + i := by simp
      obtain ⟨w', hrun, hfs', hw'⟩ := fat32WriteDirEntry_eq (hw.shape.geometry g)
        (hw.chain h) (i := left.length + i) (by
          rw [hold, List.length_append, hlen, List.length_cons]
          omega) (f i)
      refine ⟨w', ?_, hfs'.trans hfs, ?_⟩
      · rw [hat i hi]
        exact hrun
      · have htrans := hw.trans hw'
        rw [hold, ← hlen, set_middle] at htrans
        rw [List.range_succ, List.map_append]
        simpa using htrans)
  refine ⟨v', hrun, hfs, ?_⟩
  rw [Nat.zero_add, List.drop_length, List.append_nil] at hwritten
  exact hwritten

section FindFree

theorem findFreeCluster_eq (g : Geometry v) {base : Nat} (hc : v.InData c)
    {place : Nat → Nat × Nat}
    (hplace : ∀ i, i < v.slotsPerCluster →
      place (base + i) = (v.sectorLba c (i / 16), 32 * (i % 16)))
    (needed : Nat) (run : FreeRun) :
    findFreeCluster v needed c base run =
      Flow.loop (freeRunStep needed) (slotsFrom place base (v.clusterRaws c)) run := by
  rw [findFreeCluster]
  refine loop_sectors g hc base place hplace (freeRunStep needed) _ ?_ run
  intro s hs sector hread
  funext st
  simp only [g.sectorLba_u32 hc hs, hread]

/-- The search over the clusters is one search over the slots. -/
theorem findFreeChain_eq (g : Geometry v) (place : Nat → Nat × Nat) (needed : Nat)
    (h : v.Chain c l) (fuel : Nat) (hfuel : l.length < fuel) (last : Nat) {base : Nat}
    (hplace : v.PlacedAt place base l) (run : FreeRun) :
    findFreeChain v needed fuel c last base run =
      some (match Flow.loop (freeRunStep needed) (slotsFrom place base (v.raws l)) run with
        | .done result => .done result
        | .next run' => .next
            ⟨l.getLast (IsChain.ne_nil h), base + (v.raws l).length, run'⟩) := by
  induction l generalizing c fuel last base run with
  | nil => exact absurd rfl (IsChain.ne_nil h)
  | cons head rest ih =>
      obtain ⟨tail, htail⟩ := IsChain.head_eq h
      obtain ⟨rfl, rfl⟩ := List.cons.inj htail
      have hc := IsChain.head_node h
      cases fuel with
      | zero => omega
      | succ fuel =>
          rw [findFreeChain, if_neg (Nat.not_le_of_lt (g.inData_lt_eoc hc)),
            findFreeCluster_eq g hc (hplace.head), Vol.raws_cons, slotsFrom_append,
            Flow.loop_append]
          cases Flow.loop (freeRunStep needed) (slotsFrom place base (v.clusterRaws head)) run with
          | done result => rfl
          | next run' =>
              simp only [fat32ReadFatEntry_eq g hc.2, Flow.next_bind, Vol.clusterRaws_length]
              by_cases hrest : rest = []
              · subst hrest
                have hend : fat32Eoc ≤ v.store.next head := by
                  have := IsChain.next_getLast h
                  simpa using this
                cases fuel with
                | zero => simp at hfuel
                | succ fuel =>
                    rw [findFreeChain, if_pos hend]
                    simp [slotsFrom, Vol.slotsPerCluster]
              · have hchain := IsChain.rest_chain h hrest
                have hbase : base + 16 * v.fs.sectorsPerCluster = base + v.slotsPerCluster := rfl
                rw [hbase, ih hchain fuel (Nat.lt_of_succ_lt_succ hfuel) head
                  (hplace.tail g.slotsPerCluster_pos) run', List.length_append,
                  Vol.clusterRaws_length, Nat.add_assoc, List.getLast_cons hrest]

/-- The place that `fat32_dir_find_free` delivers: `needed` free slots behind
a used one or at the front. -/
structure FreePlace (raws : List RawDirent) (needed start : Nat) (left free right :
    List RawDirent) : Prop where
  split : raws = left ++ free ++ right
  used : EndsUsed left
  allFree : ∀ raw ∈ free, raw.isFree = true
  len : free.length = needed
  start : start = left.length

/-- `raws` has no `needed` free slots in a row; the last `trailing` slots are
the free ones at its end. -/
def NoPlace (raws : List RawDirent) (needed trailing : Nat) : Prop :=
  trailing < needed ∧ ∃ left free, raws = left ++ free ∧ EndsUsed left ∧
    (∀ raw ∈ free, raw.isFree = true) ∧ free.length = trailing

/-- `fat32_dir_find_free`: either the directory has room, or it grows by as
many clusters as the free slots at its end leave missing, or the volume is
full before that. -/
theorem fat32DirFindFree_spec (g : Geometry v) (h : v.Chain c l) {needed : Nat}
    (hneeded : 0 < needed) :
    (∃ start left free right, fat32DirFindFree c needed v = (.ok start, v) ∧
        FreePlace (v.raws l) needed start left free right) ∨
      ∃ trailing ext v', NoPlace (v.raws l) needed trailing ∧ Grown v l ext c v' ∧
        ((∃ start left free right, fat32DirFindFree c needed v = (.ok start, v') ∧
            FreePlace (v'.raws (l ++ ext)) needed start left free right ∧ ext ≠ [] ∧
            needed ≤ trailing + v.slotsPerCluster * ext.length ∧
            trailing + v.slotsPerCluster * (ext.length - 1) < needed) ∨
          (fat32DirFindFree c needed v = (.err .nospc, v') ∧ (∀ x, ¬ v'.Free x) ∧
            trailing + v.slotsPerCluster * ext.length < needed)) := by
  have hle := g.chain_length_le h
  have hcount := g.count_lt
  have hchain := findFreeChain_eq g (v.place l) needed h (fat32Eoc + 1)
    (by simp only [fat32Eoc]; omega) c (v.placedAt_zero l) ⟨0, 0⟩
  have hstart : FreeRun.At needed [] [] ⟨0, 0⟩ :=
    ⟨by simp [EndsUsed], by simp, rfl, hneeded, fun h => absurd rfl h⟩
  have hloop := loop_freeRunStep (v.place l) (v.raws l) hstart
  simp only [List.length_nil, Nat.add_zero, List.nil_append] at hloop
  rcases hloop with ⟨left, free, right, hsplit, hused, hfree, hlen, hrun⟩ |
    ⟨left, free, run, hsplit, hat, hrun⟩
  · refine Or.inl ⟨left.length, left, free, right, ?_, hsplit, hused, hfree, hlen, rfl⟩
    rw [hrun] at hchain
    simp only [fat32DirFindFree, hchain]
  · right
    rw [hrun] at hchain
    have hper : u32 (v.fs.sectorsPerCluster * v.fs.bytesPerSector) / 32 = v.slotsPerCluster := by
      have hspc := g.spc_lt
      rw [g.bytes, u32_of_lt (by omega), Vol.slotsPerCluster]
      omega
    have hpos := g.slotsPerCluster_pos
    have hmem := List.getLast_mem (IsChain.ne_nil h)
    -- the index where the new run starts
    have hindex : (if run.len = 0 then 0 + (v.raws l).length else run.start) = left.length := by
      by_cases hnil : free = []
      · rw [if_pos (by rw [hat.len, hnil]; rfl), hsplit, hnil]
        simp
      · have hfpos := List.length_pos_iff.mpr hnil
        rw [if_neg (by rw [hat.len]; omega), hat.start hnil]
    obtain ⟨ext, v', happ, hcases⟩ := fat32Append_spec g v.slotsPerCluster needed hpos
      (needed - free.length) (l.getLast (IsChain.ne_nil h)) free.length
      (IsChain.node_of_mem h _ hmem) (Geometry.chain_next_ne_zero h hmem) (by omega)
    have hgrown := Grown.of_appended g h rfl happ
    refine ⟨free.length, ext, v', ⟨hat.short, left, free, hsplit, hat.used, hat.allFree, rfl⟩,
      hgrown, ?_⟩
    have hcall : fat32DirFindFree c needed v =
        ((do
          fat32Append v.slotsPerCluster needed (needed - free.length)
            (l.getLast (IsChain.ne_nil h)) free.length
          pure left.length : Fs Nat) v) := by
      rw [hat.len] at hindex
      simp only [fat32DirFindFree, hchain, hper, hindex, hat.len]
    rcases hcases with ⟨hok, hle, hmin⟩ | ⟨herr, hfull, hlt⟩
    · left
      have hext : ext ≠ [] := by
        rintro rfl
        have := hat.short
        simp only [List.length_nil, Nat.mul_zero, Nat.add_zero] at hle
        omega
      have hraws : v'.raws (l ++ ext) = left ++ (free ++ v'.raws ext) := by
        rw [Vol.raws_append, hgrown.shape.raws (l := l) (fun x hx =>
          hgrown.store_data_of_not_mem fun hx' =>
            Geometry.chain_not_free h hx (hgrown.free x hx')), hsplit, List.append_assoc]
      have hends : ∀ raw ∈ v'.raws ext, raw.isEnd = true := by
        intro raw hraw
        obtain ⟨x, hx, hraw⟩ := List.mem_flatMap.mp hraw
        refine Vol.clusterRaws_zero ?_ raw hraw
        rw [hgrown.data, if_pos hx]
      have hfree : ∀ raw ∈ free ++ v'.raws ext, raw.isFree = true := by
        intro raw hraw
        rcases List.mem_append.mp hraw with hraw | hraw
        · exact hat.allFree raw hraw
        · exact RawDirent.isFree_of_isEnd (hends raw hraw)
      have hlen : needed ≤ (free ++ v'.raws ext).length := by
        rw [List.length_append, Vol.raws_length, hgrown.shape.slotsPerCluster, Nat.mul_comm]
        exact hle
      refine ⟨left.length, left, (free ++ v'.raws ext).take needed,
        (free ++ v'.raws ext).drop needed, ?_, ⟨?_, hat.used, ?_, ?_, rfl⟩, hext, hle, hmin hext⟩
      · rw [hcall, Prog.bind_ok hok, Prog.pure_apply]
      · rw [List.append_assoc, List.take_append_drop, hraws]
      · intro raw hraw
        exact hfree raw (List.mem_of_mem_take hraw)
      · rw [List.length_take]
        omega
    · right
      refine ⟨?_, hfull, hlt⟩
      rw [hcall, Prog.bind_err herr]

end FindFree

end OsAgentLab
