/-
The bytes of a file: what the copying loops of `fat32_read_op` and
`fat32_write_op` do to the clusters of a chain.
-/
import OsAgentLab.Fat32.File
import OsAgentLab.Fat32.Growth

namespace OsAgentLab

namespace ClusterStore

/-- Two writes next to each other are one write. -/
theorem put_put (st : ClusterStore) (c off n m : Nat) (f g : Nat → UInt8) :
    (st.put c off n f).put c (off + n) m g =
      st.put c off (n + m) fun i => if i < n then f i else g (i - n) := by
  refine ClusterStore.ext rfl ?_
  funext x k
  rw [put_data, put_data, put_data, put_data]
  by_cases hx : x = c
  · rw [if_pos hx, if_pos hx, if_pos rfl]
    by_cases hlow : off ≤ k ∧ k < off + n
    · rw [overlay_of_not_mem (by omega), overlay_of_mem hlow, overlay_of_mem (by omega),
        if_pos (by omega)]
    · by_cases hhigh : off + n ≤ k ∧ k < off + n + m
      · rw [overlay_of_mem hhigh, overlay_of_mem (by omega), if_neg (by omega)]
        congr 1
        omega
      · rw [overlay_of_not_mem hhigh, overlay_of_not_mem hlow, overlay_of_not_mem (by omega)]
  · rw [if_neg hx, if_neg hx, if_neg hx]

/-- A write depends on the bytes in its range only. -/
theorem put_congr (st : ClusterStore) (c off : Nat) {n : Nat} {f g : Nat → UInt8}
    (h : ∀ i, i < n → f i = g i) : st.put c off n f = st.put c off n g := by
  refine ClusterStore.ext rfl ?_
  funext x k
  rw [put_data, put_data]
  by_cases hx : x = c
  · rw [if_pos hx, if_pos hx]
    by_cases hk : off ≤ k ∧ k < off + n
    · rw [overlay_of_mem hk, overlay_of_mem hk, h _ (by omega)]
    · rw [overlay_of_not_mem hk, overlay_of_not_mem hk]
  · rw [if_neg hx, if_neg hx]

theorem put_nothing (st : ClusterStore) (c off : Nat) (f : Nat → UInt8) :
    st.put c off 0 f = st := by
  refine ClusterStore.ext rfl ?_
  funext x k
  rw [put_data]
  by_cases hx : x = c
  · rw [if_pos hx, overlay_of_not_mem (by omega), hx]
  · rw [if_neg hx]

/-- Reading one sector and writing it back with new bytes in the middle. -/
theorem put_sector (st : ClusterStore) (c base off n : Nat) {old f : Nat → UInt8}
    (hold : ∀ i, i < 512 → old i = st.data c (base + i)) (hn : off + n ≤ 512) :
    st.put c base 512 (overlay old off n f) = st.put c (base + off) n f := by
  refine ClusterStore.ext rfl ?_
  funext x k
  rw [put_data, put_data]
  by_cases hx : x = c
  · rw [if_pos hx, if_pos hx]
    by_cases hin : base ≤ k ∧ k < base + 512
    · rw [overlay_of_mem hin]
      by_cases hmid : base + off ≤ k ∧ k < base + off + n
      · rw [overlay_of_mem hmid, overlay_of_mem (by omega)]
        congr 1
        omega
      · rw [overlay_of_not_mem hmid, overlay_of_not_mem (by omega), hold _ (by omega)]
        congr 1
        omega
    · rw [overlay_of_not_mem hin, overlay_of_not_mem (by omega)]
  · rw [if_neg hx, if_neg hx]

end ClusterStore

variable {v v' : Vol} {c : Nat} {l : List Nat}

namespace Vol

/-- The bytes of the clusters `l`, one cluster after the other. -/
def bytes (v : Vol) (l : List Nat) (k : Nat) : UInt8 :=
  v.store.data (l.getD (k / v.clusterBytes) 0) (k % v.clusterBytes)

/-- The number of bytes that `l` has room for. -/
def room (v : Vol) (l : List Nat) : Nat := l.length * v.clusterBytes

end Vol

theorem Geometry.clusterBytes_pos (g : Geometry v) : 0 < v.clusterBytes := by
  have := g.spc_pos
  rw [Vol.clusterBytes]
  omega

theorem Geometry.clusterBytes_lt (g : Geometry v) : v.clusterBytes < 131072 := by
  have := g.spc_lt
  rw [Vol.clusterBytes]
  omega

theorem Geometry.clusterSize_eq (g : Geometry v) : v.fs.clusterSize = v.clusterBytes := by
  have := g.spc_lt
  rw [Fat32Fs.clusterSize, Vol.clusterBytes, g.bytes]
  exact u32_of_lt (by omega)

theorem Vol.bytes_head (v : Vol) (head : Nat) (rest : List Nat) {k : Nat}
    (hk : k < v.clusterBytes) : v.bytes (head :: rest) k = v.store.data head k := by
  rw [Vol.bytes, Nat.div_eq_of_lt hk, Nat.mod_eq_of_lt hk, List.getD_cons_zero]

theorem Vol.bytes_tail (v : Vol) (hpos : 0 < v.clusterBytes) (head : Nat) (rest : List Nat)
    (k : Nat) : v.bytes (head :: rest) (v.clusterBytes + k) = v.bytes rest k := by
  rw [Vol.bytes, Vol.bytes, Nat.add_comm, Nat.add_div_right _ hpos, Nat.add_mod_right,
    List.getD_cons_succ]

theorem Vol.bytes_drop (v : Vol) (hpos : 0 < v.clusterBytes) (l : List Nat) (n k : Nat) :
    v.bytes (l.drop n) k = v.bytes l (n * v.clusterBytes + k) := by
  rw [Vol.bytes, Vol.bytes, Nat.add_comm, Nat.add_mul_div_right _ _ hpos,
    Nat.add_mul_mod_self_right]
  congr 1
  rw [List.getD_eq_getElem?_getD, List.getD_eq_getElem?_getD, List.getElem?_drop, Nat.add_comm]

theorem SameShape.bytes_eq (h : SameShape v v') {l : List Nat}
    (hdata : ∀ x ∈ l, v'.store.data x = v.store.data x) {k : Nat} (hk : k < v.room l) :
    v'.bytes l k = v.bytes l k := by
  rw [Vol.bytes, Vol.bytes, h.clusterBytes]
  have hdiv : k / v.clusterBytes < l.length := by
    refine Nat.div_lt_of_lt_mul ?_
    rw [Nat.mul_comm]
    exact hk
  rw [List.getD_eq_getElem _ _ hdiv, hdata _ (List.getElem_mem hdiv)]

/-- `fat32SkipClusters` follows the chain, or stops at its end. -/
theorem fat32SkipClusters_eq (g : Geometry v) (h : v.Chain c l) (skip : Nat) :
    fat32SkipClusters skip c v = (.ok l[skip]?, v) := by
  induction skip generalizing c l with
  | zero =>
      obtain ⟨rest, rfl⟩ := IsChain.head_eq h
      rfl
  | succ skip ih =>
      obtain ⟨rest, rfl⟩ := IsChain.head_eq h
      rw [fat32SkipClusters,
        Prog.bind_ok (Prog.orElse_ok (fat32ReadFatEntry_eq g (IsChain.head_node h).2) _)]
      by_cases hrest : rest = []
      · subst hrest
        have hend : fat32Eoc ≤ v.store.next c := by
          have := IsChain.next_getLast h
          simpa using this
        rw [if_pos hend, Prog.pure_apply]
        simp
      · have hchain := IsChain.rest_chain h hrest
        have hlt := g.inData_lt_eoc (IsChain.head_node hchain)
        rw [if_neg (Nat.not_le_of_lt hlt), ih hchain, List.getElem?_cons_succ]

section Write

/-- A volume on which only bytes of the clusters `l` have changed. -/
structure BytesWritten (v : Vol) (l : List Nat) (v' : Vol) : Prop where
  shape : SameShape v v'
  fs : v'.fs = v.fs
  next : v'.store.next = v.store.next
  data : ∀ x, x ∉ l → v'.store.data x = v.store.data x

theorem BytesWritten.refl (v : Vol) (l : List Nat) : BytesWritten v l v :=
  ⟨SameShape.refl v, rfl, rfl, fun _ _ => rfl⟩

theorem BytesWritten.chain (h : BytesWritten v l v') {a : Nat} {m : List Nat}
    (hm : v.Chain a m) : v'.Chain a m :=
  Vol.Chain.congr h.shape hm fun x _ => by rw [h.next]

/-- The inner loop of `fat32_write_op` stores its data in one cluster. -/
theorem fat32WriteChunks_eq (g : Geometry v) (hc : v.InData c) (fuel idx off : Nat)
    (data : List UInt8) (hoff : off < 512) (hfuel : data.length ≤ fuel)
    (hfit : 512 * idx + off + data.length ≤ v.clusterBytes) :
    ∃ v', fat32WriteChunks (fat32ClusterToLba v.fs c) fuel idx off data v = (.ok (), v') ∧
      SameShape v v' ∧ v'.fs = v.fs ∧
      v'.store = v.store.put c (512 * idx + off) data.length fun i => data.getD i 0 := by
  induction fuel generalizing v idx off data with
  | zero =>
      obtain rfl : data = [] := List.length_eq_zero_iff.mp (by omega)
      exact ⟨v, rfl, SameShape.refl v, rfl, (ClusterStore.put_nothing _ _ _ _).symm⟩
  | succ fuel ih =>
      rw [fat32WriteChunks]
      by_cases hnil : data = []
      · subst hnil
        rw [if_pos rfl, Prog.pure_apply]
        exact ⟨v, rfl, SameShape.refl v, rfl, (ClusterStore.put_nothing _ _ _ _).symm⟩
      rw [if_neg hnil]
      have hpos := List.length_pos_iff.mpr hnil
      have hbytes : v.clusterBytes = 512 * v.fs.sectorsPerCluster := rfl
      have hs : idx < v.fs.sectorsPerCluster := by omega
      generalize hchunk : min (512 - off) data.length = chunk
      have hlba := g.sectorLba_u32 hc hs
      obtain ⟨old, hread, _, hold⟩ := blkRead_sector g hc hs
      -- the sector that is written back
      obtain ⟨sector, hsector, hput⟩ : ∃ sector : Sector,
          fat32FillSector (v.sectorLba c idx) off chunk data v = (.ok sector, v) ∧
            v.store.put c (512 * idx) 512 sector =
              v.store.put c (512 * idx + off) chunk fun i => data.getD i 0 := by
        rw [fat32FillSector]
        by_cases hfull : off = 0 ∧ chunk = 512
        · rw [if_pos hfull]
          exact ⟨_, rfl, by rw [hfull.1, hfull.2, Nat.add_zero]⟩
        · rw [if_neg hfull, Prog.bind_ok (Prog.orElse_ok hread _)]
          exact ⟨_, rfl, ClusterStore.put_sector _ _ _ _ _ hold (by omega)⟩
      obtain ⟨v₁, hwrite, hshape₁, hfs₁, hstore₁⟩ := blkWrite_sector g hc hs sector
      have hrest : (data.drop chunk).length = data.length - chunk := List.length_drop
      obtain ⟨v₂, hloop, hshape₂, hfs₂, hstore₂⟩ := ih (hshape₁.geometry g)
        (hshape₁.inData.mpr hc) (idx + 1) 0 (data.drop chunk) (by decide) (by omega)
        (by rw [hshape₁.clusterBytes]; omega)
      rw [hfs₁] at hloop
      refine ⟨v₂, ?_, hshape₁.trans hshape₂, hfs₂.trans hfs₁, ?_⟩
      · rw [hlba, Prog.bind_ok hsector, Prog.bind_ok (Prog.orElse_ok hwrite _), hloop]
      · rw [hstore₂, hstore₁, hput]
        by_cases hlast : data.length ≤ 512 - off
        · have hall : chunk = data.length := by omega
          rw [hrest, hall, Nat.sub_self, ClusterStore.put_nothing]
        · have hnext : 512 * (idx + 1) + 0 = 512 * idx + off + chunk := by omega
          rw [hnext, ClusterStore.put_put, hrest, Nat.add_sub_cancel' (by omega)]
          refine ClusterStore.put_congr _ _ _ fun i hi => ?_
          by_cases hlt : i < chunk
          · rw [if_pos hlt]
          · rw [if_neg hlt, List.getD_eq_getElem?_getD, List.getD_eq_getElem?_getD,
              List.getElem?_drop, Nat.add_sub_cancel' (Nat.le_of_not_lt hlt)]

/-- From `v` to `v'` the bytes `buf` have been stored in the clusters `l` from
byte `off` on, as far as there is room for them. -/
structure FileWritten (v : Vol) (l : List Nat) (off : Nat) (buf : List UInt8) (v' : Vol) : Prop
    extends BytesWritten v l v' where
  bytes : ∀ k, k < v.room l → v'.bytes l k =
    if off ≤ k ∧ k < off + buf.length then buf.getD (k - off) 0 else v.bytes l k

theorem FileWritten.nothing (v : Vol) (l : List Nat) (off : Nat) : FileWritten v l off [] v where
  toBytesWritten := .refl v l
  bytes k _ := by
    rw [if_neg]
    simp only [List.length_nil, Nat.add_zero]
    omega

/-- A write into the first cluster. -/
theorem FileWritten.of_head (hpos : 0 < v.clusterBytes) {rest : List Nat} (hnot : c ∉ rest)
    {off : Nat} {data : List UInt8} (hfit : off + data.length ≤ v.clusterBytes)
    (hshape : SameShape v v') (hfs : v'.fs = v.fs)
    (hstore : v'.store = v.store.put c off data.length fun i => data.getD i 0) :
    FileWritten v (c :: rest) off data v' where
  shape := hshape
  fs := hfs
  next := by rw [hstore, ClusterStore.put_next]
  data x hx := by
    rw [hstore, ClusterStore.put_data, if_neg]
    rintro rfl
    exact hx List.mem_cons_self
  bytes k hk := by
    by_cases hlt : k < v.clusterBytes
    · rw [Vol.bytes_head v' c rest (by rw [hshape.clusterBytes]; exact hlt),
        Vol.bytes_head v c rest hlt, hstore, ClusterStore.put_data, if_pos rfl]
      rfl
    · obtain ⟨j, rfl⟩ := Nat.exists_eq_add_of_le (Nat.le_of_not_lt hlt)
      rw [if_neg (by omega), Vol.bytes_tail v hpos]
      have htail := Vol.bytes_tail v' (by rw [hshape.clusterBytes]; exact hpos) c rest j
      rw [hshape.clusterBytes] at htail
      rw [htail]
      refine hshape.bytes_eq (fun x hx => ?_) ?_
      · rw [hstore, ClusterStore.put_data, if_neg]
        rintro rfl
        exact hnot hx
      · rw [Vol.room, List.length_cons, Nat.succ_mul] at hk
        rw [Vol.room]
        omega

/-- A write that fills the first cluster and goes on behind it. -/
theorem FileWritten.cons {v₁ : Vol} (hpos : 0 < v.clusterBytes) {rest : List Nat} (hnot : c ∉ rest)
    {off n : Nat} {data : List UInt8} (hn : off + n = v.clusterBytes) (hlen : n ≤ data.length)
    (h : FileWritten v (c :: rest) off (data.take n) v₁)
    (h' : FileWritten v₁ rest 0 (data.drop n) v') : FileWritten v (c :: rest) off data v' where
  shape := h.shape.trans h'.shape
  fs := h'.fs.trans h.fs
  next := h'.next.trans h.next
  data x hx := by
    rw [h'.data x fun hmem => hx (List.mem_cons_of_mem c hmem), h.data x hx]
  bytes k hk := by
    have htake : (data.take n).length = n := by
      rw [List.length_take]
      omega
    have hcb₁ := h.shape.clusterBytes
    have hcb' := (h.shape.trans h'.shape).clusterBytes
    have hfirst := h.bytes k hk
    rw [htake] at hfirst
    by_cases hlt : k < v.clusterBytes
    · have hhead : v'.bytes (c :: rest) k = v₁.bytes (c :: rest) k := by
        rw [Vol.bytes_head v' c rest (by omega), Vol.bytes_head v₁ c rest (by omega),
          h'.data c hnot]
      rw [hhead, hfirst]
      by_cases hoff : off ≤ k
      · rw [if_pos (by omega), if_pos (by omega), List.getD_eq_getElem?_getD,
          List.getD_eq_getElem?_getD, List.getElem?_take_of_lt (by omega)]
      · rw [if_neg (by omega), if_neg (by omega)]
    · obtain ⟨j, rfl⟩ := Nat.exists_eq_add_of_le (Nat.le_of_not_lt hlt)
      rw [if_neg (by omega)] at hfirst
      have htail' := Vol.bytes_tail v' (by omega) c rest j
      have htail₁ := Vol.bytes_tail v₁ (by omega) c rest j
      rw [hcb'] at htail'
      rw [hcb₁] at htail₁
      have hj : j < v₁.room rest := by
        rw [Vol.room, List.length_cons, Nat.succ_mul] at hk
        rw [Vol.room, hcb₁]
        omega
      rw [htail', h'.bytes j hj, List.length_drop, ← hfirst, htail₁]
      by_cases hin : j < data.length - n
      · rw [if_pos (by omega), if_pos (by omega), List.getD_eq_getElem?_getD,
          List.getD_eq_getElem?_getD, List.getElem?_drop]
        congr 2
        omega
      · rw [if_neg (by omega), if_neg (by omega)]

/-- The copying loops of `fat32_write_op` store their data along the chain and
stop where it ends. -/
theorem fat32WriteLoop_eq (g : Geometry v) (h : v.Chain c l) (fuel off : Nat) (data : List UInt8)
    (hoff : off < v.clusterBytes) (hfuel : data.length ≤ fuel) :
    ∃ v', fat32WriteLoop fuel c off data v = (.ok (), v') ∧ FileWritten v l off data v' := by
  induction fuel generalizing v c l off data with
  | zero =>
      obtain rfl : data = [] := List.length_eq_zero_iff.mp (by omega)
      exact ⟨v, rfl, .nothing v l off⟩
  | succ fuel ih =>
      rw [fat32WriteLoop]
      by_cases hnil : data = []
      · subst hnil
        rw [if_neg (by simp), Prog.pure_apply]
        exact ⟨v, rfl, .nothing v l off⟩
      have hpos := List.length_pos_iff.mpr hnil
      have hc := IsChain.head_node h
      obtain ⟨rest, rfl⟩ := IsChain.head_eq h
      have hnot := (List.nodup_cons.mp (g.chain_nodup h)).1
      rw [if_pos ⟨hpos, g.inData_lt_eoc hc⟩,
        Prog.bind_ok (show getFs v = (.ok v.fs, v) from rfl), g.clusterSize_eq]
      generalize hcopy : min (v.clusterBytes - off) data.length = toCopy
      have htake : (data.take toCopy).length = toCopy := by
        rw [List.length_take]
        omega
      obtain ⟨v₁, hrun₁, hshape₁, hfs₁, hstore₁⟩ := fat32WriteChunks_eq g hc toCopy (off / 512)
        (off % 512) (data.take toCopy) (Nat.mod_lt _ (by decide)) (by omega) (by omega)
      rw [show 512 * (off / 512) + off % 512 = off by omega] at hstore₁
      have hw₁ : FileWritten v (c :: rest) off (data.take toCopy) v₁ :=
        .of_head g.clusterBytes_pos hnot (by omega) hshape₁ hfs₁ hstore₁
      rw [Prog.bind_ok hrun₁]
      by_cases hmore : 0 < data.length - toCopy
      · have hfull : off + toCopy = v.clusterBytes := by omega
        have g₁ := hshape₁.geometry g
        have h₁ := hw₁.chain h
        rw [if_pos hmore, Prog.bind_ok (Prog.orElse_ok
          (fat32ReadFatEntry_eq g₁ (IsChain.head_node h₁).2) _)]
        have hlen : (data.drop toCopy).length ≤ fuel := by
          rw [List.length_drop]
          omega
        by_cases hrest : rest = []
        · subst hrest
          have hend : fat32Eoc ≤ v₁.store.next c := by
            have := IsChain.next_getLast h₁
            simpa using this
          have hstop : fat32WriteLoop fuel (v₁.store.next c) 0 (data.drop toCopy) v₁ =
              (.ok (), v₁) := by
            cases fuel with
            | zero => rfl
            | succ fuel => rw [fat32WriteLoop, if_neg (by omega), Prog.pure_apply]
          refine ⟨v₁, hstop, .cons g.clusterBytes_pos hnot hfull (by omega) hw₁ ?_⟩
          exact { BytesWritten.refl v₁ [] with bytes := fun k hk => by simp [Vol.room] at hk }
        · obtain ⟨v₂, hrun₂, hw₂⟩ := ih g₁ (IsChain.rest_chain h₁ hrest) 0 (data.drop toCopy)
            (by rw [hshape₁.clusterBytes]; omega) hlen
          exact ⟨v₂, hrun₂, .cons g.clusterBytes_pos hnot hfull (by omega) hw₁ hw₂⟩
      · rw [if_neg hmore, Prog.pure_apply]
        have hall : data.take toCopy = data := List.take_of_length_le (by omega)
        rw [hall] at hw₁
        exact ⟨v₁, rfl, hw₁⟩

/-- A write behind the first `n` clusters. -/
theorem FileWritten.of_drop {n off : Nat} {data : List UInt8} (hpos : 0 < v.clusterBytes)
    (hnodup : l.Nodup) (h : FileWritten v (l.drop n) off data v') :
    FileWritten v l (n * v.clusterBytes + off) data v' where
  shape := h.shape
  fs := h.fs
  next := h.next
  data x hx := h.data x fun hmem => hx (List.mem_of_mem_drop hmem)
  bytes k hk := by
    have hcb := h.shape.clusterBytes
    by_cases hlt : k < n * v.clusterBytes
    · rw [if_neg (by omega), Vol.bytes, Vol.bytes, hcb]
      have hdiv : k / v.clusterBytes < n := Nat.div_lt_of_lt_mul (by rwa [Nat.mul_comm] at hlt)
      have hlen : k / v.clusterBytes < l.length := by
        refine Nat.div_lt_of_lt_mul ?_
        rw [Nat.mul_comm]
        exact hk
      rw [List.getD_eq_getElem _ _ hlen, h.data _ ?_]
      intro hmem
      rw [← List.take_append_drop n l] at hnodup
      have hin : l[k / v.clusterBytes] ∈ l.take n := by
        rw [List.mem_take_iff_getElem]
        exact ⟨k / v.clusterBytes, by omega, rfl⟩
      exact (List.nodup_append.mp hnodup).2.2 _ hin _ hmem rfl
    · obtain ⟨j, rfl⟩ := Nat.exists_eq_add_of_le (Nat.le_of_not_lt hlt)
      have hj : j < v.room (l.drop n) := by
        rw [Vol.room] at hk ⊢
        rw [List.length_drop, Nat.sub_mul]
        omega
      have hbytes := h.bytes j hj
      have hdrop := Vol.bytes_drop v' (by omega) l n j
      rw [hcb] at hdrop
      rw [Vol.bytes_drop v hpos, hdrop] at hbytes
      rw [hbytes]
      by_cases hin : off ≤ j ∧ j < off + data.length
      · rw [if_pos hin, if_pos (by omega)]
        congr 1
        omega
      · rw [if_neg hin, if_neg (by omega)]

/-- `fat32_write_op` behind `fat32_ensure_chain`: the data is stored, or the
offset lies behind the end of the chain. -/
theorem fat32WriteData_eq (g : Geometry v) (h : v.Chain c l) (offset : Nat) (buf : List UInt8) :
    (v.room l ≤ offset ∧ fat32WriteData c offset buf v = (.err .io, v)) ∨
      (offset < v.room l ∧ ∃ v', fat32WriteData c offset buf v = (.ok (), v') ∧
        FileWritten v l offset buf v') := by
  have hpos := g.clusterBytes_pos
  have hcb := g.clusterBytes_lt
  rw [fat32WriteData, Prog.bind_ok (show getFs v = (.ok v.fs, v) from rfl), g.clusterSize_eq,
    Prog.bind_ok (fat32SkipClusters_eq g h _)]
  by_cases hin : offset / v.clusterBytes < l.length
  · refine Or.inr ⟨by rw [Vol.room, ← Nat.div_lt_iff_lt_mul hpos]; exact hin, ?_⟩
    rw [List.getElem?_eq_getElem hin]
    have hmod := Nat.mod_lt offset hpos
    have hsuffix := IsChain.drop h hin
    obtain ⟨v', hrun, hw⟩ := fat32WriteLoop_eq g hsuffix buf.length
      (offset % v.clusterBytes) buf hmod (Nat.le_refl _)
    refine ⟨v', ?_, ?_⟩
    · simp only
      rw [u32_of_lt (by omega)]
      exact hrun
    · have hall := hw.of_drop hpos (g.chain_nodup h)
      rwa [Nat.div_add_mod'] at hall
  · refine Or.inl ⟨?_, ?_⟩
    · rw [Vol.room, ← Nat.le_div_iff_mul_le hpos]
      omega
    · rw [List.getElem?_eq_none (by omega)]
      rfl

end Write

section Read

theorem map_range_add {α : Type} (f : Nat → α) (n m : Nat) :
    (List.range (n + m)).map f = (List.range n).map f ++ (List.range m).map fun i => f (n + i) := by
  rw [List.range_add, List.map_append, List.map_map]
  rfl

/-- The inner loop of `fat32_read_op` copies bytes of one cluster. -/
theorem fat32ReadChunks_eq (g : Geometry v) (hc : v.InData c) (fuel idx off left : Nat)
    (hoff : off < 512) (hfuel : left ≤ fuel) (hfit : 512 * idx + off + left ≤ v.clusterBytes) :
    fat32ReadChunks (fat32ClusterToLba v.fs c) fuel idx off left v =
      (.ok ((List.range left).map fun i => v.store.data c (512 * idx + off + i)), v) := by
  induction fuel generalizing idx off left with
  | zero =>
      obtain rfl : left = 0 := by omega
      rfl
  | succ fuel ih =>
      rw [fat32ReadChunks]
      by_cases hzero : left = 0
      · subst hzero
        rfl
      have hbytes : v.clusterBytes = 512 * v.fs.sectorsPerCluster := rfl
      have hs : idx < v.fs.sectorsPerCluster := by omega
      obtain ⟨sector, hread, _, hsector⟩ := blkRead_sector g hc hs
      have hchunk : ∃ chunk, min (512 - off) left = chunk := ⟨_, rfl⟩
      obtain ⟨chunk, hchunk⟩ := hchunk
      have hrest := ih (idx + 1) 0 (left - chunk) (by decide) (by omega) (by omega)
      simp only [hchunk]
      rw [if_neg hzero, g.sectorLba_u32 hc hs, Prog.bind_ok (Prog.orElse_ok hread _),
        Prog.bind_ok hrest, Prog.pure_apply]
      have hsplit : left = chunk + (left - chunk) := by omega
      conv_rhs => rw [hsplit, map_range_add]
      have hfront : (List.range chunk).map (fun i => sector (off + i)) =
          (List.range chunk).map fun i => v.store.data c (512 * idx + off + i) := by
        refine List.map_congr_left fun i hi => ?_
        rw [List.mem_range] at hi
        rw [hsector _ (by omega), Nat.add_assoc]
      have hback : ((List.range (left - chunk)).map fun i =>
          v.store.data c (512 * (idx + 1) + 0 + i)) =
          (List.range (left - chunk)).map fun i =>
            v.store.data c (512 * idx + off + (chunk + i)) := by
        refine List.map_congr_left fun i hi => ?_
        rw [List.mem_range] at hi
        congr 1
        omega
      rw [hfront, hback]

/-- The copying loops of `fat32_read_op` read along the chain and stop where it
ends. -/
theorem fat32ReadLoop_eq (g : Geometry v) (h : v.Chain c l) (fuel off remaining : Nat)
    (hoff : off < v.clusterBytes) (hfuel : remaining ≤ fuel) :
    fat32ReadLoop fuel c off remaining v =
      (.ok ((List.range (min remaining (v.room l - off))).map fun i => v.bytes l (off + i)),
        v) := by
  induction fuel generalizing c l off remaining with
  | zero =>
      obtain rfl : remaining = 0 := by omega
      rw [Nat.zero_min]
      rfl
  | succ fuel ih =>
      rw [fat32ReadLoop]
      by_cases hzero : remaining = 0
      · subst hzero
        rw [if_neg (by simp), Nat.zero_min, Prog.pure_apply]
        rfl
      have hc := IsChain.head_node h
      obtain ⟨rest, rfl⟩ := IsChain.head_eq h
      have hpos := g.clusterBytes_pos
      have hroom : v.room (c :: rest) = v.clusterBytes + v.room rest := by
        rw [Vol.room, Vol.room, List.length_cons, Nat.succ_mul, Nat.add_comm]
      obtain ⟨toCopy, hcopy⟩ : ∃ toCopy, min (v.clusterBytes - off) remaining = toCopy :=
        ⟨_, rfl⟩
      have hchunks := fat32ReadChunks_eq g hc toCopy (off / 512) (off % 512) toCopy
        (Nat.mod_lt _ (by decide)) (Nat.le_refl _) (by omega)
      rw [show 512 * (off / 512) + off % 512 = off by omega] at hchunks
      have hfront : ((List.range toCopy).map fun i => v.store.data c (off + i)) =
          (List.range toCopy).map fun i => v.bytes (c :: rest) (off + i) := by
        refine List.map_congr_left fun i hi => ?_
        rw [List.mem_range] at hi
        rw [Vol.bytes_head v c rest (by omega)]
      rw [if_pos ⟨by omega, g.inData_lt_eoc hc⟩,
        Prog.bind_ok (show getFs v = (.ok v.fs, v) from rfl), g.clusterSize_eq]
      simp only [hcopy]
      rw [Prog.bind_ok hchunks, hfront]
      by_cases hmore : 0 < remaining - toCopy
      · have hfull : off + toCopy = v.clusterBytes := by omega
        rw [if_pos hmore, Prog.bind_ok (Prog.orElse_ok (fat32ReadFatEntry_eq g hc.2) _)]
        have hcount : min remaining (v.room (c :: rest) - off) =
            toCopy + min (remaining - toCopy) (v.room rest - 0) := by omega
        rw [hcount, map_range_add]
        have hback : ((List.range (min (remaining - toCopy) (v.room rest - 0))).map fun i =>
            v.bytes (c :: rest) (off + (toCopy + i))) =
            (List.range (min (remaining - toCopy) (v.room rest - 0))).map fun i =>
              v.bytes rest (0 + i) := by
          refine List.map_congr_left fun i _ => ?_
          rw [← Nat.add_assoc, hfull, Vol.bytes_tail v hpos, Nat.zero_add]
        rw [hback]
        by_cases hrest : rest = []
        · subst hrest
          have hend : fat32Eoc ≤ v.store.next c := by
            have := IsChain.next_getLast h
            simpa using this
          have hstop : fat32ReadLoop fuel (v.store.next c) 0 (remaining - toCopy) v =
              (.ok [], v) := by
            cases fuel with
            | zero => rfl
            | succ fuel => rw [fat32ReadLoop, if_neg (by omega), Prog.pure_apply]
          rw [Prog.bind_ok hstop, Prog.pure_apply]
          simp [Vol.room]
        · rw [Prog.bind_ok (ih (IsChain.rest_chain h hrest) 0 (remaining - toCopy) hpos
            (by omega)), Prog.pure_apply]
      · have hall : min remaining (v.room (c :: rest) - off) = toCopy := by omega
        rw [if_neg hmore, Prog.pure_apply, hall]

/-- The bytes that `fat32_read_op` asks for. -/
def Fat32Node.readCount (node : Fat32Node) (len offset : Nat) : Nat :=
  if node.size ≤ offset then 0
  else if node.size < u64 (offset + len) then node.size - offset else len

/-- `fat32_read_op` behind the refresh: the bytes of the chain, as far as it
reaches. -/
theorem fat32ReadNode_eq (g : Geometry v) {node : Fat32Node} (h : v.Holds node.cluster l)
    (len offset : Nat) :
    fat32ReadNode node len offset v =
      (.ok ((List.range (min (node.readCount len offset) (v.room l - offset))).map fun i =>
        v.bytes l (offset + i)), v) := by
  have hpos := g.clusterBytes_pos
  have hcb := g.clusterBytes_lt
  rw [fat32ReadNode, Fat32Node.readCount]
  by_cases hsize : node.size ≤ offset
  · rw [if_pos hsize, if_pos hsize, Nat.zero_min]
    rfl
  rw [if_neg hsize, if_neg hsize]
  generalize (if node.size < u64 (offset + len) then node.size - offset else len) = remaining
  by_cases hzero : node.cluster = 0
  · rw [hzero] at h
    obtain rfl := h.nil_of_zero
    simp [hzero, Vol.room, Prog.pure_apply]
  have hchain := h.chain_of_ne_zero hzero
  simp only [if_neg hzero]
  rw [Prog.bind_ok (show getFs v = (.ok v.fs, v) from rfl), g.clusterSize_eq,
    Prog.bind_ok (fat32SkipClusters_eq g hchain _)]
  by_cases hin : offset / v.clusterBytes < l.length
  · rw [List.getElem?_eq_getElem hin]
    have hmod := Nat.mod_lt offset hpos
    have hloop := fat32ReadLoop_eq g (IsChain.drop hchain hin) remaining
      (offset % v.clusterBytes) remaining hmod (Nat.le_refl _)
    have hroom : v.room (l.drop (offset / v.clusterBytes)) - offset % v.clusterBytes =
        v.room l - offset := by
      have hsum := Nat.div_add_mod' offset v.clusterBytes
      rw [Vol.room, Vol.room, List.length_drop, Nat.sub_mul]
      omega
    rw [hroom] at hloop
    simp only
    rw [u32_of_lt (by omega)]
    refine hloop.trans ?_
    congr 2
    refine List.map_congr_left fun i _ => ?_
    rw [Vol.bytes_drop v hpos, ← Nat.add_assoc, Nat.div_add_mod']
  · have hbehind : v.room l ≤ offset := by
      rw [Vol.room, ← Nat.le_div_iff_mul_le hpos]
      omega
    rw [List.getElem?_eq_none (by omega), Nat.sub_eq_zero_of_le hbehind, Nat.min_zero]
    rfl

end Read

end OsAgentLab
