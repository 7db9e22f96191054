/-
Regular FAT32 files as byte strings, and what `fat32_write_op` at the end of
the string and `fat32_read_op` at any place of it do.
-/
import OsAgentLab.Fat32.FileOps

namespace OsAgentLab

variable {k : Kernel} {v v' : Vol} {d i n : Nat} {l m : List Nat} {raw : RawDirent}
  {w buf : List UInt8}

/-- The file whose entry `raw` is the slot `i` of the directory with the clusters
`l` that starts at `d`; it has the clusters `m` and the contents `w`. -/
structure Vol.FileAt (v : Vol) (d i : Nat) (l m : List Nat) (raw : RawDirent)
    (w : List UInt8) : Prop where
  geometry : Geometry v
  dir : v.Chain d l
  slot : (v.raws l)[i]? = some raw
  chain : v.Holds raw.cluster m
  apart : ∀ x ∈ l, x ∉ m
  room : w.length ≤ v.room m
  bytes : w = (List.range raw.fileSize).map (v.bytes m)

/-- The node holds what the entry `raw` in slot `i` holds. -/
structure Fat32Node.Reflects (node : Fat32Node) (v : Vol) (l : List Nat) (i : Nat)
    (raw : RawDirent) : Prop where
  place : node.At v l i
  cluster : node.cluster = raw.cluster
  size : node.size = raw.fileSize

theorem Vol.FileAt.size (h : v.FileAt d i l m raw w) : raw.fileSize = w.length := by
  rw [h.bytes, List.length_map, List.length_range]

theorem Vol.Holds.head_lt (g : Geometry v) {c : Nat} (h : v.Holds c m) : c < 4294967296 := by
  by_cases hzero : c = 0
  · rw [hzero]
    decide
  · exact g.inData_lt (IsChain.head_node (h.chain_of_ne_zero hzero))

/-- A file has one contents. -/
theorem Vol.FileAt.unique {l' m' : List Nat} {raw' : RawDirent} {w' : List UInt8}
    (h : v.FileAt d i l m raw w) (h' : v.FileAt d i l' m' raw' w') : w = w' := by
  obtain rfl := h.geometry.chain_unique h.dir h'.dir
  have hslot := h.slot
  rw [h'.slot] at hslot
  obtain rfl := Option.some.inj hslot
  obtain rfl := h.chain.unique h.geometry h'.chain
  rw [h.bytes, h'.bytes]

section Room

theorem clustersNeeded_eq (g : Geometry v) {size : Nat} (hsize : size < 4294967296) :
    clustersNeeded v.fs size = (size + v.clusterBytes - 1) / v.clusterBytes := by
  have hpos := g.clusterBytes_pos
  have hcb := g.clusterBytes_lt
  have hlt : (size + v.clusterBytes - 1) / v.clusterBytes < 4294967296 := by
    apply Nat.div_lt_of_lt_mul
    omega
  rw [clustersNeeded, g.clusterSize_eq, u64_of_lt (by omega), u32_of_lt hlt]

/-- As many clusters as a size needs have room for it. -/
theorem le_room_of_clustersNeeded (g : Geometry v) {size : Nat} (hsize : size < 4294967296)
    (h : clustersNeeded v.fs size ≤ l.length) : size ≤ v.room l := by
  have hpos := g.clusterBytes_pos
  rw [clustersNeeded_eq g hsize] at h
  have hsum := Nat.div_add_mod (size + v.clusterBytes - 1) v.clusterBytes
  have hmod := Nat.mod_lt (size + v.clusterBytes - 1) hpos
  have hle := Nat.mul_le_mul_left v.clusterBytes h
  rw [Vol.room, Nat.mul_comm]
  omega

theorem clustersNeeded_ne_zero (g : Geometry v) {size : Nat} (hpos : 0 < size)
    (hsize : size < 4294967296) : clustersNeeded v.fs size ≠ 0 := by
  have hcb := g.clusterBytes_pos
  rw [clustersNeeded_eq g hsize]
  apply Nat.ne_of_gt
  apply Nat.div_pos
  · omega
  · exact hcb

end Room

section Bytes

/-- The bytes of the first clusters of an object. -/
theorem Vol.bytes_append (v : Vol) (ext : List Nat) {j : Nat} (hj : j < v.room m) :
    v.bytes (m ++ ext) j = v.bytes m j := by
  have hdiv : j / v.clusterBytes < m.length :=
    Nat.div_lt_of_lt_mul (by rwa [Vol.room, Nat.mul_comm] at hj)
  rw [Vol.bytes, Vol.bytes, List.getD_append _ _ _ _ hdiv]

theorem Vol.room_append (v : Vol) (m ext : List Nat) : v.room m ≤ v.room (m ++ ext) := by
  rw [Vol.room, Vol.room, List.length_append, Nat.add_mul]
  exact Nat.le_add_right _ _

/-- The old bytes of an object that has grown. -/
theorem Grown.bytes_eq {ext : List Nat} {c c' : Nat} (h : Grown v m ext c v') (hm : v.Holds c' m)
    {j : Nat} (hj : j < v.room m) : v'.bytes (m ++ ext) j = v.bytes m j := by
  have hj' : j < v'.room m := by
    rw [Vol.room, h.shape.clusterBytes]
    exact hj
  rw [Vol.bytes_append v' ext hj']
  refine h.shape.bytes_eq (fun x hx => h.store_data_of_not_mem fun hxe => ?_) hj
  exact hm.not_free hx (h.free x hxe)

end Bytes

section Append

/-- The contents behind an append: new clusters, the new bytes, the new entry. -/
theorem Vol.FileAt.appended {ext : List Nat} {c : Nat} {v₁ v₂ v₃ : Vol}
    (h : v.FileAt d i l m raw w) (hlen : w.length + buf.length < 4294967296)
    (hgrown : Grown v m ext c v₁)
    (hneeded : clustersNeeded v.fs (w.length + buf.length) ≤ (m ++ ext).length)
    (hw : FileWritten v₁ (m ++ ext) w.length buf v₂)
    (hslots : SlotsWritten v₂ l
      ((v.raws l).set i (raw.withChain c (w.length + buf.length))) v₃) :
    v₃.FileAt d i l (m ++ ext) (raw.withChain c (w.length + buf.length)) (w ++ buf) := by
  have g := h.geometry
  obtain ⟨hl₂, _⟩ := hgrown.written_frame hw.toBytesWritten h.dir h.apart
  have hshape₂ := hgrown.shape.trans hw.shape
  have hshape := hshape₂.trans hslots.shape
  have hroom := le_room_of_clustersNeeded g hlen hneeded
  have hapart : ∀ x ∈ l, x ∉ m ++ ext := by
    intro x hx hmem
    rcases List.mem_append.mp hmem with hxm | hxe
    · exact h.apart x hx hxm
    · exact Geometry.chain_not_free h.dir hx (hgrown.free x hxe)
  have hholds : v₃.Holds c (m ++ ext) :=
    hslots.holds (hgrown.holds.congr hw.shape fun x _ => by rw [hw.next])
  have hc : c < 4294967296 := hholds.head_lt (hshape.geometry g)
  have hlt : i < (v.raws l).length := (List.getElem?_eq_some_iff.mp h.slot).1
  have hstop : w.length + buf.length ≤ v.room (m ++ ext) := hroom
  -- every byte of the new contents
  have hbyte : ∀ j, j < w.length + buf.length → v₃.bytes (m ++ ext) j =
      if w.length ≤ j ∧ j < w.length + buf.length then buf.getD (j - w.length) 0
      else v₁.bytes (m ++ ext) j := by
    intro j hj
    have hj₁ : j < v₁.room (m ++ ext) := by
      rw [Vol.room, hgrown.shape.clusterBytes]
      exact Nat.lt_of_lt_of_le hj hstop
    have hj₂ : j < v₂.room (m ++ ext) := by
      rw [Vol.room, hshape₂.clusterBytes]
      exact Nat.lt_of_lt_of_le hj hstop
    rw [hslots.shape.bytes_eq (fun x hx => hslots.data x fun hxl => hapart x hxl hx) hj₂]
    exact hw.bytes j hj₁
  refine
    { geometry := hshape.geometry g
      dir := hslots.chain hl₂
      slot := ?_
      chain := ?_
      apart := hapart
      room := ?_
      bytes := ?_ }
  · rw [hslots.raws]
    exact List.getElem?_set_self hlt
  · rw [RawDirent.withChain_cluster raw hc]
    exact hholds
  · rw [List.length_append, Vol.room, hshape.clusterBytes]
    exact hstop
  · rw [RawDirent.withChain_fileSize raw c hlen, map_range_add]
    congr 1
    · conv_lhs => rw [h.bytes, h.size]
      refine List.map_congr_left fun j hj => ?_
      rw [List.mem_range] at hj
      have hold := hgrown.bytes_eq h.chain (Nat.lt_of_lt_of_le hj h.room)
      rw [hbyte j (by omega), if_neg (by omega), hold]
    · refine List.ext_getElem (by rw [List.length_map, List.length_range]) fun j hj _ => ?_
      rw [List.getElem_map, List.getElem_range, hbyte _ (by omega), if_pos (by omega),
        Nat.add_sub_cancel_left, List.getD_eq_getElem _ _ hj]

/-- `fat32_write_op` at the end of a file appends, unless the volume is full. -/
theorem fat32WriteOp_append (h : k.vol.FileAt d i l m raw w) {vn : Nat}
    (hn : (k.vnode vn).data = n) (htype : (k.vnode vn).type = .file)
    (hnode : (k.fatNodes.slot n).Reflects k.vol l i raw) (hbuf : buf ≠ [])
    (hlen : w.length + buf.length < 4294967296) :
    (∃ k', fat32WriteOp vn buf w.length k = (.err .nospc, k')) ∨
    ∃ c m' v', fat32WriteOp vn buf w.length k =
        (.ok (cInt buf.length), k.withFile n { k.fatNodes.slot n with
          cluster := c, size := w.length + buf.length } v') ∧
      v'.FileAt d i l m' (raw.withChain c (w.length + buf.length)) (w ++ buf) ∧
      ({ k.fatNodes.slot n with cluster := c, size := w.length + buf.length } : Fat32Node).Reflects
        v' l i (raw.withChain c (w.length + buf.length)) := by
  have g := h.geometry
  have hpos := List.length_pos_iff.mpr hbuf
  have hstop : u64 (w.length + buf.length) = w.length + buf.length := u64_of_lt (by omega)
  obtain ⟨r, k', hrun, hends⟩ : ∃ r k', fat32WriteOp vn buf w.length k = (r, k') ∧
      WriteEnds k n l m i raw w.length buf r k' := by
    refine fat32WriteOp_spec g hn htype h.dir hnode.place h.slot (hnode.cluster ▸ h.chain) h.apart
      hbuf fun _ => ?_
    rw [hstop]
    exact clustersNeeded_ne_zero g (by omega) hlen
  rw [hrun]
  cases hends with
  | refused _ _ => exact Or.inl ⟨_, rfl⟩
  | partly _ _ _ _ => exact Or.inl ⟨_, rfl⟩
  | behind _ _ hneeded _ hbehind =>
      rw [hstop] at hneeded
      have := le_room_of_clustersNeeded g hlen hneeded
      omega
  | inside _ _ _ _ _ _ hinside =>
      rw [hstop, hnode.size, h.size] at hinside
      omega
  | @beyond c ext v₁ v₂ v₃ hgrown hkeep hneeded _ _ hw _ hslots =>
      rw [hstop] at hneeded hslots ⊢
      rw [u32_of_lt hlen] at hslots ⊢
      have hfile := h.appended hlen hgrown hneeded hw hslots
      have hshape := (hgrown.shape.trans hw.shape).trans hslots.shape
      have hc : c < 4294967296 := hgrown.holds.head_lt (hgrown.geometry g)
      refine Or.inr ⟨c, m ++ ext, v₃, rfl, hfile, ?_, ?_, ?_⟩
      · rw [Fat32Node.At, hshape.place]
        exact hnode.place
      · exact (RawDirent.withChain_cluster raw hc _).symm
      · exact (RawDirent.withChain_fileSize raw c hlen).symm

end Append


end OsAgentLab
