/-
What a write or a truncation does to the byte string of a file, and how many
free clusters it can take.
-/
import OsAgentLab.Fat32.FileBytes

namespace OsAgentLab

variable {v v' v₁ v₂ v₃ : Vol} {c d size offset : Nat} {l m m' ext : List Nat}
  {hit : DirHit} {raw' : RawDirent} {w buf : List UInt8}

section FreeClusters

instance (v : Vol) (x : Nat) : Decidable (v.Free x) :=
  inferInstanceAs (Decidable (v.InData x ∧ v.store.next x = 0))

/-- The free clusters of a volume. -/
def Vol.freeList (v : Vol) : List Nat :=
  (List.range (v.maxCluster + 1)).filter fun x => v.Free x

def Vol.freeCount (v : Vol) : Nat := v.freeList.length

theorem Vol.mem_freeList (v : Vol) (x : Nat) : x ∈ v.freeList ↔ v.Free x := by
  simp only [Vol.freeList, List.mem_filter, List.mem_range, decide_eq_true_eq]
  constructor
  · exact fun h => h.2
  · intro h
    exact ⟨Nat.lt_succ_of_le h.1.2, h⟩

theorem Vol.freeList_nodup (v : Vol) : v.freeList.Nodup := List.nodup_range.filter _

/-- An object cannot grow by more clusters than are free. -/
theorem Grown.length_le (h : Grown v m ext c v') : ext.length ≤ v.freeCount := by
  apply (h.nodup.subperm _).length_le
  intro x hx
  exact (v.mem_freeList x).mpr (h.free x hx)

/-- When nothing is free any more, the object has taken all that was free. -/
theorem Grown.freeCount_le {a : Nat} (hm : v.Holds a m) (h : Grown v m ext c v')
    (hfull : ∀ x, ¬ v'.Free x) : v.freeCount ≤ ext.length := by
  apply (v.freeList_nodup.subperm _).length_le
  intro x hx
  by_contra hext
  exact hfull x ((Grown.free_iff hm h).mpr ⟨(v.mem_freeList x).mp hx, hext⟩)

theorem Vol.freeCount_eq_zero (v : Vol) (hnone : ∀ x, ¬ v.Free x) : v.freeCount = 0 := by
  apply List.length_eq_zero_iff.mpr
  apply List.eq_nil_iff_forall_not_mem.mpr
  intro x hx
  exact hnone x ((v.mem_freeList x).mp hx)

end FreeClusters

section Change

/-- From `v` to `v'` the file with the entry `hit` and the clusters `m` has got
the size `size` and, at `offset`, the bytes `buf`; further new bytes are those
that its old clusters hold there, or zero. -/
structure FileChange (v : Vol) (l : List Nat) (hit : DirHit) (m : List Nat) (size offset : Nat)
    (buf : List UInt8) (v' : Vol) (raw' : RawDirent) (m' : List Nat) : Prop
    extends FileUpdate v v' l hit raw' m m' where
  fileSize : raw'.fileSize = size
  room : size ≤ v'.room m'
  bytes : ∀ j, j < size → v'.bytes m' j =
    if offset ≤ j ∧ j < offset + buf.length then buf.getD (j - offset) 0
    else if j < v.room m then v.bytes m j else 0

/-- The clusters of a directory are not among those of a growing file. -/
theorem Grown.dir_apart (h : Grown v m ext c v') (hl : v.Chain d l) (hapart : ∀ x ∈ l, x ∉ m) :
    ∀ x ∈ l, x ∉ m ++ ext := by
  intro x hx hmem
  rcases List.mem_append.mp hmem with hxm | hxe
  · exact hapart x hx hxm
  · exact Geometry.chain_not_free hl hx (h.free x hxe)

theorem Vol.index_lt_of_lt_room {j : Nat} (hj : j < v.room m) :
    j / v.clusterBytes < m.length :=
  Nat.div_lt_of_lt_mul (by rwa [Vol.room, Nat.mul_comm] at hj)

/-- The bytes of an object that has grown: the old ones, and zeros behind them. -/
theorem Grown.bytes (h : Grown v m ext c v') (g : Geometry v) {a : Nat} (hm : v.Holds a m)
    {j : Nat} (hj : j < v.room (m ++ ext)) :
    v'.bytes (m ++ ext) j = if j < v.room m then v.bytes m j else 0 := by
  by_cases hold : j < v.room m
  · rw [if_pos hold]
    exact h.bytes_eq hm hold
  · have hidx := Vol.index_lt_of_lt_room hj
    have hle : m.length ≤ j / v.clusterBytes := by
      rw [Nat.le_div_iff_mul_le g.clusterBytes_pos]
      exact Nat.le_of_not_lt hold
    rw [if_neg hold, Vol.bytes, h.shape.clusterBytes, List.getD_append_right _ _ _ _ hle, h.data,
      if_pos]
    rw [List.length_append] at hidx
    rw [List.getD_eq_getElem _ _ (by omega)]
    exact List.getElem_mem _

/-- Replacing a slot by what it holds changes nothing. -/
theorem Vol.FileAt.set_slot (h : v.FileAt d hit.entryIndex l m hit.raw w) :
    (v.raws l).set hit.entryIndex hit.raw = v.raws l := by
  obtain ⟨hlt, hget⟩ := List.getElem?_eq_some_iff.mp h.slot
  rw [← hget]
  exact List.set_getElem_self hlt

/-- A file that only grows by clusters keeps its entry and its bytes; clusters of a
file that had none are not even in its entry. -/
theorem Vol.FileAt.kept (h : v.FileAt d hit.entryIndex l m hit.raw w) (hgrown : Grown v m ext c v₁)
    (hkeep : hit.raw.cluster ≠ 0 → c = hit.raw.cluster) :
    ∃ m', FileChange v l hit m hit.raw.fileSize 0 [] v₁ hit.raw m' := by
  have hraws : v₁.raws l = (v.raws l).set hit.entryIndex hit.raw := by
    rw [h.set_slot]
    apply hgrown.shape.raws
    intro x hx
    apply hgrown.store_data_of_not_mem
    exact fun hxe => hgrown.dir_apart h.dir h.apart x hx (List.mem_append_right _ hxe)
  have hnext : ∀ x, ¬ v.Free x → x ∉ m → v₁.store.next x = v.store.next x :=
    fun x hfree hxm => hgrown.next x hxm fun hxe => hfree (hgrown.free x hxe)
  have hdata : ∀ x, ¬ v.Free x → x ∉ m → x ∉ l → v₁.store.data x = v.store.data x :=
    fun x hfree _ _ => hgrown.store_data_of_not_mem fun hxe => hfree (hgrown.free x hxe)
  have hsize : hit.raw.fileSize ≤ v.room m := by
    rw [h.size]
    exact h.room
  by_cases hzero : hit.raw.cluster = 0
  · obtain rfl : m = [] := (hzero ▸ h.chain).nil_of_zero
    have hempty : hit.raw.fileSize = 0 := by
      rw [Vol.room, List.length_nil, Nat.zero_mul] at hsize
      exact Nat.le_zero.mp hsize
    refine ⟨[], ⟨⟨hgrown.shape, ?_, ?_, hnext, hdata, hraws, SameName.refl _⟩, rfl, ?_, ?_⟩⟩
    · rw [hzero]
      exact Vol.Holds.empty v₁
    · intro x hx
      cases hx
    · rw [hempty]
      exact Nat.zero_le _
    · intro j hj
      rw [hempty] at hj
      cases hj
  · refine ⟨m ++ ext, ⟨⟨hgrown.shape, ?_, ?_, hnext, hdata, hraws, SameName.refl _⟩, rfl, ?_, ?_⟩⟩
    · rw [← hkeep hzero]
      exact hgrown.holds
    · exact fun x hx => (List.mem_append.mp hx).imp id (hgrown.free x)
    · rw [Vol.room, hgrown.shape.clusterBytes]
      exact Nat.le_trans hsize (v.room_append m ext)
    · intro j hj
      rw [if_neg (by rw [List.length_nil]; omega)]
      exact hgrown.bytes h.geometry h.chain
        (Nat.lt_of_lt_of_le (Nat.lt_of_lt_of_le hj hsize) (v.room_append m ext))

/-- The bytes of a file that has grown and been written to. -/
theorem FileChange.of_written (h : v.FileAt d hit.entryIndex l m hit.raw w)
    (hgrown : Grown v m ext c v₁) (hw : FileWritten v₁ (m ++ ext) offset buf v₂)
    (hslots : SlotsWritten v₂ l ((v.raws l).set hit.entryIndex raw') v₃)
    (hname : SameName hit.raw raw') (hcluster : raw'.cluster = c)
    (hroom : raw'.fileSize ≤ v.room (m ++ ext)) :
    FileChange v l hit m raw'.fileSize offset buf v₃ raw' (m ++ ext) := by
  have hshape₂ := hgrown.shape.trans hw.shape
  have hapart := hgrown.dir_apart h.dir h.apart
  refine ⟨⟨hshape₂.trans hslots.shape, ?_, ?_, ?_, ?_, hslots.raws, hname⟩, rfl, ?_, ?_⟩
  · rw [hcluster]
    exact hslots.holds (hgrown.holds.congr hw.shape fun x _ => by rw [hw.next])
  · exact fun x hx => (List.mem_append.mp hx).imp id (hgrown.free x)
  · intro x hfree hxm
    rw [hslots.next, hw.next]
    exact hgrown.next x hxm fun hxe => hfree (hgrown.free x hxe)
  · intro x hfree hxm hxl
    have hxe : x ∉ ext := fun hxe => hfree (hgrown.free x hxe)
    rw [hslots.data x hxl, hw.data x fun hx => (List.mem_append.mp hx).elim hxm hxe]
    exact hgrown.store_data_of_not_mem hxe
  · rw [Vol.room, hslots.shape.clusterBytes, hshape₂.clusterBytes]
    exact hroom
  · intro j hj
    have hj₀ : j < v.room (m ++ ext) := Nat.lt_of_lt_of_le hj hroom
    have hj₁ : j < v₁.room (m ++ ext) := by
      rw [Vol.room, hgrown.shape.clusterBytes]
      exact hj₀
    have hj₂ : j < v₂.room (m ++ ext) := by
      rw [Vol.room, hshape₂.clusterBytes]
      exact hj₀
    rw [hslots.shape.bytes_eq (fun x hx => hslots.data x fun hxl => hapart x hxl hx) hj₂,
      hw.bytes j hj₁, hgrown.bytes h.geometry h.chain hj₀]

/-- A chain that is cut to the clusters a size needs has the bytes of the old one. -/
theorem FileChange.of_cut (h : v.FileAt d hit.entryIndex l m hit.raw w)
    (hgrown : Grown v m ext c v₁) {needed : Nat} (hle : needed ≤ (m ++ ext).length)
    (hshape : SameShape v₁ v₂) (hdata : v₂.store.data = v₁.store.data)
    (hnext : ∀ x, x ∉ m ++ ext → v₂.store.next x = v₁.store.next x)
    (hchain : v₂.Chain c ((m ++ ext).take needed))
    (hslots : SlotsWritten v₂ l ((v.raws l).set hit.entryIndex raw') v₃)
    (hname : SameName hit.raw raw') (hcluster : raw'.cluster = c)
    (hroom : raw'.fileSize ≤ needed * v.clusterBytes) :
    FileChange v l hit m raw'.fileSize 0 [] v₃ raw' ((m ++ ext).take needed) := by
  have hshape₂ := hgrown.shape.trans hshape
  have hapart := hgrown.dir_apart h.dir h.apart
  have hlen : ((m ++ ext).take needed).length = needed := by
    rw [List.length_take]
    exact Nat.min_eq_left hle
  refine ⟨⟨hshape₂.trans hslots.shape, ?_, ?_, ?_, ?_, hslots.raws, hname⟩, rfl, ?_, ?_⟩
  · rw [hcluster]
    exact hslots.holds (.of_chain hchain)
  · intro x hx
    exact (List.mem_append.mp (List.mem_of_mem_take hx)).imp id (hgrown.free x)
  · intro x hfree hxm
    have hxe : x ∉ ext := fun hxe => hfree (hgrown.free x hxe)
    rw [hslots.next, hnext x fun hx => (List.mem_append.mp hx).elim hxm hxe]
    exact hgrown.next x hxm hxe
  · intro x hfree hxm hxl
    have hxe : x ∉ ext := fun hxe => hfree (hgrown.free x hxe)
    rw [hslots.data x hxl, hdata]
    exact hgrown.store_data_of_not_mem hxe
  · rw [Vol.room, hlen, hslots.shape.clusterBytes, hshape₂.clusterBytes]
    exact hroom
  · intro j hj
    have hjn : j < needed * v.clusterBytes := Nat.lt_of_lt_of_le hj hroom
    have hj₀ : j < v.room (m ++ ext) := by
      rw [Vol.room]
      exact Nat.lt_of_lt_of_le hjn (Nat.mul_le_mul_right _ hle)
    have hj₂ : j < v₂.room ((m ++ ext).take needed) := by
      rw [Vol.room, hlen, hshape₂.clusterBytes]
      exact hjn
    have hjv : j < v.room ((m ++ ext).take needed) := by
      rw [Vol.room, hlen]
      exact hjn
    have htake : v₂.bytes ((m ++ ext).take needed) j = v₁.bytes (m ++ ext) j := by
      have hbytes := v₂.bytes_append ((m ++ ext).drop needed) hj₂
      rw [List.take_append_drop] at hbytes
      rw [← hbytes, Vol.bytes, Vol.bytes, hshape.clusterBytes, hdata]
    rw [if_neg (by rw [List.length_nil]; omega), ← hgrown.bytes h.geometry h.chain hj₀, ← htake]
    apply hslots.shape.bytes_eq _ hj₂
    intro x hx
    apply hslots.data x
    exact fun hxl => hapart x hxl (List.mem_of_mem_take hx)

/-- A file that has lost its clusters. -/
theorem FileChange.of_cleared (hshape : SameShape v v₁) (hstore : v₁.store = v.store.clear m)
    (hslots : SlotsWritten v₁ l ((v.raws l).set hit.entryIndex (hit.raw.withChain 0 0)) v₂) :
    FileChange v l hit m 0 0 [] v₂ (hit.raw.withChain 0 0) [] := by
  have hcluster : (hit.raw.withChain 0 0).cluster = 0 :=
    RawDirent.withChain_cluster hit.raw (by decide) 0
  refine ⟨⟨hshape.trans hslots.shape, ?_, ?_, ?_, ?_, hslots.raws,
    RawDirent.sameName_withChain _ _ _⟩, ?_, Nat.zero_le _, ?_⟩
  · rw [hcluster]
    exact Vol.Holds.empty v₂
  · intro x hx
    cases hx
  · intro x _ hxm
    rw [hslots.next, hstore, ClusterStore.clear_next, if_neg hxm]
  · intro x _ _ hxl
    rw [hslots.data x hxl, hstore, ClusterStore.clear_data]
  · exact RawDirent.withChain_fileSize hit.raw 0 (by decide)
  · intro j hj
    cases hj

end Change

/-- The first `size` bytes of the clusters `m`. -/
def Vol.contents (v : Vol) (m : List Nat) (size : Nat) : List UInt8 :=
  (List.range size).map (v.bytes m)

theorem Vol.contents_length (v : Vol) (m : List Nat) (size : Nat) :
    (v.contents m size).length = size := by
  rw [Vol.contents, List.length_map, List.length_range]

theorem Vol.contents_getElem? (v : Vol) (m : List Nat) {j : Nat} (hj : j < size) :
    (v.contents m size)[j]? = some (v.bytes m j) := by
  rw [Vol.contents, List.getElem?_map, List.getElem?_range hj]
  rfl

namespace FileChange

theorem fileAt (u : FileChange v l hit m size offset buf v' raw' m')
    (h : v.FileAt d hit.entryIndex l m hit.raw w) :
    v'.FileAt d hit.entryIndex l m' raw' (v'.contents m' size) where
  geometry := u.shape.geometry h.geometry
  dir := Vol.Chain.congr u.shape h.dir fun x hx =>
    u.next x (Geometry.chain_not_free h.dir hx) (h.apart x hx)
  slot := by
    rw [u.raws]
    exact List.getElem?_set_self (List.getElem?_eq_some_iff.mp h.slot).1
  chain := u.holds'
  apart x hx hmem := by
    rcases u.sub x hmem with hxm | hfree
    · exact h.apart x hx hxm
    · exact Geometry.chain_not_free h.dir hx hfree
  room := by
    rw [Vol.contents_length]
    exact u.room
  bytes := by
    rw [u.fileSize]
    rfl

/-- A change of the clusters alone keeps the contents. -/
theorem contents_eq (u : FileChange v l hit m hit.raw.fileSize 0 [] v' raw' m')
    (h : v.FileAt d hit.entryIndex l m hit.raw w) : v'.contents m' hit.raw.fileSize = w := by
  conv_rhs => rw [h.bytes]
  apply List.map_congr_left
  intro j hj
  have hsize : j < hit.raw.fileSize := List.mem_range.mp hj
  have hroom : j < v.room m := by
    rw [h.size] at hsize
    exact Nat.lt_of_lt_of_le hsize h.room
  rw [u.bytes j hsize, if_neg (by rw [List.length_nil]; omega), if_pos hroom]

/-- The bytes that have been written are read back. -/
theorem contents_inside (u : FileChange v l hit m size offset buf v' raw' m')
    (hsize : offset + buf.length ≤ size) {j : Nat} (hj : j < buf.length) :
    (v'.contents m' size)[offset + j]? = buf[j]? := by
  have hin : offset + j < size := by omega
  rw [Vol.contents_getElem? _ _ hin, u.bytes _ hin, if_pos (by omega), Nat.add_sub_cancel_left,
    List.getD_eq_getElem _ _ hj, List.getElem?_eq_getElem hj]

/-- The other bytes are what they were. -/
theorem contents_outside (u : FileChange v l hit m size offset buf v' raw' m')
    (h : v.FileAt d hit.entryIndex l m hit.raw w) {j : Nat} (hsize : j < size) (hj : j < w.length)
    (hout : j < offset ∨ offset + buf.length ≤ j) : (v'.contents m' size)[j]? = w[j]? := by
  have hold : j < hit.raw.fileSize := by
    rw [h.size]
    exact hj
  rw [Vol.contents_getElem? _ _ hsize, u.bytes _ hsize, if_neg (by omega),
    if_pos (Nat.lt_of_lt_of_le hj h.room)]
  conv_rhs => rw [h.bytes]
  exact (Vol.contents_getElem? _ _ hold).symm

theorem refl (h : v.FileAt d hit.entryIndex l m hit.raw w) :
    FileChange v l hit m hit.raw.fileSize 0 [] v hit.raw m where
  shape := SameShape.refl v
  holds' := h.chain
  sub x hx := Or.inl hx
  next _ _ _ := rfl
  data _ _ _ _ := rfl
  raws := h.set_slot.symm
  name := SameName.refl _
  fileSize := rfl
  room := by
    rw [h.size]
    exact h.room
  bytes j hj := by
    rw [h.size] at hj
    rw [if_neg (by rw [List.length_nil]; omega), if_pos (Nat.lt_of_lt_of_le hj h.room)]

end FileChange

section Operations

variable {k k' : Kernel} {vn n : Nat} {r : Outcome Errno Int}

/-- The vnode `vn` with the node `n` is open on the entry `hit` of the directory
with the clusters `l`, as a lookup leaves it. -/
structure Kernel.OpenOn (k : Kernel) (vn n : Nat) (l : List Nat) (hit : DirHit) : Prop where
  data : (k.vnode vn).data = n
  type : (k.vnode vn).type = .file
  node : (k.fatNodes.slot n).Reflects k.vol l hit.entryIndex hit.raw

/-- `fat32_write_op` that ends below 4 GiB: the disk is full, or all is written. -/
inductive WriteDone (k : Kernel) (n : Nat) (l : List Nat) (hit : DirHit) (m : List Nat)
    (offset : Nat) (buf : List UInt8) : Outcome Errno Int → Kernel → Prop
  | full {node : Fat32Node} {v' : Vol} {m' : List Nat} :
      FileChange k.vol l hit m hit.raw.fileSize 0 [] v' hit.raw m' →
      node.At v' l hit.entryIndex →
      WriteDone k n l hit m offset buf (.err .nospc) (k.withFile n node v')
  | done {node : Fat32Node} {v' : Vol} {raw' : RawDirent} {m' : List Nat} :
      FileChange k.vol l hit m (max hit.raw.fileSize (offset + buf.length)) offset buf v' raw' m' →
      node.Reflects v' l hit.entryIndex raw' →
      WriteDone k n l hit m offset buf (.ok (cInt buf.length)) (k.withFile n node v')

/-- `fat32_truncate_op` to a size below 4 GiB. -/
inductive TruncateDone (k : Kernel) (n : Nat) (l : List Nat) (hit : DirHit) (m : List Nat)
    (size : Nat) : Outcome Errno Unit → Kernel → Prop
  | full {node : Fat32Node} {v' : Vol} {m' : List Nat} :
      FileChange k.vol l hit m hit.raw.fileSize 0 [] v' hit.raw m' →
      node.At v' l hit.entryIndex →
      TruncateDone k n l hit m size (.err .nospc) (k.withFile n node v')
  | done {node : Fat32Node} {v' : Vol} {raw' : RawDirent} {m' : List Nat} :
      FileChange k.vol l hit m size 0 [] v' raw' m' →
      node.Reflects v' l hit.entryIndex raw' →
      TruncateDone k n l hit m size (.ok ()) (k.withFile n node v')

theorem Kernel.withFile_self (k : Kernel) (n : Nat) :
    k.withFile n (k.fatNodes.slot n) k.vol = k := by
  rw [Kernel.withFile, Pool.setSlot_self]

/-- The entry of a file that a failed operation has left alone. -/
theorem Vol.FileAt.kept_of_open (h : k.vol.FileAt d hit.entryIndex l m hit.raw w)
    (ho : k.OpenOn vn n l hit) (hgrown : Grown k.vol m ext c v₁)
    (hkeep : (k.fatNodes.slot n).cluster ≠ 0 → c = (k.fatNodes.slot n).cluster) :
    ∃ m', FileChange k.vol l hit m hit.raw.fileSize 0 [] v₁ hit.raw m' := by
  rw [ho.node.cluster] at hkeep
  exact h.kept hgrown hkeep

/-- The node behind an operation that has updated the entry. -/
theorem Kernel.OpenOn.place (ho : k.OpenOn vn n l hit) (c : Nat) (hshape : SameShape k.vol v') :
    ({ k.fatNodes.slot n with cluster := c } : Fat32Node).At v' l hit.entryIndex := by
  rw [Fat32Node.At, hshape.place]
  exact ho.node.place

theorem Kernel.OpenOn.reflects (ho : k.OpenOn vn n l hit) (hshape : SameShape k.vol v')
    (hc : c < 4294967296) (hsize : size < 4294967296) :
    ({ k.fatNodes.slot n with cluster := c, size := size } : Fat32Node).Reflects v' l
      hit.entryIndex (hit.raw.withChain c size) where
  place := ho.place c hshape
  cluster := (RawDirent.withChain_cluster hit.raw hc _).symm
  size := (RawDirent.withChain_fileSize hit.raw _ hsize).symm

/-- A write inside the file leaves its entry alone. -/
theorem FileChange.of_inside (h : k.vol.FileAt d hit.entryIndex l m hit.raw w)
    (ho : k.OpenOn vn n l hit) (hgrown : Grown k.vol m ext c v₁)
    (hkeep : (k.fatNodes.slot n).cluster ≠ 0 → c = (k.fatNodes.slot n).cluster)
    (hw : FileWritten v₁ (m ++ ext) offset buf v₂) (hpos : 0 < hit.raw.fileSize) :
    c = hit.raw.cluster ∧
      FileChange k.vol l hit m hit.raw.fileSize offset buf v₂ hit.raw (m ++ ext) := by
  have hold : hit.raw.fileSize ≤ k.vol.room m := by
    rw [h.size]
    exact h.room
  have hzero : hit.raw.cluster ≠ 0 := by
    intro hzero
    have hm := h.chain
    rw [hzero] at hm
    rw [hm.nil_of_zero, Vol.room, List.length_nil, Nat.zero_mul] at hold
    omega
  have hc : c = hit.raw.cluster := by
    rw [← ho.node.cluster]
    exact hkeep (ho.node.cluster.symm ▸ hzero)
  have hraws : v₂.raws l = (k.vol.raws l).set hit.entryIndex hit.raw := by
    rw [h.set_slot]
    exact (hgrown.written_frame hw.toBytesWritten h.dir h.apart).2
  exact ⟨hc, FileChange.of_written h hgrown hw (hraws ▸ SlotsWritten.refl v₂ l)
    (SameName.refl _) hc.symm (Nat.le_trans hold (k.vol.room_append m ext))⟩

theorem fat32WriteOp_done (h : k.vol.FileAt d hit.entryIndex l m hit.raw w)
    (ho : k.OpenOn vn n l hit) (hbuf : buf ≠ []) (hend : offset + buf.length < 4294967296) :
    ∃ r k', fat32WriteOp vn buf offset k = (r, k') ∧ WriteDone k n l hit m offset buf r k' := by
  have g := h.geometry
  have hpos := List.length_pos_iff.mpr hbuf
  have hstop : u64 (offset + buf.length) = offset + buf.length := u64_of_lt (by omega)
  obtain ⟨r, k', hrun, hends⟩ : ∃ r k', fat32WriteOp vn buf offset k = (r, k') ∧
      WriteEnds k n l m hit.entryIndex hit.raw offset buf r k' := by
    apply fat32WriteOp_spec g ho.data ho.type h.dir ho.node.place h.slot
      (ho.node.cluster ▸ h.chain) h.apart hbuf
    intro _
    rw [hstop]
    exact clustersNeeded_ne_zero g (by omega) hend
  refine ⟨r, k', hrun, ?_⟩
  cases hends with
  | refused _ _ =>
      have hfull : WriteDone k n l hit m offset buf (.err .nospc)
          (k.withFile n (k.fatNodes.slot n) k.vol) :=
        .full (FileChange.refl h) ho.node.place
      rw [Kernel.withFile_self] at hfull
      exact hfull
  | partly hgrown hkeep _ _ =>
      obtain ⟨m', hchange⟩ := h.kept_of_open ho hgrown hkeep
      exact .full hchange (ho.place _ hchange.shape)
  | behind _ _ hneeded _ hbehind =>
      rw [hstop] at hneeded
      have := le_room_of_clustersNeeded g hend hneeded
      omega
  | inside hgrown hkeep _ _ _ hw hinside =>
      rw [hstop, ho.node.size] at hinside
      have hsize : max hit.raw.fileSize (offset + buf.length) = hit.raw.fileSize :=
        Nat.max_eq_left hinside
      obtain ⟨hc, hchange⟩ := FileChange.of_inside h ho hgrown hkeep hw (by omega)
      rw [← hsize] at hchange
      exact .done hchange ⟨ho.place _ hchange.shape, hc, ho.node.size⟩
  | @beyond c ext v₁ v₂ v₃ hgrown hkeep hneeded _ _ hw hbeyond hslots =>
      rw [hstop, ho.node.size] at hbeyond
      rw [hstop] at hneeded hslots ⊢
      rw [u32_of_lt hend] at hslots ⊢
      have hsize : max hit.raw.fileSize (offset + buf.length) = offset + buf.length :=
        Nat.max_eq_right (Nat.le_of_lt hbeyond)
      have hc : c < 4294967296 := hgrown.holds.head_lt (hgrown.geometry g)
      have hfile := (RawDirent.withChain_fileSize hit.raw c hend).trans hsize.symm
      have hchange := FileChange.of_written h hgrown hw hslots
        (RawDirent.sameName_withChain _ _ _) (RawDirent.withChain_cluster hit.raw hc _)
        (by rw [hfile, hsize]; exact le_room_of_clustersNeeded g hend hneeded)
      rw [hfile] at hchange
      exact .done hchange (ho.reflects hchange.shape hc hend)

theorem fat32TruncateOp_done (h : k.vol.FileAt d hit.entryIndex l m hit.raw w)
    (ho : k.OpenOn vn n l hit) (hsize : size < 4294967296) :
    ∃ r k', fat32TruncateOp vn size k = (r, k') ∧ TruncateDone k n l hit m size r k' := by
  have g := h.geometry
  obtain ⟨r, k', hrun, hends⟩ := fat32TruncateOp_spec g ho.data ho.type h.dir ho.node.place h.slot
    (ho.node.cluster ▸ h.chain) h.apart size
  refine ⟨r, k', hrun, ?_⟩
  have hself : ∀ {r : Outcome Errno Unit}, TruncateDone k n l hit m size r
      (k.withFile n (k.fatNodes.slot n) k.vol) → TruncateDone k n l hit m size r k := by
    intro r hdone
    rwa [Kernel.withFile_self] at hdone
  cases hends with
  | same hsame =>
      rw [ho.node.size] at hsame
      exact hself (.done (hsame ▸ FileChange.refl h) ho.node)
  | emptied hzero hshape hstore hslots =>
      subst hzero
      have hchange := FileChange.of_cleared hshape hstore hslots
      exact .done hchange (ho.reflects hchange.shape (by decide) (by decide))
  | refused _ _ _ => exact hself (.full (FileChange.refl h) ho.node.place)
  | partly _ hgrown hkeep _ _ =>
      obtain ⟨m', hchange⟩ := h.kept_of_open ho hgrown hkeep
      exact .full hchange (ho.place _ hchange.shape)
  | wrapped hne hwrap => exact absurd hwrap (clustersNeeded_ne_zero g (by omega) hsize)
  | @cut c ext v₁ v₂ v₃ _ hne _ hgrown hkeep hneeded _ hshape hdata hnext hchain _ hslots =>
      rw [u32_of_lt hsize] at hslots ⊢
      have hc : c < 4294967296 := hgrown.holds.head_lt (hgrown.geometry g)
      have hfile := RawDirent.withChain_fileSize hit.raw c hsize
      have hroom : size ≤ clustersNeeded k.vol.fs size * k.vol.clusterBytes := by
        have hroom := le_room_of_clustersNeeded g hsize
          (Nat.le_of_eq (List.length_replicate (a := 0)).symm)
        rwa [Vol.room, List.length_replicate] at hroom
      have hchange := FileChange.of_cut h hgrown hneeded hshape hdata hnext hchain hslots
        (RawDirent.sameName_withChain _ _ _) (RawDirent.withChain_cluster hit.raw hc _)
        (by rw [hfile]; exact hroom)
      rw [hfile] at hchange
      exact .done hchange (ho.reflects hchange.shape hc hsize)

/-- A wrapped cluster count of zero leaves a file without clusters, and the search for
its first one ends at the mark in the first FAT entry. -/
theorem fat32WriteOp_wrapped {k : Kernel} (g : Geometry k.vol) (ho : k.OpenOn vn n l hit)
    (hbuf : buf ≠ []) {offset : Nat} (hcluster : (k.fatNodes.slot n).cluster = 0)
    (hneeded : clustersNeeded k.vol.fs (u64 (offset + buf.length)) = 0)
    (hmark : fat32Eoc ≤ k.vol.store.next 0) (hskip : k.vol.clusterBytes ≤ offset) :
    fat32WriteOp vn buf offset k = (.err .io, k) := by
  have hread : fat32ReadFatEntry 0 k.vol = (.ok (k.vol.store.next 0), k.vol) :=
    fat32ReadFatEntry_eq g (Nat.zero_le _)
  obtain ⟨skip, hsucc⟩ : ∃ skip, offset / k.vol.fs.clusterSize = skip + 1 := by
    rw [g.clusterSize_eq]
    apply Nat.exists_eq_add_one_of_ne_zero
    exact Nat.ne_of_gt (Nat.div_pos hskip g.clusterBytes_pos)
  have hdata : fat32WriteData 0 offset buf k.vol = (.err .io, k.vol) := by
    rw [fat32WriteData, Prog.bind_ok (show getFs k.vol = (.ok k.vol.fs, k.vol) from rfl), hsucc,
      fat32SkipClusters]
    have hskipped : (Prog.orElse (fat32ReadFatEntry 0) .io >>= fun next =>
        if fat32Eoc ≤ next then pure none else fat32SkipClusters skip next) k.vol =
        (.ok none, k.vol) := by
      rw [Prog.bind_ok (Prog.orElse_ok hread _), if_pos hmark, Prog.pure_apply]
    rw [Prog.bind_ok hskipped]
    rfl
  rw [fat32WriteOp, Prog.get_bind]
  simp only [ho.data, ho.type, ne_eq, not_true_eq_false, ↓reduceIte, hbuf, hneeded]
  rw [Prog.bind_ok (Prog.orElse_ok (fat32EnsureChain_zero k n) _), Prog.get_bind, hcluster]
  exact Prog.bind_err (onVol_apply hdata) _

end Operations

end OsAgentLab
