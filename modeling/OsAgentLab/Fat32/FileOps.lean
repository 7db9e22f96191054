/-
Write and truncate on open files: where they stop, and what they leave behind
on the volume and in the node.
-/
import OsAgentLab.Fat32.FileEntry
import OsAgentLab.Fat32.NodeOps

namespace OsAgentLab

variable {k : Kernel} {v v' : Vol} {c d : Nat} {l m : List Nat}

/-- The kernel with another volume and another FAT32 node `n`. -/
def Kernel.withFile (k : Kernel) (n : Nat) (node : Fat32Node) (v : Vol) : Kernel :=
  { k with vol := v, fatNodes := k.fatNodes.setSlot n node }

section Ensure

theorem Pool.setSlot_setSlot {α : Type} (p : Pool α) (i : Nat) (a b : α) :
    (p.setSlot i a).setSlot i b = p.setSlot i b := by
  simp only [Pool.setSlot, Pool.mk.injEq, true_and]
  funext j
  by_cases h : j = i <;> simp [h]

theorem Pool.setSlot_self {α : Type} (p : Pool α) (i : Nat) : p.setSlot i (p.slot i) = p := by
  simp only [Pool.setSlot]
  congr
  funext j
  by_cases h : j = i <;> simp [h]

/-- `fat32_ensure_chain` on the node `n` whose object has the clusters `m`. -/
theorem fat32EnsureChain_spec (g : Geometry k.vol) (n needed : Nat)
    (h : k.vol.Holds (k.fatNodes.slot n).cluster m) :
    (fat32EnsureChain n needed k = (.err .nospc, k) ∧ (k.fatNodes.slot n).cluster = 0 ∧
      needed ≠ 0 ∧ ∀ x, ¬ k.vol.Free x) ∨
    ∃ c ext v', Grown k.vol m ext c v' ∧
      ((k.fatNodes.slot n).cluster ≠ 0 ∨ needed = 0 → c = (k.fatNodes.slot n).cluster) ∧
      (needed ≠ 0 → c ≠ 0) ∧
      ((fat32EnsureChain n needed k =
            (.ok (), k.withFile n { k.fatNodes.slot n with cluster := c } v') ∧
          needed ≤ (m ++ ext).length ∧ (ext ≠ [] → (m ++ ext).length = needed)) ∨
        (fat32EnsureChain n needed k =
            (.err .nospc, k.withFile n { k.fatNodes.slot n with cluster := c } v') ∧
          (∀ x, ¬ v'.Free x) ∧ (m ++ ext).length < needed)) := by
  rcases fat32Ensure_spec g needed h with
    ⟨hrun, hzero, hneeded, hnone⟩ | ⟨c, mid, ext, v', hstart, hgrown, hsame, hne, hrest⟩
  · refine Or.inl ⟨?_, hzero, hneeded, hnone⟩
    rw [fat32EnsureChain, Prog.get_bind, Prog.bind_err (onVol_apply hrun)]
    rfl
  · refine Or.inr ⟨c, ext, v', hgrown, hsame, hne, ?_⟩
    have hcall : ∀ {r : Outcome Errno Unit}, fat32EnsureRest c needed mid = (r, v') →
        fat32EnsureChain n needed k =
          (r, k.withFile n { k.fatNodes.slot n with cluster := c } v') := by
      intro r hrun
      rw [fat32EnsureChain, Prog.get_bind, Prog.bind_ok (onVol_apply hstart), Prog.modify_bind]
      exact @onVol_apply ((k.withVol mid).setFatNode n { k.fatNodes.slot n with cluster := c })
        _ _ _ v' hrun
    exact hrest.imp (And.imp_left hcall) (And.imp_left hcall)

end Ensure

section Cut

/-- The end of `fat32_truncate_op` leaves the first `needed` clusters. -/
theorem fat32CutChain_eq (g : Geometry v) (h : v.Chain c l) {needed : Nat} (hpos : 0 < needed)
    (hle : needed ≤ l.length) (hlt : needed < 4294967296) :
    ∃ v', fat32CutChain c needed v = (.ok (), v') ∧ SameShape v v' ∧
      v'.store.data = v.store.data ∧ (∀ x, x ∉ l → v'.store.next x = v.store.next x) ∧
      v'.Chain c (l.take needed) ∧ ∀ x ∈ l.drop needed, v'.Free x := by
  obtain ⟨n, rfl⟩ := Nat.exists_eq_add_one_of_ne_zero (Nat.ne_of_gt hpos)
  have hlen : n < l.length := hle
  have hidx : u32 (n + 1 + 4294967295) = n := by
    simp only [u32]
    omega
  have hget := fat32GetClusterAt_eq g h n
  rw [dif_pos hlen] at hget
  have hlast := IsChain.node_of_mem h _ (List.get_mem l ⟨n, hlen⟩)
  have hdrop := IsChain.drop h hlen
  rw [fat32CutChain, hidx, Prog.bind_ok (Prog.orElse_ok hget _),
    Prog.bind_ok (Prog.orElse_ok (fat32ReadFatEntry_eq g hlast.2) _)]
  have hsplit : l.drop n = l[n] :: l.drop (n + 1) := List.drop_eq_getElem_cons hlen
  by_cases hrest : l.drop (n + 1) = []
  · -- the chain ends where it is cut
    rw [hsplit, hrest] at hdrop
    have hend : fat32Eoc ≤ v.store.next (l.get ⟨n, hlen⟩) := by
      have := IsChain.next_getLast hdrop
      simpa using this
    rw [if_neg (Nat.not_lt_of_le hend), Prog.pure_apply]
    have hall : l.take (n + 1) = l :=
      List.take_of_length_le (List.drop_eq_nil_iff.mp hrest)
    exact ⟨v, rfl, SameShape.refl v, rfl, fun _ _ => rfl, hall.symm ▸ h, by simp [hrest]⟩
  · have hnodup := g.chain_nodup h
    rw [hsplit] at hdrop
    have hchain : v.Chain (v.store.next (l.get ⟨n, hlen⟩)) (l.drop (n + 1)) :=
      IsChain.rest_chain hdrop hrest
    rw [if_pos (g.inData_lt_eoc (IsChain.head_node hchain))]
    obtain ⟨v₁, hcut, hshape₁, _, hstore₁⟩ := fat32WriteFatEntry_eq g fat32Eoc hlast.2 (by decide)
    -- the cut end is not among the clusters that are freed
    have hcutNot : l.get ⟨n, hlen⟩ ∉ l.drop (n + 1) := by
      have := (List.nodup_append.mp (List.take_append_drop n l ▸ hnodup)).2.1
      rw [hsplit] at this
      exact (List.nodup_cons.mp this).1
    have hchain₁ : v₁.Chain (v.store.next (l.get ⟨n, hlen⟩)) (l.drop (n + 1)) :=
      Vol.Chain.congr hshape₁ hchain fun x hx => by
        rw [hstore₁, ClusterStore.setNext_next, if_neg]
        rintro rfl
        exact hcutNot hx
    obtain ⟨v₂, hfree, hshape₂, hstore₂⟩ := fat32FreeChain_eq (hshape₁.geometry g) hchain₁
    have hshape := hshape₁.trans hshape₂
    have hnext : ∀ x, v₂.store.next x = if x ∈ l.drop (n + 1) then 0
        else if x = l.get ⟨n, hlen⟩ then fat32Eoc else v.store.next x := by
      intro x
      rw [hstore₂, hstore₁]
      rfl
    have htake : ∀ x ∈ l.take n, x ∉ l.drop (n + 1) ∧ x ≠ l.get ⟨n, hlen⟩ := by
      intro x hx
      have hcross := (List.nodup_append.mp (List.take_append_drop n l ▸ hnodup)).2.2 x hx
      rw [hsplit] at hcross
      exact ⟨fun hin => hcross x (List.mem_cons_of_mem _ hin) rfl,
        fun heq => hcross x (heq ▸ List.mem_cons_self) rfl⟩
    refine ⟨v₂, ?_, hshape, by rw [hstore₂, hstore₁]; rfl, ?_, ?_, ?_⟩
    · rw [Prog.bind_ok (Prog.orElse_ok hcut _)]
      exact Prog.orElse_ok hfree _
    · intro x hx
      rw [hnext, if_neg fun hin => hx (List.mem_of_mem_drop hin), if_neg]
      rintro rfl
      exact hx (List.get_mem l ⟨n, hlen⟩)
    · have hkept : IsChain v₂.store.next v.InData (fun x => fat32Eoc ≤ x) c (l.take (n + 1)) := by
        refine IsChain.take h hnodup hlen (fun x hx => ?_) ?_
        · rw [hnext, if_neg (htake x hx).1, if_neg (htake x hx).2]
        · rw [hnext, if_neg hcutNot, if_pos rfl]
      exact hkept.node_congr fun x hx => hshape.inData.mpr
        (IsChain.node_of_mem h x (List.mem_of_mem_take hx))
    · intro x hx
      refine ⟨hshape.inData.mpr (IsChain.node_of_mem h x (List.mem_of_mem_drop hx)), ?_⟩
      rw [hnext, if_pos hx]

end Cut

section Write

/-- How `fat32_write_op` ends on an open file with the node `n`, whose entry is
the slot `i`, holding `raw`, of the directory with the clusters `l`, and whose
node has the clusters `m`. -/
inductive WriteEnds (k : Kernel) (n : Nat) (l m : List Nat) (i : Nat) (raw : RawDirent)
    (offset : Nat) (buf : List UInt8) : Outcome Errno Int → Kernel → Prop
  | refused : (k.fatNodes.slot n).cluster = 0 → (∀ x, ¬ k.vol.Free x) →
      WriteEnds k n l m i raw offset buf (.err .nospc) k
  | partly {c : Nat} {ext : List Nat} {v₁ : Vol} : Grown k.vol m ext c v₁ →
      ((k.fatNodes.slot n).cluster ≠ 0 → c = (k.fatNodes.slot n).cluster) →
      (∀ x, ¬ v₁.Free x) →
      (m ++ ext).length < clustersNeeded k.vol.fs (u64 (offset + buf.length)) →
      WriteEnds k n l m i raw offset buf (.err .nospc)
        (k.withFile n { k.fatNodes.slot n with cluster := c } v₁)
  | behind {c : Nat} {ext : List Nat} {v₁ : Vol} : Grown k.vol m ext c v₁ →
      ((k.fatNodes.slot n).cluster ≠ 0 → c = (k.fatNodes.slot n).cluster) →
      clustersNeeded k.vol.fs (u64 (offset + buf.length)) ≤ (m ++ ext).length →
      (ext ≠ [] → (m ++ ext).length = clustersNeeded k.vol.fs (u64 (offset + buf.length))) →
      k.vol.room (m ++ ext) ≤ offset →
      WriteEnds k n l m i raw offset buf (.err .io)
        (k.withFile n { k.fatNodes.slot n with cluster := c } v₁)
  | inside {c : Nat} {ext : List Nat} {v₁ v₂ : Vol} : Grown k.vol m ext c v₁ →
      ((k.fatNodes.slot n).cluster ≠ 0 → c = (k.fatNodes.slot n).cluster) →
      clustersNeeded k.vol.fs (u64 (offset + buf.length)) ≤ (m ++ ext).length →
      (ext ≠ [] → (m ++ ext).length = clustersNeeded k.vol.fs (u64 (offset + buf.length))) →
      offset < k.vol.room (m ++ ext) → FileWritten v₁ (m ++ ext) offset buf v₂ →
      u64 (offset + buf.length) ≤ (k.fatNodes.slot n).size →
      WriteEnds k n l m i raw offset buf (.ok (cInt buf.length))
        (k.withFile n { k.fatNodes.slot n with cluster := c } v₂)
  | beyond {c : Nat} {ext : List Nat} {v₁ v₂ v₃ : Vol} : Grown k.vol m ext c v₁ →
      ((k.fatNodes.slot n).cluster ≠ 0 → c = (k.fatNodes.slot n).cluster) →
      clustersNeeded k.vol.fs (u64 (offset + buf.length)) ≤ (m ++ ext).length →
      (ext ≠ [] → (m ++ ext).length = clustersNeeded k.vol.fs (u64 (offset + buf.length))) →
      offset < k.vol.room (m ++ ext) → FileWritten v₁ (m ++ ext) offset buf v₂ →
      (k.fatNodes.slot n).size < u64 (offset + buf.length) →
      SlotsWritten v₂ l
        ((k.vol.raws l).set i (raw.withChain c (u32 (u64 (offset + buf.length))))) v₃ →
      WriteEnds k n l m i raw offset buf (.ok (cInt buf.length))
        (k.withFile n { k.fatNodes.slot n with
          cluster := c, size := u32 (u64 (offset + buf.length)) } v₃)

/-- A chain that shares no cluster with a growing object and its new bytes. -/
theorem Grown.written_frame {ext : List Nat} {v₁ v₂ : Vol} (h : Grown v m ext c v₁)
    (hw : BytesWritten v₁ (m ++ ext) v₂) (hl : v.Chain d l) (hapart : ∀ x ∈ l, x ∉ m) :
    v₂.Chain d l ∧ v₂.raws l = v.raws l := by
  have hnot : ∀ x ∈ l, x ∉ m ++ ext := by
    intro x hx hmem
    rcases List.mem_append.mp hmem with hxm | hxe
    · exact hapart x hx hxm
    · exact Geometry.chain_not_free hl hx (h.free x hxe)
  constructor
  · exact hw.chain (h.chain_frame hl hapart)
  · refine (h.shape.trans hw.shape).raws fun x hx => ?_
    rw [hw.data x (hnot x hx), h.store_data_of_not_mem]
    exact fun hxe => hnot x hx (List.mem_append_right _ hxe)

/-- `fat32_write_op`, as long as its node has clusters or needs some. -/
theorem fat32WriteOp_spec (g : Geometry k.vol) {vn n i : Nat} (hn : (k.vnode vn).data = n)
    (htype : (k.vnode vn).type = .file) (hl : k.vol.Chain d l)
    (hat : (k.fatNodes.slot n).At k.vol l i) {raw : RawDirent}
    (hraw : (k.vol.raws l)[i]? = some raw) (hm : k.vol.Holds (k.fatNodes.slot n).cluster m)
    (hapart : ∀ x ∈ l, x ∉ m) {offset : Nat} {buf : List UInt8} (hbuf : buf ≠ [])
    (hstart : (k.fatNodes.slot n).cluster = 0 →
      clustersNeeded k.vol.fs (u64 (offset + buf.length)) ≠ 0) :
    ∃ r k', fat32WriteOp vn buf offset k = (r, k') ∧
      WriteEnds k n l m i raw offset buf r k' := by
  rw [fat32WriteOp, Prog.get_bind]
  simp only [hn, htype, ne_eq, not_true_eq_false, ↓reduceIte, hbuf]
  generalize hstop : u64 (offset + buf.length) = stop at hstart
  rcases fat32EnsureChain_spec g n (clustersNeeded k.vol.fs stop) hm with
    ⟨hrun, hzero, _, hnone⟩ | ⟨c, ext, v₁, hgrown, hsame, hne, hcases⟩
  · exact ⟨_, _, Prog.bind_err (Prog.orElse_err hrun _) _, .refused hzero hnone⟩
  have hkeep : (k.fatNodes.slot n).cluster ≠ 0 → c = (k.fatNodes.slot n).cluster :=
    fun h => hsame (Or.inl h)
  have hc : c ≠ 0 := by
    by_cases hzero : (k.fatNodes.slot n).cluster = 0
    · exact hne (hstart hzero)
    · rw [hkeep hzero]
      exact hzero
  rcases hcases with ⟨hrun, hlen, hexact⟩ | ⟨hrun, hfull, hshort⟩
  swap
  · exact ⟨_, _, Prog.bind_err (Prog.orElse_err hrun _) _,
      .partly hgrown hkeep hfull (hstop.symm ▸ hshort)⟩
  rw [Prog.bind_ok (Prog.orElse_ok hrun _), Prog.get_bind]
  have hchain : v₁.Chain c (m ++ ext) := hgrown.holds.chain_of_ne_zero hc
  have hroom : v₁.room (m ++ ext) = k.vol.room (m ++ ext) := by
    rw [Vol.room, Vol.room, hgrown.shape.clusterBytes]
  have hnode : ((k.withFile n { k.fatNodes.slot n with cluster := c } v₁).fatNodes.slot n) =
      { k.fatNodes.slot n with cluster := c } := by simp [Kernel.withFile]
  rw [hnode]
  rcases fat32WriteData_eq (hgrown.geometry g) hchain offset buf with
    ⟨hbehind, hwrite⟩ | ⟨hin, v₂, hwrite, hw⟩
  · rw [hroom] at hbehind
    exact ⟨_, _, Prog.bind_err (@onVol_apply (k.withFile n _ v₁) _ _ _ v₁ hwrite) _,
      .behind hgrown hkeep (hstop.symm ▸ hlen) (hstop.symm ▸ hexact) hbehind⟩
  rw [hroom] at hin
  have hnode₂ : ((k.withFile n { k.fatNodes.slot n with cluster := c } v₂).fatNodes.slot n) =
      { k.fatNodes.slot n with cluster := c } := by simp [Kernel.withFile]
  rw [Prog.bind_ok (@onVol_apply (k.withFile n _ v₁) _ _ _ v₂ hwrite), Prog.get_bind]
  simp only [show (k.withFile n { k.fatNodes.slot n with cluster := c } v₁).withVol v₂ =
    k.withFile n { k.fatNodes.slot n with cluster := c } v₂ from rfl, hnode₂]
  by_cases hsize : (k.fatNodes.slot n).size < stop
  · obtain ⟨hl₂, hraws₂⟩ := hgrown.written_frame hw.toBytesWritten hl hapart
    have hshape := hgrown.shape.trans hw.shape
    obtain ⟨v₃, hupdate, _, hslots⟩ := fat32UpdateDirent_eq (hshape.geometry g) hl₂ (i := i)
      { k.fatNodes.slot n with cluster := c, size := u32 stop }
      (by rw [Fat32Node.At, hshape.place]; exact hat) (hraws₂.symm ▸ hraw)
    rw [hraws₂] at hslots
    refine ⟨_, _, ?_, .beyond hgrown hkeep (hstop.symm ▸ hlen) (hstop.symm ▸ hexact) hin hw
      (hstop.symm ▸ hsize) (hstop.symm ▸ hslots)⟩
    rw [if_pos hsize, Prog.modify_bind, Prog.bind_ok (Prog.orElse_ok (@onVol_apply
      ((k.withFile n _ v₂).setFatNode n _) _ _ _ v₃ hupdate) _), Prog.pure_apply]
    simp only [hstop, Kernel.withFile, Kernel.setFatNode, Kernel.withVol, Pool.setSlot_setSlot]
  · rw [if_neg hsize, Prog.pure_apply]
    exact ⟨_, _, rfl, .inside hgrown hkeep (hstop.symm ▸ hlen) (hstop.symm ▸ hexact) hin hw
      (hstop.symm ▸ Nat.le_of_not_lt hsize)⟩

end Write

section Truncate

/-- How `fat32_truncate_op` ends on an open file with the node `n`. -/
inductive TruncateEnds (k : Kernel) (n : Nat) (l m : List Nat) (i : Nat) (raw : RawDirent)
    (size : Nat) : Outcome Errno Unit → Kernel → Prop
  | same : size = (k.fatNodes.slot n).size → TruncateEnds k n l m i raw size (.ok ()) k
  | emptied {v₁ v₂ : Vol} : size = 0 → SameShape k.vol v₁ → v₁.store = k.vol.store.clear m →
      SlotsWritten v₁ l ((k.vol.raws l).set i (raw.withChain 0 0)) v₂ →
      TruncateEnds k n l m i raw size (.ok ())
        (k.withFile n { k.fatNodes.slot n with cluster := 0, size := 0 } v₂)
  | refused : size ≠ 0 → (k.fatNodes.slot n).cluster = 0 → (∀ x, ¬ k.vol.Free x) →
      TruncateEnds k n l m i raw size (.err .nospc) k
  | partly {c : Nat} {ext : List Nat} {v₁ : Vol} : size ≠ 0 → Grown k.vol m ext c v₁ →
      ((k.fatNodes.slot n).cluster ≠ 0 → c = (k.fatNodes.slot n).cluster) →
      (∀ x, ¬ v₁.Free x) → (m ++ ext).length < clustersNeeded k.vol.fs size →
      TruncateEnds k n l m i raw size (.err .nospc)
        (k.withFile n { k.fatNodes.slot n with cluster := c } v₁)
  | wrapped : size ≠ 0 → clustersNeeded k.vol.fs size = 0 →
      TruncateEnds k n l m i raw size (.err .io) k
  | cut {c : Nat} {ext : List Nat} {v₁ v₂ v₃ : Vol} : size ≠ (k.fatNodes.slot n).size →
      size ≠ 0 → clustersNeeded k.vol.fs size ≠ 0 → Grown k.vol m ext c v₁ →
      ((k.fatNodes.slot n).cluster ≠ 0 → c = (k.fatNodes.slot n).cluster) →
      clustersNeeded k.vol.fs size ≤ (m ++ ext).length →
      (ext ≠ [] → (m ++ ext).length = clustersNeeded k.vol.fs size) →
      SameShape v₁ v₂ → v₂.store.data = v₁.store.data →
      (∀ x, x ∉ m ++ ext → v₂.store.next x = v₁.store.next x) →
      v₂.Chain c ((m ++ ext).take (clustersNeeded k.vol.fs size)) →
      (∀ x ∈ (m ++ ext).drop (clustersNeeded k.vol.fs size), v₂.Free x) →
      SlotsWritten v₂ l ((k.vol.raws l).set i (raw.withChain c (u32 size))) v₃ →
      TruncateEnds k n l m i raw size (.ok ())
        (k.withFile n { k.fatNodes.slot n with cluster := c, size := u32 size } v₃)

theorem clustersNeeded_lt (fs : Fat32Fs) (size : Nat) : clustersNeeded fs size < 4294967296 :=
  u32_lt _

/-- `fat32_ensure_chain` of no cluster changes nothing. -/
theorem fat32EnsureChain_zero (k : Kernel) (n : Nat) :
    fat32EnsureChain n 0 k = (.ok (), k) := by
  have hself : k.setFatNode n (k.fatNodes.slot n) = k := by
    rw [Kernel.setFatNode, Pool.setSlot_self]
  rw [fat32EnsureChain, Prog.get_bind]
  exact congrArg (fun k' => ((.ok (), k') : Outcome Errno Unit × Kernel)) hself

/-- Behind the end of every chain there is no cluster. -/
theorem fat32GetClusterAt_beyond (g : Geometry v) {a : Nat} (h : v.Holds a m) {n : Nat}
    (hn : 4294967295 ≤ n) : fat32GetClusterAt a n v = (.err .noent, v) := by
  rcases h with ⟨rfl, _⟩ | hchain
  · cases n <;> rw [fat32GetClusterAt, if_pos (Or.inl (by decide)), Prog.fail_apply]
  · have hle := g.chain_length_le hchain
    have hcount := g.count_lt
    rw [fat32GetClusterAt_eq g hchain, dif_neg (by omega)]

/-- A wrapped cluster count asks for a cluster behind the end of the chain. -/
theorem fat32CutChain_wrapped (g : Geometry v) {a : Nat} (h : v.Holds a m) :
    fat32CutChain a 0 v = (.err .io, v) := by
  have hidx : 4294967295 ≤ u32 (0 + 4294967295) := Nat.le_of_eq (u32_of_lt (by omega)).symm
  unfold fat32CutChain
  generalize u32 (0 + 4294967295) = idx at hidx ⊢
  exact Prog.bind_err (Prog.orElse_err (fat32GetClusterAt_beyond g h hidx) _) _

/-- The end of `fat32_truncate_op`: the cut, the node and the entry. -/
theorem fat32CutUpdate_eq {K : Kernel} (n cluster needed : Nat) (node : Fat32Node) {v₂ v₃ : Vol}
    (hcut : fat32CutChain cluster needed K.vol = (.ok (), v₂))
    (hupdate : fat32UpdateDirent node v₂ = (.ok (), v₃)) :
    (do
      onVol (fat32CutChain cluster needed)
      Prog.modify fun k => k.setFatNode n node
      onVol (fat32UpdateDirent node) : Kern Unit) K = (.ok (), K.withFile n node v₃) := by
  rw [Prog.bind_ok (onVol_apply hcut), Prog.modify_bind]
  exact @onVol_apply ((K.withVol v₂).setFatNode n node) _ _ _ v₃ hupdate

theorem Kernel.withFile_withFile (k : Kernel) (n : Nat) (a b : Fat32Node) (v v' : Vol) :
    (k.withFile n a v).withFile n b v' = k.withFile n b v' := by
  simp only [Kernel.withFile, Pool.setSlot_setSlot]

/-- `fat32_truncate_op`. -/
theorem fat32TruncateOp_spec (g : Geometry k.vol) {vn n i : Nat} (hn : (k.vnode vn).data = n)
    (htype : (k.vnode vn).type = .file) (hl : k.vol.Chain d l)
    (hat : (k.fatNodes.slot n).At k.vol l i) {raw : RawDirent}
    (hraw : (k.vol.raws l)[i]? = some raw) (hm : k.vol.Holds (k.fatNodes.slot n).cluster m)
    (hapart : ∀ x ∈ l, x ∉ m) (size : Nat) :
    ∃ r k', fat32TruncateOp vn size k = (r, k') ∧ TruncateEnds k n l m i raw size r k' := by
  rw [fat32TruncateOp, Prog.get_bind]
  simp only [hn, htype, ne_eq, not_true_eq_false, ↓reduceIte]
  by_cases hsame : size = (k.fatNodes.slot n).size
  · rw [if_pos hsame, Prog.pure_apply]
    exact ⟨_, _, rfl, .same hsame⟩
  rw [if_neg hsame]
  by_cases hzero : size = 0
  · rw [if_pos hzero]
    obtain ⟨v₁, hfree, hshape, hstore⟩ := fat32FreeTarget_eq g hm
    have hl₁ : v₁.Chain d l := Vol.Chain.congr hshape hl fun x hx => by
      rw [hstore, ClusterStore.clear_next, if_neg (hapart x hx)]
    have hraws₁ : v₁.raws l = k.vol.raws l := hshape.raws fun x _ => by rw [hstore]; rfl
    obtain ⟨v₂, hupdate, _, hslots⟩ := fat32UpdateDirent_eq (hshape.geometry g) hl₁ (i := i)
      { k.fatNodes.slot n with cluster := 0, size := 0 }
      (by rw [Fat32Node.At, hshape.place]; exact hat) (hraws₁.symm ▸ hraw)
    rw [hraws₁] at hslots
    refine ⟨_, _, ?_, .emptied hzero hshape hstore hslots⟩
    rw [Prog.bind_ok (onVol_apply hfree), Prog.modify_bind]
    exact @onVol_apply ((k.withVol v₁).setFatNode n _) _ _ _ v₂ hupdate
  rw [if_neg hzero]
  by_cases hwrap : clustersNeeded k.vol.fs size = 0
  · -- nothing grows, and the cut finds no cluster
    refine ⟨.err .io, k, ?_, .wrapped hzero hwrap⟩
    rw [hwrap, Prog.bind_ok (Prog.orElse_ok (fat32EnsureChain_zero k n) _), Prog.get_bind]
    exact Prog.bind_err (onVol_apply (fat32CutChain_wrapped g hm)) _
  rcases fat32EnsureChain_spec g n (clustersNeeded k.vol.fs size) hm with
    ⟨hrun, hcluster, _, hnone⟩ | ⟨c, ext, v₁, hgrown, hkeep, hne, hcases⟩
  · exact ⟨_, _, Prog.bind_err (Prog.orElse_err hrun _) _, .refused hzero hcluster hnone⟩
  rcases hcases with ⟨hrun, hlen, hexact⟩ | ⟨hrun, hfull, hshort⟩
  swap
  · exact ⟨_, _, Prog.bind_err (Prog.orElse_err hrun _) _,
      .partly hzero hgrown (fun h => hkeep (Or.inl h)) hfull hshort⟩
  obtain ⟨node, hnode⟩ : ∃ node, node = { k.fatNodes.slot n with cluster := c } := ⟨_, rfl⟩
  have hslot : (k.withFile n node v₁).fatNodes.slot n = node := by simp [Kernel.withFile]
  rw [← hnode] at hrun
  rw [Prog.bind_ok (Prog.orElse_ok hrun _), Prog.get_bind, hslot]
  have g₁ := hgrown.geometry g
  have hchain : v₁.Chain c (m ++ ext) := hgrown.holds.chain_of_ne_zero (hne hwrap)
  obtain ⟨v₂, hcut, hshape₂, hdata₂, hnext₂, hchain₂, hfree₂⟩ := fat32CutChain_eq g₁ hchain
    (Nat.pos_of_ne_zero hwrap) hlen (clustersNeeded_lt _ _)
  -- the directory is neither in the old chain nor in the new clusters
  have hnot : ∀ x ∈ l, x ∉ m ++ ext := by
    intro x hx hmem
    rcases List.mem_append.mp hmem with hxm | hxe
    · exact hapart x hx hxm
    · exact Geometry.chain_not_free hl hx (hgrown.free x hxe)
  have hshape := hgrown.shape.trans hshape₂
  have hl₂ : v₂.Chain d l := Vol.Chain.congr hshape₂ (hgrown.chain_frame hl hapart)
    fun x hx => hnext₂ x (hnot x hx)
  have hraws₂ : v₂.raws l = k.vol.raws l := hshape.raws fun x hx => by
    rw [hdata₂, hgrown.store_data_of_not_mem]
    exact fun hxe => hnot x hx (List.mem_append_right _ hxe)
  obtain ⟨v₃, hupdate, _, hslots⟩ := fat32UpdateDirent_eq (hshape.geometry g) hl₂ (i := i)
    { node with size := u32 size }
    (by rw [Fat32Node.At, hshape.place, hnode]; exact hat) (hraws₂.symm ▸ hraw)
  rw [hraws₂] at hslots
  have hend := fat32CutUpdate_eq (K := k.withFile n node v₁) n node.cluster
    (clustersNeeded k.vol.fs size) { node with size := u32 size } (by rw [hnode]; exact hcut)
    hupdate
  rw [Kernel.withFile_withFile] at hend
  refine ⟨_, _, hend, ?_⟩
  subst hnode
  exact .cut hsame hzero hwrap hgrown (fun h => hkeep (Or.inl h)) hlen hexact hshape₂
    hdata₂ hnext₂ hchain₂ hfree₂ hslots

end Truncate

end OsAgentLab
