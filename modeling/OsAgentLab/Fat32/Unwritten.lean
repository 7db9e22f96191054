/-
Bytes of a FAT32 file that nobody has written: which of them read as zero in
every run of writes and truncations of a new file.
-/
import OsAgentLab.Fat32.FileArray

namespace OsAgentLab

variable {k k' : Kernel} {v v' : Vol} {vn n d i size offset : Nat} {l m m' : List Nat}
  {hit : DirHit} {raw' : RawDirent} {w w' buf : List UInt8}

section Wrap

/-- A 32-bit size fits into the 32-bit number of clusters computed for it. -/
theorem u32_le_clusters {cb size : Nat} (hcb : 0 < cb)
    (hne : (size + cb - 1) / cb % 4294967296 ≠ 0) :
    size % 4294967296 ≤ (size + cb - 1) / cb % 4294967296 * cb := by
  have hsum := Nat.div_add_mod (size + cb - 1) cb
  have hmod := Nat.mod_lt (size + cb - 1) hcb
  have hcount := Nat.div_add_mod ((size + cb - 1) / cb) 4294967296
  generalize (size + cb - 1) / cb % 4294967296 = q at *
  generalize (size + cb - 1) / cb / 4294967296 = t at *
  generalize (size + cb - 1) / cb = count at *
  obtain ⟨q, rfl⟩ := Nat.exists_eq_succ_of_ne_zero hne
  have hsplit : cb * count = 4294967296 * (t * cb) + (q * cb + cb) := by
    rw [← hcount, Nat.mul_comm, Nat.add_mul, Nat.mul_assoc, Nat.succ_mul q cb]
  -- the size is a multiple of 2^32 and a rest that fits
  obtain ⟨x, hx⟩ : ∃ x, size = 4294967296 * (t * cb) + x := ⟨size - 4294967296 * (t * cb), by omega⟩
  rw [hx, Nat.mul_add_mod, Nat.succ_mul q cb]
  exact Nat.le_trans (Nat.mod_le _ _) (by omega)

/-- The same for the cluster count of the source. -/
theorem u32_le_clustersNeeded (g : Geometry v) (hsize : size < 18446744073709551616)
    (hne : clustersNeeded v.fs size ≠ 0) :
    u32 size ≤ clustersNeeded v.fs size * v.clusterBytes := by
  have hcb := g.clusterBytes_pos
  have hlt := g.clusterBytes_lt
  rw [clustersNeeded, g.clusterSize_eq] at hne ⊢
  rcases Nat.lt_or_ge (size + v.clusterBytes - 1) 18446744073709551616 with hsmall | hlarge
  · rw [u64_of_lt hsmall] at hne ⊢
    exact u32_le_clusters hcb hne
  · -- a sum that wraps is smaller than a cluster
    exfalso
    apply hne
    have hwrap : u64 (size + v.clusterBytes - 1) < v.clusterBytes := by
      simp only [u64]
      omega
    rw [Nat.div_eq_of_lt hwrap]
    rfl

end Wrap

section Success

/-- The size of a file after a write that succeeds. -/
def sizeAfterWrite (size offset len : Nat) : Nat :=
  if size < offset + len then u32 (offset + len) else size

/-- No chain reaches 2^28 clusters. -/
theorem Geometry.room_le (g : Geometry v) {a : Nat} (hm : v.Holds a m) :
    v.room m ≤ 268435456 * v.clusterBytes := by
  have hlen : m.length ≤ 268435456 := by
    rcases hm with ⟨_, rfl⟩ | hchain
    · exact Nat.zero_le _
    · have hle := g.chain_length_le hchain
      have hcount := g.count_lt
      omega
  exact Nat.mul_le_mul_right _ hlen

theorem Geometry.le_clusterBytes (g : Geometry v) : 512 ≤ v.clusterBytes := by
  have hpos := g.spc_pos
  rw [Vol.clusterBytes]
  omega

/-- The cluster count of a write does not wrap to zero at an offset within reach. -/
theorem clustersNeeded_write_ne_zero (g : Geometry v) {len : Nat} (hpos : 0 < len)
    (hlen : len < 2147483648) (hoff : offset < 268435456 * v.clusterBytes) :
    clustersNeeded v.fs (u64 (offset + len)) ≠ 0 := by
  have hcb := g.le_clusterBytes
  have hlt := g.clusterBytes_lt
  have hcount : (offset + len + v.clusterBytes - 1) / v.clusterBytes < 4294967296 := by
    apply Nat.div_lt_of_lt_mul
    omega
  have hne : 0 < (offset + len + v.clusterBytes - 1) / v.clusterBytes := by
    apply Nat.div_pos
    · omega
    · omega
  rw [u64_of_lt (by omega), clustersNeeded, g.clusterSize_eq, u64_of_lt (by omega), u32_of_lt hcount]
  exact Nat.ne_of_gt hne

/-- Every successful write, also one whose end wraps. -/
theorem fat32WriteOp_change (h : k.vol.FileAt d hit.entryIndex l m hit.raw w)
    (ho : k.OpenOn vn n l hit) (hmark : fat32Eoc ≤ k.vol.store.next 0) (hbuf : buf ≠ [])
    (hlen : buf.length < 2147483648) {num : Int}
    (hrun : fat32WriteOp vn buf offset k = (.ok num, k')) :
    ∃ raw' m', FileChange k.vol l hit m (sizeAfterWrite hit.raw.fileSize offset buf.length) offset buf
      k'.vol raw' m' := by
  have g := h.geometry
  have hm := h.chain
  have hpos := List.length_pos_iff.mpr hbuf
  have hcb := g.clusterBytes_lt
  have hcb₀ := g.clusterBytes_pos
  have hreach := g.room_le hm
  rcases Nat.lt_or_ge offset (268435456 * k.vol.clusterBytes) with hnear | hfar
  swap
  · -- nothing is written that far behind the end of every chain
    by_cases hwrap : (k.fatNodes.slot n).cluster = 0 ∧
        clustersNeeded k.vol.fs (u64 (offset + buf.length)) = 0
    · obtain ⟨hcluster, hzero⟩ := hwrap
      rw [fat32WriteOp_wrapped g ho hbuf hcluster hzero hmark (by omega)] at hrun
      cases hrun
    obtain ⟨r, k₁, hspec, hends⟩ := fat32WriteOp_spec g ho.data ho.type h.dir ho.node.place h.slot
      (ho.node.cluster ▸ hm) h.apart hbuf fun hcluster hzero => hwrap ⟨hcluster, hzero⟩
    rw [hspec] at hrun
    obtain ⟨hr, rfl⟩ := Prod.mk.inj hrun
    cases hends with
    | refused _ _ => cases hr
    | partly _ _ _ _ => cases hr
    | behind _ _ _ _ _ => cases hr
    | inside hgrown _ _ _ hin _ _ =>
        have hroom := (hgrown.geometry g).room_le hgrown.holds
        rw [Vol.room, hgrown.shape.clusterBytes] at hroom
        rw [Vol.room] at hin
        omega
    | beyond hgrown _ _ _ hin _ _ _ =>
        have hroom := (hgrown.geometry g).room_le hgrown.holds
        rw [Vol.room, hgrown.shape.clusterBytes] at hroom
        rw [Vol.room] at hin
        omega
  have hstop : u64 (offset + buf.length) = offset + buf.length := u64_of_lt (by omega)
  have hne := clustersNeeded_write_ne_zero g hpos hlen hnear
  obtain ⟨r, k₁, hspec, hends⟩ := fat32WriteOp_spec g ho.data ho.type h.dir ho.node.place h.slot
    (ho.node.cluster ▸ hm) h.apart hbuf fun _ => hne
  rw [hspec] at hrun
  obtain ⟨hr, rfl⟩ := Prod.mk.inj hrun
  rw [hstop] at hne
  cases hends with
  | refused _ _ => cases hr
  | partly _ _ _ _ => cases hr
  | behind _ _ _ _ _ => cases hr
  | inside hgrown hkeep _ _ _ hw hinside =>
      rw [hstop, ho.node.size] at hinside
      obtain ⟨_, hchange⟩ := FileChange.of_inside h ho hgrown hkeep hw (by omega)
      rw [sizeAfterWrite, if_neg (Nat.not_lt_of_le hinside)]
      exact ⟨_, _, hchange⟩
  | @beyond c ext v₁ v₂ v₃ hgrown hkeep hneeded _ _ hw hbeyond hslots =>
      rw [hstop, ho.node.size] at hbeyond
      rw [hstop] at hneeded hslots
      have hc : c < 4294967296 := hgrown.holds.head_lt (hgrown.geometry g)
      have hfile := RawDirent.withChain_fileSize hit.raw c (u32_lt (offset + buf.length))
      have hroom : u32 (offset + buf.length) ≤ k.vol.room (m ++ ext) :=
        Nat.le_trans (u32_le_clustersNeeded g (by omega) hne) (Nat.mul_le_mul_right _ hneeded)
      have hchange := FileChange.of_written h hgrown hw hslots
        (RawDirent.sameName_withChain _ _ _) (RawDirent.withChain_cluster hit.raw hc _)
        (by rw [hfile]; exact hroom)
      rw [hfile] at hchange
      rw [sizeAfterWrite, if_pos hbeyond]
      exact ⟨_, _, hchange⟩

/-- Every successful truncation, also one whose size wraps. -/
theorem fat32TruncateOp_change (h : k.vol.FileAt d hit.entryIndex l m hit.raw w)
    (ho : k.OpenOn vn n l hit) (hsize : size < 18446744073709551616)
    (hrun : fat32TruncateOp vn size k = (.ok (), k')) :
    ∃ raw' m', FileChange k.vol l hit m (u32 size) 0 [] k'.vol raw' m' := by
  have g := h.geometry
  obtain ⟨r, k₁, hspec, hends⟩ := fat32TruncateOp_spec g ho.data ho.type h.dir ho.node.place h.slot
    (ho.node.cluster ▸ h.chain) h.apart size
  rw [hspec] at hrun
  obtain ⟨rfl, rfl⟩ := Prod.mk.inj hrun
  cases hends with
  | same hsame =>
      rw [ho.node.size] at hsame
      rw [hsame, u32_of_lt (hit.raw.fileSize_lt)]
      exact ⟨_, _, FileChange.refl h⟩
  | emptied hzero hshape hstore hslots =>
      rw [hzero]
      exact ⟨_, _, FileChange.of_cleared hshape hstore hslots⟩
  | @cut c ext v₁ v₂ v₃ _ _ hne hgrown hkeep hneeded _ hshape hdata hnext hchain _ hslots =>
      have hc : c < 4294967296 := hgrown.holds.head_lt (hgrown.geometry g)
      have hfile := RawDirent.withChain_fileSize hit.raw c (u32_lt size)
      have hchange := FileChange.of_cut h hgrown hneeded hshape hdata hnext hchain hslots
        (RawDirent.sameName_withChain _ _ _) (RawDirent.withChain_cluster hit.raw hc _)
        (by rw [hfile]; exact u32_le_clustersNeeded g hsize hne)
      rw [hfile] at hchange
      exact ⟨_, _, hchange⟩

end Success

section History

/-- A call on the file. -/
inductive FileOp where
  | write (offset : Nat) (buf : List UInt8)
  | truncate (size : Nat)

namespace FileOp

def call (vn : Nat) : FileOp → Kern Unit
  | .write offset buf => do
      let _ ← fat32WriteOp vn buf offset
      pure ()
  | .truncate size => fat32TruncateOp vn size

/-- The arguments are a 64-bit size, and a buffer whose length an `int` can count. -/
def Fits : FileOp → Prop
  | .write _ buf => buf.length < 2147483648
  | .truncate size => size < 18446744073709551616

/-- The call stores the byte `j`. -/
def covers (op : FileOp) (j : Nat) : Bool :=
  match op with
  | .write offset buf => decide (offset ≤ j ∧ j < offset + buf.length)
  | .truncate _ => false

/-- The end of the file that the call asks for, in 32 bits. -/
def reach : FileOp → Nat
  | .write offset buf => if buf = [] then 0 else u32 (offset + buf.length)
  | .truncate size => u32 size

/-- The bytes that have been written since they were last outside the file, when the
call changes its size from `size` to `size'`. -/
def mark (op : FileOp) (size size' : Nat) (written : Nat → Bool) (j : Nat) : Bool :=
  decide (j < size') && (op.covers j || (decide (j < size) && written j))

end FileOp

/-- A volume, and the bytes of the file that have been written. -/
structure History where
  vol : Vol
  written : Nat → Bool

/-- The entry `i` of the directory at `d` is a file with the contents `w`. -/
def Vol.File (v : Vol) (d i : Nat) (m : List Nat) (w : List UInt8) : Prop :=
  ∃ l hit, v.RegularFile d l m hit w ∧ hit.entryIndex = i

/-- `vn` is a vnode of that file, as a lookup leaves it. -/
def Kernel.Opens (k : Kernel) (vn d i : Nat) (m : List Nat) (w : List UInt8) : Prop :=
  ∃ n l hit, k.vol.RegularFile d l m hit w ∧ hit.entryIndex = i ∧ k.OpenOn vn n l hit

/-- A call through a fresh vnode succeeds. -/
inductive FileStep (d i : Nat) : History → FileOp → History → Prop
  | mk {k k' : Kernel} {vn : Nat} {m m' : List Nat} {w w' : List UInt8} {op : FileOp}
      {written : Nat → Bool} : op.Fits → k.Opens vn d i m w → op.call vn k = (.ok (), k') →
      k'.vol.File d i m' w' →
      FileStep d i ⟨k.vol, written⟩ op ⟨k'.vol, op.mark w.length w'.length written⟩

/-- Runs of calls on a new file; each call meets the condition `P`. -/
inductive FileRun (d i : Nat) (P : Vol → FileOp → Prop) : History → Prop
  | created {v : Vol} : v.File d i [] [] → fat32Eoc ≤ v.store.next 0 →
      FileRun d i P ⟨v, fun _ => false⟩
  | step {σ σ' : History} {op : FileOp} : FileRun d i P σ → P σ.vol op → FileStep d i σ op σ' →
      FileRun d i P σ'

/-- What has not been written reads as zero. -/
def History.Zeros (σ : History) (d i : Nat) : Prop :=
  ∀ m w, σ.vol.File d i m w → ∀ j, j < w.length → σ.written j = false → w[j]? = some 0

/-- The clusters of the file hold zeros between its end and the end that the call asks
for, as far as the call does not store there itself. -/
def FileOp.CleanAt (op : FileOp) (v : Vol) (d i : Nat) : Prop :=
  ∀ m w, v.File d i m w → ∀ j, w.length ≤ j → j < op.reach → op.covers j = false →
    j < v.room m → v.bytes m j = 0

theorem Vol.File.unique (h : v.File d i m w) (h' : v.File d i m' w') : m = m' ∧ w = w' := by
  obtain ⟨l, hit, hfile, rfl⟩ := h
  obtain ⟨l', hit', hfile', hidx⟩ := h'
  have hraw : hit = hit' := hfile.wellFormed.lists_inj hfile.lists hfile'.lists hidx.symm
  subst hraw
  exact ⟨hfile.holds.unique hfile.wellFormed.geometry hfile'.holds,
    hfile.fileAt.unique hfile'.fileAt⟩

/-- A successful call as a change of the file. -/
theorem FileOp.change {op : FileOp} (h : k.vol.RegularFile d l m hit w) (ho : k.OpenOn vn n l hit)
    (hmark : fat32Eoc ≤ k.vol.store.next 0) (hfits : op.Fits)
    (hrun : op.call vn k = (.ok (), k')) :
    ∃ size offset buf raw' m', FileChange k.vol l hit m size offset buf k'.vol raw' m' ∧
      (∀ j, op.covers j = decide (offset ≤ j ∧ j < offset + buf.length)) ∧
      ∀ j, w.length ≤ j → (j < size ↔ j < op.reach) := by
  have hsize := h.fileAt.size
  cases op with
  | write offset buf =>
      obtain ⟨num, mid, hok, hrest⟩ := Prog.of_bind_ok hrun
      obtain rfl : mid = k' := congrArg Prod.snd hrest
      by_cases hbuf : buf = []
      · subst hbuf
        have hnothing : fat32WriteOp vn [] offset k = (.ok 0, k) := by
          rw [fat32WriteOp, Prog.get_bind]
          simp only [ho.type, ne_eq, not_true_eq_false, ↓reduceIte]
          exact Prog.pure_apply _ _
        rw [hnothing] at hok
        obtain rfl : k = mid := congrArg Prod.snd hok
        refine ⟨_, 0, [], _, _, FileChange.refl h.fileAt, fun j => ?_, fun j hj => ?_⟩
        · rw [FileOp.covers, List.length_nil]
          exact decide_eq_decide.mpr (by omega)
        · rw [FileOp.reach, if_pos rfl, hsize]
          omega
      · obtain ⟨raw', m', hchange⟩ := fat32WriteOp_change h.fileAt ho hmark hbuf hfits hok
        refine ⟨_, offset, buf, raw', m', hchange, fun _ => rfl, fun j hj => ?_⟩
        rw [FileOp.reach, if_neg hbuf, sizeAfterWrite, hsize]
        split
        · rfl
        · have hle : u32 (offset + buf.length) ≤ offset + buf.length := Nat.mod_le _ _
          omega
  | truncate size =>
      obtain ⟨raw', m', hchange⟩ := fat32TruncateOp_change h.fileAt ho hfits hrun
      refine ⟨_, 0, [], raw', m', hchange, fun j => ?_, fun _ _ => Iff.rfl⟩
      rw [FileOp.covers, List.length_nil]
      exact (decide_eq_false (by omega)).symm

theorem FileOp.mark_eq_false {op : FileOp} {size size' : Nat} {written : Nat → Bool} {j : Nat}
    (hj : j < size') :
    op.mark size size' written j = false ↔
      op.covers j = false ∧ (j < size → written j = false) := by
  simp only [FileOp.mark, hj, decide_true, Bool.true_and, Bool.or_eq_false_iff,
    Bool.and_eq_false_iff, decide_eq_false_iff_not]
  tauto

/-- One call keeps the promise exactly when it finds zeros where the file grows. -/
theorem FileStep.zeros_iff {σ σ' : History} {op : FileOp} (hstep : FileStep d i σ op σ')
    (hmark : fat32Eoc ≤ σ.vol.store.next 0) (hzeros : σ.Zeros d i) :
    σ'.Zeros d i ↔ op.CleanAt σ.vol d i := by
  obtain ⟨hfits, ⟨n, l, hit, hfile, hidx, ho⟩, hrun, hafter⟩ := hstep
  rename_i k k' vn m m₁ w w' written
  subst hidx
  obtain ⟨size, offset, buf, raw', m', hchange, hcovers, hreach⟩ :=
    FileOp.change hfile ho hmark hfits hrun
  have hfound : k'.vol.File d hit.entryIndex m' (k'.vol.contents m' size) :=
    ⟨l, _, hfile.changed hchange, rfl⟩
  obtain ⟨rfl, rfl⟩ := hafter.unique hfound
  have hhere : k.vol.File d hit.entryIndex m w := ⟨l, hit, hfile, rfl⟩
  have hwsize : ∀ j, j < w.length → w[j]? = some (k.vol.bytes m j) := by
    intro j hj
    rw [hfile.bytes, Vol.contents_getElem?]
    rw [hfile.fileAt.size]
    exact hj
  rw [Vol.contents_length]
  constructor
  · intro hafter m₂ w₂ hfile₂ j hold hnew hnot hroom
    obtain ⟨rfl, rfl⟩ := hhere.unique hfile₂
    have hj : j < size := (hreach j hold).mpr hnew
    have hbyte := hafter _ _ hfound j (by rw [Vol.contents_length]; exact hj)
      ((FileOp.mark_eq_false hj).mpr ⟨hnot, fun hlt => absurd hlt (Nat.not_lt_of_le hold)⟩)
    rw [hcovers, decide_eq_false_iff_not] at hnot
    rw [Vol.contents_getElem? _ _ hj, hchange.bytes j hj, if_neg hnot, if_pos hroom] at hbyte
    exact Option.some.inj hbyte
  · intro hclean m₂ w₂ hfile₂ j hj hunwritten
    obtain ⟨rfl, rfl⟩ := hfound.unique hfile₂
    rw [Vol.contents_length] at hj
    obtain ⟨hnot, hkept⟩ := (FileOp.mark_eq_false hj).mp hunwritten
    have hout := hnot
    rw [hcovers, decide_eq_false_iff_not] at hout
    rw [Vol.contents_getElem? _ _ hj, hchange.bytes j hj, if_neg hout]
    by_cases hroom : j < k.vol.room m
    · rw [if_pos hroom]
      by_cases hold : j < w.length
      · have hzero := hzeros _ _ hhere j hold (hkept hold)
        rwa [hwsize j hold] at hzero
      · have hle := Nat.le_of_not_lt hold
        rw [hclean _ _ hhere j hle ((hreach j hle).mp hj) hnot hroom]
    · rw [if_neg hroom]

/-- A call leaves the first FAT entry alone. -/
theorem FileStep.mark {σ σ' : History} {op : FileOp} (hstep : FileStep d i σ op σ')
    (hmark : fat32Eoc ≤ σ.vol.store.next 0) : fat32Eoc ≤ σ'.vol.store.next 0 := by
  obtain ⟨hfits, ⟨n, l, hit, hfile, _, ho⟩, hrun, _⟩ := hstep
  obtain ⟨size, offset, buf, raw', m', hchange, _, _⟩ := FileOp.change hfile ho hmark hfits hrun
  have hzero : ∀ u : Vol, ¬ u.InData 0 := fun u hin => hin.ne_zero rfl
  rw [hchange.next 0 (fun hfree => hzero _ hfree.1) fun hmem => hzero _ (hfile.holds.inData hmem)]
  exact hmark

theorem FileRun.mark {P : Vol → FileOp → Prop} {σ : History} (hrun : FileRun d i P σ) :
    fat32Eoc ≤ σ.vol.store.next 0 := by
  induction hrun with
  | created _ hmark => exact hmark
  | step _ _ hstep ih => exact hstep.mark ih

/-- Unwritten bytes read as zero in every run whose calls find zeros where the file
grows, and the first call that does not find them shows stale bytes. -/
theorem unwritten_zero {σ : History} (hrun : FileRun d i (fun v op => op.CleanAt v d i) σ) :
    σ.Zeros d i ∧ ∀ op σ', FileStep d i σ op σ' → (σ'.Zeros d i ↔ op.CleanAt σ.vol d i) := by
  have hzeros : σ.Zeros d i := by
    induction hrun with
    | created hfile _ =>
        intro m w hfile' j hj
        obtain ⟨_, rfl⟩ := hfile.unique hfile'
        cases hj
    | step hrun hclean hstep ih => exact (hstep.zeros_iff hrun.mark ih).mpr hclean
  exact ⟨hzeros, fun op σ' hstep => hstep.zeros_iff hrun.mark hzeros⟩

end History

section Example

/-- The file after a call below 4 GiB, ready for the next one. -/
structure FileReady (k : Kernel) (d i : Nat) (m : List Nat) (w : List UInt8) : Prop where
  opens : k.Opens 1 d i m w
  mark : fat32Eoc ≤ k.vol.store.next 0

theorem emptyFile_ready : FileReady (oneKernel (endTable 2) 0 0) 2 0 [] [] where
  opens := ⟨1, [2], _, oneVol_none, rfl, oneVol_openOn (by decide) (by decide) (by decide)⟩
  mark := by
    have hnext := @oneVol_next 2 (oneRaw 0 0) (by decide) 0 (by decide)
    change fat32Eoc ≤ (oneVol (endTable 2) (oneRaw 0 0)).store.next 0
    rw [hnext]
    decide

/-- The calls below 4 GiB that do something. -/
def FileOp.Small : FileOp → Prop
  | .write offset buf => buf ≠ [] ∧ offset + buf.length < 4294967296
  | .truncate size => size < 4294967296

def FileOp.sizeAfter (size : Nat) : FileOp → Nat
  | .write offset buf => max size (offset + buf.length)
  | .truncate size => size

/-- Such a call leaves the file ready when it succeeds. -/
theorem FileReady.next (h : FileReady k d i m w) {op : FileOp} (hsmall : op.Small)
    (hrun : op.call 1 k = (.ok (), k')) :
    ∃ m' w', FileReady k' d i m' w' ∧ w'.length = op.sizeAfter w.length := by
  obtain ⟨⟨n, l, hit, hfile, rfl, ho⟩, hmark⟩ := h
  have hready : ∀ {size offset : Nat} {buf : List UInt8} {node : Fat32Node} {v' : Vol}
      {raw' : RawDirent} {m' : List Nat}, FileChange k.vol l hit m size offset buf v' raw' m' →
      node.Reflects v' l hit.entryIndex raw' →
      FileReady (k.withFile n node v') d hit.entryIndex m' (v'.contents m' size) := by
    intro size offset buf node v' raw' m' hchange hreflects
    have hslot : (k.withFile n node v').fatNodes.slot n = node := by simp [Kernel.withFile]
    refine ⟨⟨n, l, _, hfile.changed hchange, rfl, ho.data, ho.type, hslot.symm ▸ hreflects⟩, ?_⟩
    have hzero : ∀ u : Vol, ¬ u.InData 0 := fun u hin => hin.ne_zero rfl
    change fat32Eoc ≤ v'.store.next 0
    rw [hchange.next 0 (fun hfree => hzero _ hfree.1) fun hmem => hzero _ (hfile.holds.inData hmem)]
    exact hmark
  cases op with
  | write offset buf =>
      obtain ⟨num, mid, hok, hrest⟩ := Prog.of_bind_ok hrun
      obtain rfl : mid = k' := congrArg Prod.snd hrest
      obtain ⟨r, k₁, hspec, hdone⟩ := fat32WriteOp_done hfile.fileAt ho hsmall.1 hsmall.2
      rw [hspec] at hok
      obtain ⟨hr, rfl⟩ := Prod.mk.inj hok
      cases hdone with
      | full _ _ => cases hr
      | done hchange hreflects =>
          refine ⟨_, _, hready hchange hreflects, ?_⟩
          rw [Vol.contents_length, FileOp.sizeAfter, hfile.fileAt.size]
  | truncate size =>
      obtain ⟨r, k₁, hspec, hdone⟩ := fat32TruncateOp_done hfile.fileAt ho hsmall
      change fat32TruncateOp 1 size k = (.ok (), k') at hrun
      rw [hspec] at hrun
      obtain ⟨hr, rfl⟩ := Prod.mk.inj hrun
      cases hdone with
      | full _ _ => cases hr
      | done hchange hreflects => exact ⟨_, _, hready hchange hreflects, Vol.contents_length _ _ _⟩

theorem FileReady.run {P : Vol → FileOp → Prop} {written : Nat → Bool} (h : FileReady k d i m w)
    (hrun : FileRun d i P ⟨k.vol, written⟩) {op : FileOp} (hcall : op.call 1 k = (.ok (), k'))
    (hfits : op.Fits) (h' : FileReady k' d i m' w') (hP : P k.vol op) :
    FileRun d i P ⟨k'.vol, op.mark w.length w'.length written⟩ := by
  obtain ⟨⟨n, l, hit, hfile, hidx, _⟩, _⟩ := h'
  exact hrun.step hP (.mk hfits h.opens hcall ⟨l, hit, hfile, hidx⟩)

theorem FileReady.reads (h : FileReady k d i m w) : k.Reads 1 w := by
  obtain ⟨⟨n, l, hit, hfile, _, ho⟩, _⟩ := h
  exact hfile.fileAt.reads ho.data ho.type ho.node.place

theorem FileReady.created (P : Vol → FileOp → Prop) (h : FileReady k d i [] []) :
    FileRun d i P ⟨k.vol, fun _ => false⟩ := by
  obtain ⟨⟨n, l, hit, hfile, hidx, _⟩, hmark⟩ := h
  exact .created ⟨l, hit, hfile, hidx⟩ hmark

/-- The kernel behind a call on the file of vnode 1. -/
def afterOp (op : FileOp) (k : Kernel) : Kernel := (op.call 1 k).2

theorem afterOp_ok {op : FileOp} (h : (op.call 1 k).1 = .ok ()) :
    op.call 1 k = (.ok (), afterOp op k) := Prod.ext h rfl

/-- One byte is written behind the end of a new file: the gap reads as zero. -/
theorem unwritten_zero_gap :
    ∃ σ, FileRun 2 0 (fun v op => op.CleanAt v 2 0) σ ∧
      σ.vol = (afterOp (.write 3 [7]) (oneKernel (endTable 2) 0 0)).vol ∧ σ.Zeros 2 0 := by
  have hcall := @afterOp_ok (oneKernel (endTable 2) 0 0) (.write 3 [7]) (by decide +kernel)
  generalize afterOp (.write 3 [7]) (oneKernel (endTable 2) 0 0) = k' at *
  obtain ⟨m', w', hready, _⟩ := emptyFile_ready.next (by simp [FileOp.Small]) hcall
  have hclean : (FileOp.write 3 [7]).CleanAt (oneKernel (endTable 2) 0 0).vol 2 0 := by
    intro m w hfile j _ _ _ hroom
    obtain ⟨⟨n, l, hit, hempty, hidx, _⟩, _⟩ := emptyFile_ready
    obtain ⟨rfl, _⟩ := hfile.unique ⟨l, hit, hempty, hidx⟩
    rw [Vol.room, List.length_nil, Nat.zero_mul] at hroom
    cases hroom
  have hfits : (FileOp.write 3 [7]).Fits := show 1 < 2147483648 by decide
  have hrun := emptyFile_ready.run (emptyFile_ready.created fun v op => op.CleanAt v 2 0) hcall
    hfits hready hclean
  exact ⟨_, hrun, rfl, (unwritten_zero hrun).1⟩

/-- Two bytes are written, the second one is cut off, and the file grows again. -/
theorem cut_bytes_read {k₀ k₁ k₂ k₃ : Kernel} (h : FileReady k₀ d i [] [])
    (hwrite : (FileOp.write 0 [7, 7]).call 1 k₀ = (.ok (), k₁))
    (hcut : (FileOp.truncate 1).call 1 k₁ = (.ok (), k₂))
    (hgrow : (FileOp.truncate 2).call 1 k₂ = (.ok (), k₃))
    (hread : (fat32ReadOp 1 2 0 k₃).1 = .ok (2, [7, 7])) :
    ∃ σ, FileRun d i (fun _ _ => True) σ ∧ ¬ σ.Zeros d i := by
  obtain ⟨m₁, w₁, h₁, hlen₁⟩ := h.next (by simp [FileOp.Small]) hwrite
  obtain ⟨m₂, w₂, h₂, hlen₂⟩ := h₁.next (by simp [FileOp.Small]) hcut
  obtain ⟨m₃, w₃, h₃, hlen₃⟩ := h₂.next (by simp [FileOp.Small]) hgrow
  rw [FileOp.sizeAfter] at hlen₂ hlen₃
  have hrun₁ := h.run (h.created fun _ _ => True) hwrite (show 2 < 2147483648 by decide) h₁ trivial
  have hrun₂ := h₁.run hrun₁ hcut (show 1 < 18446744073709551616 by decide) h₂ trivial
  have hrun₃ := h₂.run hrun₂ hgrow (show 2 < 18446744073709551616 by decide) h₃ trivial
  refine ⟨_, hrun₃, fun hzeros => ?_⟩
  obtain ⟨n, l, hit, hfile, hidx, _⟩ := h₃.opens
  have hzero := hzeros m₃ w₃ ⟨l, hit, hfile, hidx⟩ 1 (by rw [hlen₃]; decide)
    (by rw [hlen₂, hlen₃]; rfl)
  obtain ⟨k', hcontents⟩ := h₃.reads 2 0 (by decide) (by omega)
  rw [hcontents] at hread
  have hbytes : (w₃.drop 0).take 2 = [7, 7] := congrArg Prod.snd (Outcome.ok.inj hread)
  have hall : (w₃.drop 0).take 2 = w₃ := by
    rw [List.drop_zero]
    exact List.take_of_length_le (Nat.le_of_eq hlen₃)
  rw [hall] at hbytes
  rw [hbytes] at hzero
  cases hzero

theorem unwritten_stale :
    ¬ ∀ (d i : Nat) (σ : History), FileRun d i (fun _ _ => True) σ → σ.Zeros d i := by
  intro hall
  obtain ⟨σ, hrun, hnot⟩ := cut_bytes_read emptyFile_ready (afterOp_ok (by decide +kernel))
    (afterOp_ok (by decide +kernel)) (afterOp_ok (by decide +kernel)) (by decide +kernel)
  exact hnot (hall _ _ σ hrun)

end Example

end OsAgentLab
