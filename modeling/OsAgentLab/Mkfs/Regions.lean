/-
The regions of an image: boot sectors, FAT copies and clusters.  Everything that
is written lies in the region of its purpose, and the regions are apart exactly
when the table fits into the sectors that `compute_fat_size` found.
-/
import OsAgentLab.Mkfs.Image
import OsAgentLab.Triple

namespace OsAgentLab

namespace Mkfs

section FatSize

variable {passes : Nat} {total fatSectors result : Int}

/-- The loop ends at a fixed point. -/
theorem fatSizeLoop_fixed {reserved numFats spc : Int}
    (h : fatSizeLoop total reserved numFats spc passes fatSectors = some result) :
    newFat total reserved numFats spc result = result := by
  induction passes generalizing fatSectors with
  | zero => cases h
  | succ passes ih =>
      rw [fatSizeLoop] at h
      split at h
      next heq => exact Option.some.inj h ▸ heq
      next => exact ih h

/-- How many sectors `compute_fat_size` finds, and how many clusters there are
then. -/
theorem computeFatSize_spec {total : Nat} {result : Int} (htotal : 1025 ≤ total)
    (h : computeFatSize passes total 32 2 8 = some result) :
    1 ≤ result.toNat ∧ 32 + 2 * result.toNat ≤ total ∧
      128 * result.toNat < (total - 32 - 2 * result.toNat) / 8 + 128 ∧
      (total - 32 - 2 * result.toNat) / 8 ≤ 128 * result.toNat := by
  have hfixed := fatSizeLoop_fixed h
  simp only [newFat] at hfixed
  omega

end FatSize

section Lengths

theorem packH_length (n : Nat) : (packH n).length = 2 := rfl

theorem packI_length (n : Nat) : (packI n).length = 4 := rfl

theorem flatMap_length {α β : Type} {f : α → List β} {n : Nat} (h : ∀ a, (f a).length = n)
    (l : List α) : (l.flatMap f).length = l.length * n := by
  induction l with
  | nil => exact (Nat.zero_mul n).symm
  | cons a l ih => rw [List.flatMap_cons, List.length_append, h, ih, List.length_cons, Nat.succ_mul,
      Nat.add_comm]

theorem buildLfnEntry_length (name : PyStr) (ordIdx checksum : Nat) :
    (buildLfnEntry name ordIdx checksum).length = 32 := by
  simp only [buildLfnEntry, List.length_append, List.length_cons, List.length_nil,
    flatMap_length (fun _ => packH_length _), List.length_range]

theorem ShortPart.feed_length {limit : Nat} (part : ShortPart) (c : Nat)
    (h : part.out.length ≤ limit) : (part.feed limit c).out.length ≤ limit := by
  unfold ShortPart.feed
  simp only
  split
  · rw [List.length_append]
    exact Nat.succ_le_of_lt ‹part.out.length < limit›
  · exact h

theorem ShortPart.foldl_length {limit : Nat} (src : PyStr) (part : ShortPart)
    (h : part.out.length ≤ limit) : (src.foldl (feed limit) part).out.length ≤ limit := by
  induction src generalizing part with
  | nil => exact h
  | cons c src ih => exact ih _ (part.feed_length c h)

theorem ljust_length {width : Nat} {s : PyStr} (h : s.length ≤ width) :
    (ljust width s).length = width := by
  rw [ljust, List.length_append, List.length_replicate]
  omega

theorem encode_length (s : PyStr) : (encode s).length = s.length := List.length_map _

theorem shortName_length {base ext : PyStr} (hbase : base.length ≤ 8) (hext : ext.length ≤ 3) :
    (encode (ljust 8 base ++ ljust 3 ext)).length = 11 := by
  rw [encode_length, List.length_append, ljust_length hbase, ljust_length hext]

theorem shortParts_length (src : PyStr × PyStr) :
    (shortParts src).1.out.length ≤ 8 ∧ (shortParts src).2.out.length ≤ 3 := by
  unfold shortParts
  refine ⟨ShortPart.foldl_length _ _ ?_, ShortPart.foldl_length _ _ (Nat.zero_le 3)⟩
  split <;> simp

theorem tailName_length {base ext : PyStr} (hext : ext.length ≤ 3) (n : Nat) :
    (tailName base ext n).length = 11 := by
  unfold tailName
  refine shortName_length ?_ hext
  have hdigits : (digits n).length ≤ 2 := by
    unfold digits
    split <;> simp
  simp only [List.length_append, List.length_take, List.length_cons]
  split <;> omega

theorem flatMap_packI_length (fat : List Nat) : (fat.flatMap packI).length = fat.length * 4 :=
  flatMap_length packI_length fat

theorem mbrBytes_length (partLba partSectors : Nat) : (mbrBytes partLba partSectors).length = 512 := by
  simp only [mbrBytes, List.length_append, List.length_replicate, packI_length, packH_length,
    List.length_cons, List.length_nil]

theorem bpbBytes_length (bps spc reserved numFats partLba partSectors spf : Nat) :
    (bpbBytes bps spc reserved numFats partLba partSectors spf).length = 512 := by
  have hhead : (bpbHead bps spc reserved numFats partLba partSectors).length = 36 := by
    simp only [bpbHead, List.length_append, packI_length, packH_length, List.length_cons,
      List.length_nil]
  have hfat : (bpbFat spf).length = 54 := by
    simp only [bpbFat, List.length_append, List.length_replicate, packI_length, packH_length,
      List.length_cons, List.length_nil]
  rw [bpbBytes, List.length_append, List.length_append, List.length_append, hhead, hfat,
    List.length_replicate, packH_length]

theorem fsinfoBytes_length : fsinfoBytes.length = 512 := by
  simp only [fsinfoBytes, List.length_append, List.length_replicate, packI_length, packH_length]

end Lengths

section Invariant

/-- The byte is one of those that the write stores. -/
def Write.Covers (w : Write) (x : Nat) : Prop := w.offset ≤ x ∧ x < w.offset + w.data.length

/-- The write lies in the region of its purpose; `handed` are the clusters that
were taken. -/
def InPlace (g : Fat32Image) (handed : List Nat) (w : Write) : Prop :=
  match w.purpose with
  | .mbr => w.offset = 0 ∧ w.data.length = 512
  | .boot => w.offset = g.partLba * 512 ∧ w.data.length = 512
  | .fsinfo => w.offset = (g.partLba + 1) * 512 ∧ w.data.length = 512
  | .backup => w.offset = (g.partLba + 6) * 512 ∧ w.data.length = 512
  | .fat copy => copy < g.numFats ∧ w.offset = (g.fatLba + copy * g.sectorsPerFat) * 512 ∧
      w.data.length = (g.clusterCount + 2) * 4
  | .cluster c => c ∈ handed ∧ g.clusterOffset c ≤ w.offset ∧
      w.offset + w.data.length ≤ g.clusterOffset c + g.clusterSize

/-- The state of the image while it is filled; `g` is the empty image. -/
structure Filling (g img : Fat32Image) : Prop where
  same : img = { g with f := img.f, fat := img.fat, allocHint := img.allocHint, handed := img.handed }
  length : img.fat.length = g.clusterCount + 2
  hint : 2 ≤ img.allocHint
  nodup : img.handed.Nodup
  handed : ∀ c ∈ img.handed, 2 ≤ c ∧ c < g.clusterCount + 2 ∧ img.fat.getD c 0 ≠ 0
  placed : ∀ w ∈ img.f, InPlace g img.handed w

/-- The image is being filled, and the clusters in `held` were taken. -/
def Held (g : Fat32Image) (held : List Nat) (img : Fat32Image) : Prop :=
  Filling g img ∧ ∀ c ∈ held, c ∈ img.handed

/-- A program that fills the image keeps it so; nothing is said of a failure. -/
abbrev Fills {α : Type} (g : Fat32Image) (held : List Nat) (m : Mk α)
    (Q : α → Fat32Image → Prop) : Prop :=
  Prog.Triple (Held g held) m Q (fun _ _ => True) (fun _ => True)

variable {g img : Fat32Image} {held : List Nat} {c : Nat}

theorem Held.sub {held' : List Nat} (h : Held g held img) (hsub : ∀ c ∈ held', c ∈ held) :
    Held g held' img :=
  ⟨h.1, fun c hc => h.2 c (hsub c hc)⟩

theorem InPlace.mono {handed handed' : List Nat} {w : Write} (h : InPlace g handed w)
    (hsub : ∀ c ∈ handed, c ∈ handed') : InPlace g handed' w := by
  unfold InPlace at h ⊢
  cases hp : w.purpose <;> simp only [hp] at h ⊢
  case cluster c => exact ⟨hsub c h.1, h.2⟩
  all_goals exact h

theorem Filling.clusterOffset (h : Filling g img) (c : Nat) :
    img.clusterOffset c = g.clusterOffset c := by
  rw [h.same]
  rfl

theorem Filling.clusterSize (h : Filling g img) : img.clusterSize = g.clusterSize := by
  rw [h.same]

/-- One more write in its place. -/
theorem Filling.write {purpose : Purpose} {offset : Nat} {data : List UInt8} (h : Filling g img)
    (hplace : InPlace g img.handed ⟨purpose, offset, data⟩) :
    Filling g { img with f := img.f ++ [⟨purpose, offset, data⟩] } where
  same := by
    conv_lhs => rw [h.same]
  length := h.length
  hint := h.hint
  nodup := h.nodup
  handed := h.handed
  placed := by
    intro w hw
    rcases List.mem_append.mp hw with hw | hw
    · exact h.placed w hw
    · exact List.mem_singleton.mp hw ▸ hplace

/-- An entry of the table is set. -/
theorem Filling.set (h : Filling g img) {value : Nat} (c : Nat) (hvalue : value ≠ 0) :
    Filling g { img with fat := img.fat.set c value } where
  same := by
    conv_lhs => rw [h.same]
  length := by
    rw [List.length_set]
    exact h.length
  hint := h.hint
  nodup := h.nodup
  handed := by
    intro d hd
    obtain ⟨htwo, hlt, hne⟩ := h.handed d hd
    refine ⟨htwo, hlt, ?_⟩
    have hlen : d < img.fat.length := h.length ▸ hlt
    rw [List.getD_eq_getElem _ _ hlen] at hne
    rw [List.getD_eq_getElem _ _ (by rw [List.length_set]; exact hlen), List.getElem_set]
    split
    · exact hvalue
    · exact hne
  placed := h.placed

/-- A fresh cluster is handed out; its entry is set already. -/
theorem Filling.hand (h : Filling g img) (hint : Nat) (hhint : 2 ≤ hint) (htwo : 2 ≤ c)
    (hlt : c < g.clusterCount + 2) (hfresh : c ∉ img.handed) (hset : img.fat.getD c 0 ≠ 0) :
    Filling g { img with allocHint := hint, handed := img.handed ++ [c] } where
  same := by
    conv_lhs => rw [h.same]
  length := h.length
  hint := hhint
  nodup := by
    rw [List.nodup_append]
    refine ⟨h.nodup, List.nodup_singleton c, ?_⟩
    intro a ha b hb
    rw [List.mem_singleton.mp hb]
    exact fun heq => hfresh (heq ▸ ha)
  handed := by
    intro d hd
    rcases List.mem_append.mp hd with hd | hd
    · exact h.handed d hd
    · obtain rfl := List.mem_singleton.mp hd
      exact ⟨htwo, hlt, hset⟩
  placed := fun w hw => (h.placed w hw).mono fun d hd => List.mem_append_left _ hd

end Invariant

section Operations

variable {g : Fat32Image} {held : List Nat}

theorem writeAt_fills {purpose : Purpose} {offset : Nat} {data : List UInt8}
    (hplace : ∀ img, Held g held img → InPlace g img.handed ⟨purpose, offset, data⟩) :
    Fills g held (writeAt purpose offset data) fun _ => Held g held :=
  Prog.Triple.modify fun img h => ⟨h.1.write (hplace img h), h.2⟩

theorem setFat_fills {value : Nat} (c : Nat) (hvalue : value ≠ 0) :
    Fills g held (setFat c value) fun _ => Held g held :=
  Prog.Triple.modify fun _ h => ⟨h.1.set c hvalue, h.2⟩

/-- What a program reads from the image does not change. -/
theorem get_fills {α : Type} {f : Fat32Image → Mk α} {Q : α → Fat32Image → Prop}
    (h : ∀ img, Held g held img → Fills g held (f img) Q) : Fills g held (Prog.get >>= f) Q :=
  Prog.Triple.get_bind fun img himg => (h img himg).pre fun _ heq => heq ▸ himg

theorem zeroCluster_fills {c : Nat} (hc : c ∈ held) :
    Fills g held (zeroCluster c) fun _ => Held g held := by
  refine get_fills fun img himg => writeAt_fills fun img' himg' => ?_
  refine ⟨himg'.2 c hc, ?_, ?_⟩
  · exact Nat.le_of_eq (himg.1.clusterOffset c).symm
  · rw [himg.1.clusterOffset, List.length_replicate, himg.1.clusterSize]

/-- What `alloc_cluster` finds is free and in the table. -/
theorem Fat32Image.firstFree_spec {img : Fat32Image} {c : Nat} (h : img.firstFree = some c) :
    img.allocHint ≤ c ∧ c < img.fat.length ∧ img.fat.getD c 0 = 0 := by
  have hfree := List.find?_some h
  have hmem := List.mem_of_find?_eq_some h
  rw [List.mem_range'_1] at hmem
  have hzero : img.fat.getD c 0 = 0 := by simpa using hfree
  omega

theorem allocCluster_fills : Fills g held allocCluster fun c => Held g (c :: held) := by
  refine Prog.Triple.get_bind fun img himg => Prog.Triple.elim (Prog.Triple.fail fun _ _ => trivial)
    fun c hc => ?_
  obtain ⟨hhint, hlt, hzero⟩ := Fat32Image.firstFree_spec hc
  have hfresh : c ∉ img.handed := fun hmem => (himg.1.handed c hmem).2.2 hzero
  have hset : Filling g { img with fat := img.fat.set c fat32Eoc } :=
    himg.1.set c (by decide)
  have hgetD : (img.fat.set c fat32Eoc).getD c 0 ≠ 0 := by
    rw [List.getD_eq_getElem _ _ (by rw [List.length_set]; exact hlt), List.getElem_set_self]
    decide
  have hhand := hset.hand (c + 1) (Nat.le_trans himg.1.hint (Nat.le_succ_of_le hhint))
    (Nat.le_trans himg.1.hint hhint) (himg.1.length ▸ hlt) hfresh hgetD
  refine Prog.Triple.bind (R := fun _ s => s = { img with fat := img.fat.set c fat32Eoc })
    (Prog.Triple.modify fun s hs => by rw [hs]) fun _ => ?_
  refine Prog.Triple.bind (R := fun _ => Held g (c :: held)) (Prog.Triple.modify ?_) fun _ => ?_
  · rintro s rfl
    refine ⟨hhand, fun d hd => ?_⟩
    rcases List.mem_cons.mp hd with rfl | hd
    · exact List.mem_append_right _ (List.mem_singleton.mpr rfl)
    · exact List.mem_append_left _ (himg.2 d hd)
  · exact Prog.Triple.bind (zeroCluster_fills List.mem_cons_self) fun _ =>
      Prog.Triple.pure fun _ hs => hs

/-- A cluster that was taken is not zero. -/
theorem Held.ne_zero {img : Fat32Image} {c : Nat} (h : Held g held img) (hc : c ∈ held) : c ≠ 0 := by
  have htwo := (h.1.handed c (h.2 c hc)).1
  omega

theorem growDir_fills (state : DirState) :
    Fills g (state.clusters ++ held) (growDir state) fun state' s =>
      Held g (state'.clusters ++ held) s ∧
        state'.clusters.length = state.clusters.length + 1 := by
  refine Prog.Triple.bind allocCluster_fills fun c => ?_
  refine Prog.Triple.assume (p := c ≠ 0) (fun hc => ?_) fun s hs => hs.ne_zero List.mem_cons_self
  refine Prog.Triple.bind (setFat_fills _ hc) fun _ => ?_
  refine Prog.Triple.bind (setFat_fills _ (by decide)) fun _ => Prog.Triple.pure fun s hs => ?_
  refine ⟨hs.sub fun d hd => ?_, by rw [List.length_append, List.length_singleton]⟩
  simp only [List.mem_append, List.mem_cons] at hd ⊢
  tauto

/-- After `ensure_dir_capacity` the directory has the cluster of that entry. -/
theorem ensureDirCapacity_fills (state : DirState) (entryIndex : Nat) :
    Fills g (state.clusters ++ held) (ensureDirCapacity state entryIndex) fun state' s =>
      Held g (state'.clusters ++ held) s ∧
        entryIndex / (g.clusterSize / 32) < state'.clusters.length := by
  refine get_fills fun img himg => ?_
  rw [himg.1.clusterSize]
  refine Prog.Triple.loop_ends (J := fun state : DirState => Held g (state.clusters ++ held))
    (fun state : DirState => entryIndex / (g.clusterSize / 32) + 1 - state.clusters.length)
    (fun state => ?_) _ _ (Nat.lt_succ_of_le (Nat.sub_le _ _))
  refine Prog.Triple.ite (fun hle => ?_) fun hgt => ?_
  · refine Prog.Triple.bind (growDir_fills state) fun state' => Prog.Triple.pure fun s hs => ?_
    refine ⟨hs.1, ?_⟩
    rw [hs.2]
    omega
  · exact Prog.Triple.pure fun s hs => ⟨hs, Nat.lt_of_not_le hgt⟩

/-- The name of a short entry has 11 bytes. -/
theorem makeShortName_fills (name : PyStr) (used : List (List UInt8)) :
    Fills g held (makeShortName name used) fun made s => Held g held s ∧ made.1.length = 11 := by
  obtain ⟨hbase, hext⟩ := shortParts_length (splitName name)
  refine Prog.Triple.ite (fun _ => Prog.Triple.pure fun s hs => ⟨hs, shortName_length hbase hext⟩)
    fun _ => ?_
  refine Prog.Triple.elim (Prog.Triple.fail fun _ _ => trivial) fun short hshort => ?_
  have hmem := List.mem_of_find?_eq_some hshort
  obtain ⟨n, _, rfl⟩ := List.mem_map.mp hmem
  exact Prog.Triple.pure fun s hs => ⟨hs, tailName_length hext n⟩

theorem buildShortEntry_fills {short : List UInt8} (hshort : short.length = 11)
    (attr cluster size : Nat) :
    Fills g held (buildShortEntry short attr cluster size) fun entry s =>
      Held g held s ∧ entry.length = 32 := by
  refine Prog.Triple.ite (fun _ => Prog.Triple.fail fun _ _ => trivial) fun _ => ?_
  refine Prog.Triple.pure fun s hs => ⟨hs, ?_⟩
  simp only [List.length_append, hshort, List.length_replicate, packH_length, packI_length,
    List.length_cons, List.length_nil]

theorem lfnEntries_fills (name : PyStr) (short : List UInt8) (needsLfn : Bool) :
    Fills g held (lfnEntries name short needsLfn) fun entries s =>
      Held g held s ∧ ∀ entry ∈ entries, entry.length = 32 := by
  refine Prog.Triple.ite (fun _ => Prog.Triple.pure fun s hs => ⟨hs, fun _ h => by cases h⟩)
    fun _ => Prog.Triple.ite (fun _ => Prog.Triple.fail fun _ _ => trivial) fun _ => ?_
  refine Prog.Triple.pure fun s hs => ⟨hs, fun entry hentry => ?_⟩
  obtain ⟨i, _, rfl⟩ := List.mem_map.mp hentry
  exact buildLfnEntry_length _ _ _

theorem ensureAsciiName_fills (name : PyStr) :
    Fills g held (ensureAsciiName name) fun _ => Held g held :=
  Prog.Triple.ite (fun _ => Prog.Triple.fail fun _ _ => trivial) fun _ =>
    Prog.Triple.pure fun _ hs => hs

variable (hsize : g.clusterSize = 4096)
include hsize

theorem writeDirEntry_fills (state : DirState) (entryIndex : Nat) {entry : List UInt8}
    (hentry : entry.length = 32) :
    Fills g (state.clusters ++ held) (writeDirEntry state entryIndex entry) fun state' =>
      Held g (state'.clusters ++ held) := by
  refine Prog.Triple.bind (ensureDirCapacity_fills state entryIndex) fun state' => ?_
  refine Prog.Triple.assume (fun hlt : entryIndex / (g.clusterSize / 32) < state'.clusters.length => ?_)
    fun s hs => hs.2
  refine Prog.Triple.pre (get_fills fun img himg => ?_) fun s hs => hs.1
  rw [himg.1.clusterSize]
  refine Prog.Triple.bind (writeAt_fills fun img' himg' => ?_) fun _ => Prog.Triple.pure fun s hs => hs
  rw [hsize] at hlt ⊢
  have hmem : state'.clusters.getD (entryIndex / (4096 / 32)) 0 ∈ state'.clusters := by
    rw [List.getD_eq_getElem _ _ hlt]
    exact List.getElem_mem hlt
  refine ⟨himg'.2 _ (List.mem_append_left _ hmem), ?_, ?_⟩
  · rw [himg.1.clusterOffset]
    exact Nat.le_add_right _ _
  · have hslot : entryIndex % (4096 / 32) * 32 + 32 ≤ 4096 := by omega
    rw [himg.1.clusterOffset, hentry, hsize, Nat.add_assoc]
    exact Nat.add_le_add_left hslot _

theorem appendEntry_fills (state : DirState) {entry : List UInt8} (hentry : entry.length = 32) :
    Fills g (state.clusters ++ held) (appendEntry state entry) fun state' =>
      Held g (state'.clusters ++ held) :=
  Prog.Triple.bind (writeDirEntry_fills hsize state _ hentry) fun _ => Prog.Triple.pure fun _ hs => hs

/-- Adding an entry may take clusters for the directory, no others. -/
theorem addEntry_fills (state : DirState) (name : PyStr) (attr cluster size : Nat) :
    Fills g (state.clusters ++ held) (addEntry state name attr cluster size) fun state' =>
      Held g (state'.clusters ++ held) := by
  refine Prog.Triple.bind (ensureAsciiName_fills name) fun _ => ?_
  refine Prog.Triple.bind (makeShortName_fills name _) fun made => ?_
  refine Prog.Triple.assume (fun hlen : made.1.length = 11 => ?_) fun s hs => hs.2
  refine Prog.Triple.pre ?_ fun s hs => hs.1
  refine Prog.Triple.bind (lfnEntries_fills name made.1 made.2) fun entries => ?_
  refine Prog.Triple.assume (fun hlfn : ∀ entry ∈ entries, entry.length = 32 => ?_) fun s hs => hs.2
  refine Prog.Triple.pre ?_ fun s hs => hs.1
  refine Prog.Triple.bind (buildShortEntry_fills hlen attr cluster size) fun last => ?_
  refine Prog.Triple.assume (fun hlast : last.length = 32 => ?_) fun s hs => hs.2
  refine Prog.Triple.pre ?_ fun s hs => hs.1
  refine Prog.Triple.foldlM (J := fun state : DirState => Held g (state.clusters ++ held))
    (entries ++ [last]) { state with shortNames := made.1 :: state.shortNames }
    fun state entry hentry => appendEntry_fills hsize state ?_
  rcases List.mem_append.mp hentry with h | h
  · exact hlfn entry h
  · exact List.mem_singleton.mp h ▸ hlast

theorem writeDotEntries_fills (state : DirState) (cluster parentCluster : Nat) :
    Fills g (state.clusters ++ held) (writeDotEntries state cluster parentCluster) fun state' =>
      Held g (state'.clusters ++ held) := by
  refine Prog.Triple.bind (buildShortEntry_fills (by decide) _ _ _) fun dot => ?_
  refine Prog.Triple.assume (fun hdot : dot.length = 32 => ?_) fun s hs => hs.2
  refine Prog.Triple.pre ?_ fun s hs => hs.1
  refine Prog.Triple.bind (buildShortEntry_fills (by decide) _ _ _) fun dotdot => ?_
  refine Prog.Triple.assume (fun hdotdot : dotdot.length = 32 => ?_) fun s hs => hs.2
  refine Prog.Triple.pre ?_ fun s hs => hs.1
  refine Prog.Triple.bind (writeDirEntry_fills hsize state 0 hdot) fun state₁ => ?_
  refine Prog.Triple.bind (writeDirEntry_fills hsize state₁ 1 hdotdot) fun state₂ => ?_
  exact Prog.Triple.pure fun _ hs => hs

/-- The clusters of the new directory are its own. -/
theorem mkdir_fills (parent : DirState) (name : PyStr) (parentCluster : Nat) :
    Fills g (parent.clusters ++ held) (mkdir parent name parentCluster) fun made =>
      Held g (made.1.clusters ++ (made.2.clusters ++ held)) := by
  refine Prog.Triple.bind allocCluster_fills fun cluster => ?_
  refine Prog.Triple.bind (writeDotEntries_fills hsize (DirState.new cluster) cluster parentCluster)
    fun state => ?_
  have hadd := @addEntry_fills g (state.clusters ++ held) hsize parent name fatAttrDir cluster 0
  refine Prog.Triple.bind (hadd.pre fun s hs => hs.sub fun c hc => ?_) fun parent' =>
    Prog.Triple.pure fun s hs => hs.sub fun c hc => ?_
  · simp only [List.append_eq, List.mem_append] at hc ⊢
    tauto
  · simp only [List.mem_append] at hc ⊢
    tauto

omit hsize in
/-- A chunk is not longer than its cluster. -/
theorem addChunk_fills (data : List UInt8) (chain : Nat × Nat) (i : Nat) :
    Fills g held (addChunk data chain i) fun _ => Held g held := by
  refine Prog.Triple.bind allocCluster_fills fun cluster => get_fills fun img himg => ?_
  have hne := himg.ne_zero List.mem_cons_self
  refine Prog.Triple.bind (R := fun _ => Held g (cluster :: held)) (Prog.Triple.modify ?_)
    fun _ => ?_
  · intro s hs
    split
    · exact ⟨hs.1.set _ hne, hs.2⟩
    · exact hs
  refine Prog.Triple.bind (writeAt_fills fun s hs => ?_) fun _ =>
    Prog.Triple.pure fun s hs => hs.sub fun c hc => List.mem_cons_of_mem _ hc
  refine ⟨hs.2 _ List.mem_cons_self, Nat.le_of_eq (himg.1.clusterOffset _).symm, ?_⟩
  rw [himg.1.clusterOffset, himg.1.clusterSize]
  exact Nat.add_le_add_left (List.length_take_le _ _) _

theorem addFile_fills (parent : DirState) (name : PyStr) (data : List UInt8) :
    Fills g (parent.clusters ++ held) (addFile parent name data) fun parent' =>
      Held g (parent'.clusters ++ held) := by
  refine get_fills fun img himg => Prog.Triple.ite (fun _ => ?_) fun _ => ?_
  · exact addEntry_fills hsize parent name _ _ _
  · refine Prog.Triple.bind (Prog.Triple.foldlM
      (J := fun _ : Nat × Nat => Held g (parent.clusters ++ held)) _ _ fun chain i _ =>
        addChunk_fills data chain i) fun chain => ?_
    exact Prog.Triple.bind (setFat_fills _ (by decide)) fun _ =>
      addEntry_fills hsize parent name _ _ _

end Operations

section Trees

variable {g : Fat32Image} {held : List Nat} (hsize : g.clusterSize = 4096)
include hsize

theorem copyName_fills {copy : DirState → HostNode → Mk DirState}
    (hcopy : ∀ state host, ∀ held, Fills g (state.clusters ++ held) (copy state host) fun state' =>
      Held g (state'.clusters ++ held))
    (skipName : Option PyStr) (parent : DirState) (entry : PyStr × HostNode) :
    Fills g (parent.clusters ++ held) (copyName copy skipName parent entry) fun parent' =>
      Held g (parent'.clusters ++ held) := by
  obtain ⟨name, node⟩ := entry
  refine Prog.Triple.ite (fun _ => Prog.Triple.pure fun s hs => hs) fun _ => ?_
  refine Prog.Triple.bind (ensureAsciiName_fills name) fun _ => ?_
  cases node with
  | file data => exact addFile_fills hsize parent name data
  | dir entries =>
      refine Prog.Triple.bind (mkdir_fills hsize parent name parent.cluster) fun made => ?_
      refine Prog.Triple.bind (hcopy made.1 (.dir entries) _) fun _ =>
        Prog.Triple.pure fun s hs => hs.sub fun c hc => List.mem_append_right _ hc

/-- Induction on the depth of the recursion. -/
theorem copyTree_fills (depth : Nat) (skipName : Option PyStr) (parent : DirState) (host : HostNode) :
    Fills g (parent.clusters ++ held) (copyTree depth skipName parent host) fun parent' =>
      Held g (parent'.clusters ++ held) := by
  induction depth generalizing skipName parent host held with
  | zero => exact Prog.Triple.fail fun _ _ => trivial
  | succ depth ih =>
      exact Prog.Triple.foldlM (J := fun parent : DirState => Held g (parent.clusters ++ held)) _ _
        fun parent entry _ => copyName_fills hsize (fun state host _ => ih none state host)
          skipName parent entry

omit hsize in
/-- Each copy of the table is written, with all its entries. -/
theorem writeFat_fills :
    Fills g held writeFat fun _ img => Held g held img ∧ ∀ copy, copy < g.numFats →
      ∃ w ∈ img.f, w.purpose = .fat copy ∧ InPlace g img.handed w := by
  refine get_fills fun img himg => Prog.Triple.ite (fun _ => Prog.Triple.fail fun _ _ => trivial)
    fun _ => ?_
  have hnum : img.numFats = g.numFats := by rw [himg.1.same]
  have hlba : img.fatLba = g.fatLba := by rw [himg.1.same]
  have hspf : img.sectorsPerFat = g.sectorsPerFat := by rw [himg.1.same]
  rw [hnum, hlba, hspf]
  let J : Nat → Fat32Image → Prop := fun next img => Held g held img ∧ ∀ copy, copy < next →
    ∃ w ∈ img.f, w.purpose = .fat copy ∧ InPlace g img.handed w
  have hcopy (copy : Nat) (hlt : copy < g.numFats) : Prog.Triple (J copy)
      (writeAt (.fat copy) ((g.fatLba + copy * g.sectorsPerFat) * sectorSize)
        (img.fat.flatMap packI)) (fun _ => J (copy + 1)) (fun _ _ => True) fun _ => True := by
    refine Prog.Triple.modify ?_
    rintro s ⟨hs, hwritten⟩
    have hplace : InPlace g s.handed ⟨.fat copy,
        (g.fatLba + copy * g.sectorsPerFat) * sectorSize, img.fat.flatMap packI⟩ := by
      refine ⟨hlt, rfl, ?_⟩
      rw [flatMap_packI_length, himg.1.length]
    refine ⟨⟨hs.1.write hplace, hs.2⟩, fun k hk => ?_⟩
    rcases Nat.lt_or_eq_of_le (Nat.le_of_lt_succ hk) with hlt' | rfl
    · obtain ⟨w, hw, hpurpose⟩ := hwritten k hlt'
      exact ⟨w, List.mem_append_left _ hw, hpurpose⟩
    · exact ⟨_, List.mem_append_right _ (List.mem_singleton.mpr rfl), rfl, hplace⟩
  have hloop := Prog.Triple.forCount (J := J) g.numFats fun copy _ hlt =>
    hcopy copy (Nat.zero_add g.numFats ▸ hlt)
  rw [Nat.zero_add] at hloop
  exact hloop.pre fun s hs => ⟨hs, fun copy hcopy => absurd hcopy (Nat.not_lt_zero _)⟩

omit hsize in
theorem ramSource_fills (root : Option HostNode) :
    Fills g held (ramSource root) fun _ => Held g held := by
  refine Prog.Triple.elim (Prog.Triple.pure fun s hs => hs) fun entry _ => ?_
  exact Prog.Triple.ite (fun _ => Prog.Triple.pure fun s hs => hs) fun _ =>
    Prog.Triple.fail fun _ _ => trivial

/-- From the empty table on: the image is filled, and both copies of the table
are written at the end. -/
theorem fillImage_fills (depth : Nat) (root : Option HostNode) (hempty : Filling g g)
    (hnone : g.handed = []) (hcount : 1 ≤ g.clusterCount) :
    Prog.Triple (fun img => img = g) (fillImage depth root)
      (fun _ img => Filling g img ∧ ∀ copy, copy < g.numFats →
        ∃ w ∈ img.f, w.purpose = .fat copy ∧ InPlace g img.handed w)
      (fun _ _ => True) (fun _ => True) := by
  have hset := hempty.set 2 (show fat32Eoc ≠ 0 by decide)
  have hlt : 2 < g.fat.length := by
    rw [hempty.length]
    omega
  have hgetD : (g.fat.set 2 fat32Eoc).getD 2 0 ≠ 0 := by
    rw [List.getD_eq_getElem _ _ (by rw [List.length_set]; exact hlt), List.getElem_set_self]
    decide
  have hroot := hset.hand g.allocHint hempty.hint (Nat.le_refl 2) (hempty.length ▸ hlt)
    (by rw [hnone]; exact List.not_mem_nil) hgetD
  refine Prog.Triple.bind (R := fun _ s => s = { g with fat := g.fat.set 2 fat32Eoc })
    (Prog.Triple.modify fun s hs => by rw [hs]) fun _ => ?_
  refine Prog.Triple.bind (R := fun _ => Held g ((DirState.new 2).clusters ++ []))
    (Prog.Triple.modify ?_) fun _ => ?_
  · rintro s rfl
    exact ⟨hroot, fun c hc => List.mem_append_right _ hc⟩
  refine Prog.Triple.bind (zeroCluster_fills List.mem_cons_self) fun _ => ?_
  refine Prog.Triple.bind (ramSource_fills root) fun ramSrc => ?_
  refine Prog.Triple.bind (mkdir_fills hsize (DirState.new 2) ramName 2) fun made => ?_
  refine Prog.Triple.bind (R := fun _ => Held g (made.2.clusters ++ [])) ?_ fun _ => ?_
  · refine Prog.Triple.elim ?_ fun ramHost _ => ?_
    · exact Prog.Triple.pure fun s hs => hs.sub fun c hc => List.mem_append_right _ hc
    · exact (copyTree_fills hsize depth none made.1 ramHost).post fun _ s hs =>
        hs.sub fun c hc => List.mem_append_right _ hc
  refine Prog.Triple.bind (R := fun _ => Held g []) ?_ fun _ => ?_
  · refine Prog.Triple.elim ?_ fun host _ => ?_
    · exact Prog.Triple.pure fun s hs => hs.sub fun c hc => List.mem_append_right _ hc
    · exact (copyTree_fills hsize depth (some ramName) made.2 host).post fun _ s hs =>
        hs.sub fun c hc => List.mem_append_right _ hc
  exact writeFat_fills.post fun _ s hs => ⟨hs.1.1, hs.2⟩

end Trees

section Regions

/-- The first sector of a region and the first one after it, in an image with two
tables of `spf` sectors. -/
def region (spf : Nat) : Purpose → Nat × Nat
  | .mbr => (0, 1)
  | .boot => (2048, 2049)
  | .fsinfo => (2049, 2050)
  | .backup => (2054, 2055)
  | .fat copy => (2080 + copy * spf, 2080 + copy * spf + spf)
  | .cluster c => (2080 + 2 * spf + (c - 2) * 8, 2080 + 2 * spf + (c - 2) * 8 + 8)

/-- The two tables and the data clusters are the only regions of their kind. -/
def Regular : Purpose → Prop
  | .fat copy => copy < 2
  | .cluster c => 2 ≤ c
  | _ => True

theorem region_apart {spf : Nat} {p q : Purpose} (hpq : p ≠ q) (hp : Regular p) (hq : Regular q) :
    (region spf p).2 ≤ (region spf q).1 ∨ (region spf q).2 ≤ (region spf p).1 := by
  have htwo {copy : Nat} (h : Regular (.fat copy)) : copy = 0 ∨ copy = 1 := by
    simp only [Regular] at h
    omega
  cases p <;> cases q <;> simp only [region, Regular] at hp hq ⊢
  case fat.fat k j =>
    rcases htwo hp with rfl | rfl <;> rcases htwo hq with rfl | rfl
    · exact absurd rfl hpq
    · omega
    · omega
    · exact absurd rfl hpq
  case fat.cluster k c =>
    rcases htwo hp with rfl | rfl <;> omega
  case cluster.fat c k =>
    rcases htwo hq with rfl | rfl <;> omega
  case cluster.cluster c d =>
    have hne : c ≠ d := fun heq => hpq (heq ▸ rfl)
    omega
  all_goals first | exact absurd rfl hpq | omega

/-- No byte is written for two purposes, and no cluster is handed out twice. -/
def RegionsApart (img : Fat32Image) : Prop :=
  (∀ a ∈ img.f, ∀ b ∈ img.f, a.purpose ≠ b.purpose → ∀ x, a.Covers x → ¬ b.Covers x) ∧
    img.handed.Nodup

/-- The table fits into the sectors it has. -/
def TableFits (img : Fat32Image) : Prop :=
  (img.clusterCount + 2) * 4 ≤ img.sectorsPerFat * 512

theorem blankImage_filling (partSectors spf : Nat) :
    Filling (blankImage partSectors spf) (blankImage partSectors spf) where
  same := rfl
  length := by
    simp only [blankImage, Fat32Image.new, List.length_set, List.length_replicate]
  hint := Nat.le_refl 2
  nodup := List.nodup_nil
  handed := fun c hc => absurd hc List.not_mem_nil
  placed := by
    intro w hw
    simp only [blankImage, Fat32Image.new, bootWrites, List.mem_cons, List.not_mem_nil,
      or_false] at hw
    rcases hw with rfl | rfl | rfl | rfl
    · exact ⟨rfl, mbrBytes_length _ _⟩
    · exact ⟨rfl, bpbBytes_length _ _ _ _ _ _ _⟩
    · exact ⟨rfl, fsinfoBytes_length⟩
    · exact ⟨rfl, bpbBytes_length _ _ _ _ _ _ _⟩

variable {partSectors spf : Nat} {img : Fat32Image}

/-- When the table fits, each write stays in the sectors of its region. -/
theorem InPlace.region {handed : List Nat} {w : Write}
    (hplace : InPlace (blankImage partSectors spf) handed w) (hhanded : ∀ c ∈ handed, 2 ≤ c)
    (hfits : ((blankImage partSectors spf).clusterCount + 2) * 4 ≤ spf * 512) :
    Regular w.purpose ∧ (Mkfs.region spf w.purpose).1 * 512 ≤ w.offset ∧
      w.offset + w.data.length ≤ (Mkfs.region spf w.purpose).2 * 512 := by
  have hdata : (blankImage partSectors spf).dataLba = 2080 + 2 * spf := rfl
  have hsize : (blankImage partSectors spf).clusterSize = 4096 := rfl
  have hlba : (blankImage partSectors spf).fatLba = 2080 := rfl
  have hspf : (blankImage partSectors spf).sectorsPerFat = spf := rfl
  have hpart : (blankImage partSectors spf).partLba = 2048 := rfl
  unfold InPlace at hplace
  cases hp : w.purpose <;> simp only [hp, Mkfs.region, Regular] at hplace ⊢
  case fat copy =>
    obtain ⟨hcopy, hoff, hlen⟩ := hplace
    rw [hlba, hspf] at hoff
    refine ⟨hcopy, by omega, ?_⟩
    rw [hoff, hlen]
    omega
  case cluster c =>
    obtain ⟨hmem, hlow, hhigh⟩ := hplace
    simp only [Fat32Image.clusterOffset, hdata, hsize, sectorSize] at hlow hhigh
    refine ⟨hhanded c hmem, ?_, ?_⟩
    · rw [Nat.add_mul, Nat.mul_assoc]
      exact hlow
    · rw [Nat.add_mul, Nat.add_mul, Nat.mul_assoc (c - 2)]
      exact hhigh
  case mbr =>
    rw [hplace.1, hplace.2]
    decide
  all_goals
    rw [hplace.1, hplace.2, hpart]
    decide

/-- When the table does not fit, the two copies overlap. -/
theorem fat_overlap {w v : Write} {handed : List Nat} (hw : w.purpose = .fat 0)
    (hv : v.purpose = .fat 1) (hplace : InPlace (blankImage partSectors spf) handed w)
    (hplace' : InPlace (blankImage partSectors spf) handed v)
    (hlong : spf * 512 < ((blankImage partSectors spf).clusterCount + 2) * 4) :
    w.Covers v.offset ∧ v.Covers v.offset := by
  simp only [InPlace, hw, hv] at hplace hplace'
  have hlba : (blankImage partSectors spf).fatLba = 2080 := rfl
  have hspf : (blankImage partSectors spf).sectorsPerFat = spf := rfl
  rw [hlba, hspf] at hplace hplace'
  simp only [Write.Covers]
  omega

/-- The regions are apart exactly when the table fits. -/
theorem Filling.apart_iff (h : Filling (blankImage partSectors spf) img)
    (hfat : ∀ copy, copy < 2 →
      ∃ w ∈ img.f, w.purpose = .fat copy ∧ InPlace (blankImage partSectors spf) img.handed w) :
    RegionsApart img ↔ ((blankImage partSectors spf).clusterCount + 2) * 4 ≤ spf * 512 := by
  constructor
  · rintro ⟨hapart, _⟩
    by_contra hlong
    obtain ⟨w, hw, hwp, hplace⟩ := hfat 0 (by decide)
    obtain ⟨v, hv, hvp, hplace'⟩ := hfat 1 (by decide)
    obtain ⟨hwx, hvx⟩ := fat_overlap hwp hvp hplace hplace' (Nat.lt_of_not_le hlong)
    have hne : w.purpose ≠ v.purpose := by
      rw [hwp, hvp]
      decide
    exact hapart w hw v hv hne _ hwx hvx
  · intro hfits
    refine ⟨?_, h.nodup⟩
    intro a ha b hb hne x hax hbx
    have htwo : ∀ c ∈ img.handed, 2 ≤ c := fun c hc => (h.handed c hc).1
    obtain ⟨hra, hlowa, hhigha⟩ := (h.placed a ha).region htwo hfits
    obtain ⟨hrb, hlowb, hhighb⟩ := (h.placed b hb).region htwo hfits
    unfold Write.Covers at hax hbx
    rcases @region_apart spf _ _ hne hra hrb with hle | hle <;> omega

theorem Filling.fits_iff (h : Filling (blankImage partSectors spf) img) :
    TableFits img ↔ ((blankImage partSectors spf).clusterCount + 2) * 4 ≤ spf * 512 := by
  have hcount : img.clusterCount = (blankImage partSectors spf).clusterCount := by rw [h.same]
  have hspf : img.sectorsPerFat = spf := by
    rw [h.same]
    rfl
  rw [TableFits, hcount, hspf]

/-- What `format_fat32` has done when it ends. -/
theorem formatFat32_filling {passes depth sizeBytes : Nat} {root : Option HostNode}
    (h : formatFat32 passes depth sizeBytes root = some img) :
    ∃ result : Int, computeFatSize passes (sizeBytes / 512 - 2048) 32 2 8 = some result ∧
      1025 ≤ sizeBytes / 512 - 2048 ∧
      Filling (blankImage (sizeBytes / 512 - 2048) result.toNat) img ∧
      ∀ copy, copy < 2 → ∃ w ∈ img.f, w.purpose = .fat copy ∧
        InPlace (blankImage (sizeBytes / 512 - 2048) result.toNat) img.handed w := by
  unfold formatFat32 at h
  dsimp only at h
  split at h
  · cases h
  next hsize =>
    obtain ⟨result, hresult, h⟩ := Option.bind_eq_some_iff.mp h
    split at h
    · cases h
    next =>
      have hpart : 1025 ≤ sizeBytes / 512 - 2048 := by
        rw [sectorSize] at hsize
        omega
      have hspec := computeFatSize_spec hpart hresult
      have hcount : 1 ≤ (blankImage (sizeBytes / 512 - 2048) result.toNat).clusterCount := by
        simp only [blankImage, Fat32Image.new]
        omega
      have hfill := fillImage_fills rfl depth root (blankImage_filling _ _) rfl hcount
      cases hrun : fillImage depth root (blankImage (sizeBytes / 512 - 2048) result.toNat) with
      | mk r last =>
          rw [sectorSize, hrun] at h
          cases r with
          | ok =>
              obtain rfl := Option.some.inj h
              exact ⟨result, hresult, hpart, hfill.ok rfl hrun⟩
          | err => cases h
          | fault => cases h
          | diverges => cases h

/-- In terms of the size of the image: the table fits unless the number of
clusters is 127 or 0 modulo 128. -/
theorem blankImage_fits_iff {total : Nat} {result : Int} {passes : Nat} (htotal : 1025 ≤ total)
    (h : computeFatSize passes total 32 2 8 = some result) :
    ((blankImage total result.toNat).clusterCount + 2) * 4 ≤ result.toNat * 512 ↔
      16 ≤ (total - 24) % 1026 := by
  obtain ⟨hone, hle, hlow, hhigh⟩ := computeFatSize_spec htotal h
  have hcount : (blankImage total result.toNat).clusterCount =
    (total - 32 - 2 * result.toNat) / 8 := rfl
  rw [hcount]
  rcases Nat.lt_or_ge ((total - 24) / 1026) result.toNat with hlt | hge <;> omega

/-- The regions of an image are apart exactly when its size is not in one of the
residue classes for which the table is too long. -/
theorem formatFat32_regions {passes depth sizeBytes : Nat} {root : Option HostNode}
    (h : formatFat32 passes depth sizeBytes root = some img) :
    (RegionsApart img ↔ 16 ≤ (sizeBytes / 512 - 2072) % 1026) ∧
      (TableFits img ↔ 16 ≤ (sizeBytes / 512 - 2072) % 1026) := by
  obtain ⟨result, hresult, hpart, hfilling, hfat⟩ := formatFat32_filling h
  have hiff := blankImage_fits_iff hpart hresult
  rw [Nat.sub_sub] at hiff
  exact ⟨(hfilling.apart_iff hfat).trans hiff, hfilling.fits_iff.trans hiff⟩

/-- An image of 3098 sectors has 127 clusters, and room for 128 table entries. -/
theorem formatFat32_regions_overlap :
    ∃ img, formatFat32 2 1 (3098 * 512) none = some img ∧ ¬ RegionsApart img ∧ ¬ TableFits img := by
  have hsome : (formatFat32 2 1 (3098 * 512) none).isSome := by decide +kernel
  obtain ⟨img, himg⟩ := Option.isSome_iff_exists.mp hsome
  obtain ⟨result, hresult, hpart, hfilling, hfat⟩ := formatFat32_filling himg
  have hiff := blankImage_fits_iff hpart hresult
  refine ⟨img, himg, fun hapart => ?_, fun hfits => ?_⟩
  · have hlong := hiff.mp ((hfilling.apart_iff hfat).mp hapart)
    exact absurd hlong (by decide)
  · have hlong := hiff.mp (hfilling.fits_iff.mp hfits)
    exact absurd hlong (by decide)

/-- One sector count further on, where the table fits. -/
theorem formatFat32_regions_apart :
    ∃ img, formatFat32 2 1 (3097 * 512) none = some img ∧ RegionsApart img := by
  have hsome : (formatFat32 2 1 (3097 * 512) none).isSome := by decide +kernel
  obtain ⟨img, himg⟩ := Option.isSome_iff_exists.mp hsome
  exact ⟨img, himg, (formatFat32_regions himg).1.mpr (by decide)⟩

end Regions

end Mkfs

end OsAgentLab
