/-
When the loader of the firmware stays inside memory: the segments that it loads, byte by
byte, and the condition on their headers and on the size of the initrd.
-/
import OsAgentLab.Firmware.Loader

namespace OsAgentLab

namespace Firmware

variable {read : Nat → Option Sector} {hdr : ImageHeader} {memBase memSize fileOff : Nat}

section Stores

variable {st : Store} {x i : Nat} {b : UInt8}

theorem Store.byteAt_add (haddr : st.addr < 18446744073709551616)
    (hlen : st.data.length ≤ 18446744073709551616) (hi : i < st.data.length) :
    st.byteAt (u64 (st.addr + i)) = st.data[i]? := by
  have hindex : u64 (u64 (st.addr + i) + (18446744073709551616 - st.addr)) = i := by
    simp only [u64]
    omega
  rw [Store.byteAt, if_pos (show u64 (st.addr + i) < _ from Nat.mod_lt _ (by decide)), hindex]

theorem Store.byteAt_some (haddr : st.addr < 18446744073709551616) (h : st.byteAt x = some b) :
    ∃ i, i < st.data.length ∧ x = u64 (st.addr + i) ∧ st.data[i]? = some b := by
  rw [Store.byteAt] at h
  by_cases hx : x < 18446744073709551616
  · rw [if_pos hx] at h
    refine ⟨_, (List.getElem?_eq_some_iff.mp h).1, ?_, h⟩
    simp only [u64]
    omega
  · rw [if_neg hx] at h
    cases h

end Stores

section Segments

/-- The addresses that a segment has: its file bytes, and zeros up to `p_memsz`. -/
def Phdr.span (ph : Phdr) : Nat := max ph.filesz ph.memsz

/-- The byte of a segment: one of its file bytes, or zero behind them. -/
def Phdr.byte (read : Nat → Option Sector) (fileOff : Nat) (ph : Phdr) (i : Nat) : UInt8 :=
  if i < ph.filesz then diskByte read (u64 (u64 (fileOff + ph.offset) + i)) else 0

/-- The fields have 64 bits. -/
structure Phdr.Words (ph : Phdr) : Prop where
  paddr : ph.paddr < 18446744073709551616
  filesz : ph.filesz < 18446744073709551616
  memsz : ph.memsz < 18446744073709551616

/-- The headers of the segments that are loaded, from header `i` on. -/
def loadedPhdrs (read : Nat → Option Sector) (fileOff phoff : Nat) : Nat → Nat → List Phdr
  | 0, _ => []
  | left + 1, i =>
      (readPhdr read (u64 (fileOff + phoff + i * phdrSize))).toList.filter (·.type = ptLoad) ++
        loadedPhdrs read fileOff phoff left (i + 1)

/-- The headers of the segments of the kernel. -/
def ImageHeader.segments (read : Nat → Option Sector) (hdr : ImageHeader) : List Phdr :=
  ((readEhdr read hdr.kernelOffset).map fun eh =>
    loadedPhdrs read hdr.kernelOffset eh.phoff eh.phnum 0).getD []

theorem readPhdr_words {off : Nat} {ph : Phdr} (h : readPhdr read off = some ph) : ph.Words := by
  obtain ⟨bytes, _, rfl⟩ := Option.map_eq_some_iff.mp h
  exact ⟨le64_lt _ _, le64_lt _ _, le64_lt _ _⟩

/-- The stores for a segment have its bytes, and no others. -/
theorem loadSegment_byteAt {ph : Phdr} {stores : List Store} (hph : ph.Words)
    (h : loadSegment read fileOff memBase memSize ph = some stores) (x : Nat) (b : UInt8) :
    (∃ st ∈ stores, st.byteAt x = some b) ↔
      ∃ i, i < ph.span ∧ x = u64 (ph.paddr + i) ∧ b = ph.byte read fileOff i := by
  obtain ⟨hpaddr, hfilesz, hmemsz⟩ := hph
  rw [loadSegment] at h
  by_cases hrange : ph.InRange memBase memSize
  swap
  · rw [if_pos hrange] at h
    cases h
  rw [if_neg (not_not.mpr hrange)] at h
  obtain ⟨bytes, hbytes, rfl⟩ := Option.map_eq_some_iff.mp h
  have hoff : u64 (fileOff + ph.offset) < 18446744073709551616 := Nat.mod_lt _ (by decide)
  have hbytes := diskReadBytes_some hoff hbytes
  have hlen : bytes.length = ph.filesz := by
    rw [hbytes, List.length_map, List.length_range]
  have hget : ∀ i, i < ph.filesz → bytes[i]? = some (ph.byte read fileOff i) := by
    intro i hi
    rw [hbytes, Phdr.byte, if_pos hi]
    simp [hi]
  have hzero : u64 (ph.paddr + ph.filesz) < 18446744073709551616 := Nat.mod_lt _ (by decide)
  have hwrap : ∀ i, u64 (u64 (ph.paddr + ph.filesz) + i) = u64 (ph.paddr + (ph.filesz + i)) := by
    intro i
    rw [u64, u64, u64, Nat.mod_add_mod, Nat.add_assoc]
  constructor
  · rintro ⟨st, hst, hbyte⟩
    rcases List.mem_cons.mp hst with rfl | hst
    · obtain ⟨i, hi, hx, hb⟩ := Store.byteAt_some hpaddr hbyte
      rw [hlen] at hi
      rw [hget i hi] at hb
      exact ⟨i, Nat.lt_of_lt_of_le hi (Nat.le_max_left ..), hx, (Option.some.inj hb).symm⟩
    · by_cases hbss : ph.filesz < ph.memsz
      · rw [if_pos hbss] at hst
        obtain rfl := List.mem_singleton.mp hst
        obtain ⟨i, hi, hx, hb⟩ := Store.byteAt_some hzero hbyte
        rw [List.length_replicate] at hi
        rw [List.getElem?_replicate, if_pos hi] at hb
        refine ⟨ph.filesz + i, ?_, hx.trans (hwrap i), ?_⟩
        · simp only [Phdr.span]
          omega
        · rw [Phdr.byte, if_neg (by omega)]
          exact (Option.some.inj hb).symm
      · rw [if_neg hbss] at hst
        cases hst
  · rintro ⟨i, hi, rfl, rfl⟩
    simp only [Phdr.span] at hi
    by_cases hfile : i < ph.filesz
    · refine ⟨_, List.mem_cons_self, ?_⟩
      rw [Store.byteAt_add hpaddr (by simp only [hlen]; omega) (by simp only [hlen]; exact hfile)]
      exact hget i hfile
    · have hbss : ph.filesz < ph.memsz := by omega
      refine ⟨⟨u64 (ph.paddr + ph.filesz), List.replicate (ph.memsz - ph.filesz) 0⟩, ?_, ?_⟩
      · rw [if_pos hbss]
        exact List.mem_cons_of_mem _ List.mem_cons_self
      · have hplace : ph.paddr + i = ph.paddr + (ph.filesz + (i - ph.filesz)) := by omega
        rw [hplace, ← hwrap, Store.byteAt_add hzero (by simp only [List.length_replicate]; omega)
          (by simp only [List.length_replicate]; omega), List.getElem?_replicate,
          if_pos (by omega), Phdr.byte, if_neg hfile]

end Segments

section Loop

/-- What is known of the segments behind the loop of `load_elf`. -/
structure SegmentsLoaded (read : Nat → Option Sector) (fileOff : Nat) (phs : List Phdr)
    (kernelEnd : Nat) (stores : List Store) : Prop where
  words : ∀ ph ∈ phs, ph.Words
  memEnd_le : ∀ ph ∈ phs, ph.memEnd ≤ kernelEnd
  bytes : ∀ x b, (∃ st ∈ stores, st.byteAt x = some b) ↔
    ∃ ph ∈ phs, ∃ i, i < ph.span ∧ x = u64 (ph.paddr + i) ∧ b = ph.byte read fileOff i

theorem SegmentsLoaded.append {phs : List Phdr} {ph : Phdr} {kernelEnd : Nat}
    {out stores : List Store} (h : SegmentsLoaded read fileOff phs kernelEnd out) (hph : ph.Words)
    (hload : loadSegment read fileOff memBase memSize ph = some stores) :
    SegmentsLoaded read fileOff (phs ++ [ph])
      (if kernelEnd < ph.memEnd then ph.memEnd else kernelEnd) (out ++ stores) := by
  refine ⟨fun q hq => ?_, fun q hq => ?_, fun x b => ?_⟩
  · rcases List.mem_append.mp hq with hq | hq
    · exact h.words q hq
    · obtain rfl := List.mem_singleton.mp hq
      exact hph
  · rcases List.mem_append.mp hq with hq | hq
    · have hle := h.memEnd_le q hq
      split <;> omega
    · obtain rfl := List.mem_singleton.mp hq
      split <;> omega
  · have hold := h.bytes x b
    have hnew := loadSegment_byteAt hph hload x b
    constructor
    · rintro ⟨st, hst, hbyte⟩
      rcases List.mem_append.mp hst with hst | hst
      · obtain ⟨q, hq, hrest⟩ := hold.mp ⟨st, hst, hbyte⟩
        exact ⟨q, List.mem_append_left _ hq, hrest⟩
      · exact ⟨ph, List.mem_append_right _ List.mem_cons_self, hnew.mp ⟨st, hst, hbyte⟩⟩
    · rintro ⟨q, hq, hrest⟩
      rcases List.mem_append.mp hq with hq | hq
      · obtain ⟨st, hst, hbyte⟩ := hold.mpr ⟨q, hq, hrest⟩
        exact ⟨st, List.mem_append_left _ hst, hbyte⟩
      · obtain rfl := List.mem_singleton.mp hq
        obtain ⟨st, hst, hbyte⟩ := hnew.mpr hrest
        exact ⟨st, List.mem_append_right _ hst, hbyte⟩

/-- Each pass of the loop adds the segment of its header. -/
theorem loadSegments_loaded {phoff : Nat} (left : Nat) :
    ∀ {i kernelEnd : Nat} {out : List Store} {phs : List Phdr} {r : Nat × List Store},
      SegmentsLoaded read fileOff phs kernelEnd out →
      loadSegments read fileOff memBase memSize phoff left i kernelEnd out = some r →
      SegmentsLoaded read fileOff (phs ++ loadedPhdrs read fileOff phoff left i) r.1 r.2 := by
  induction left with
  | zero =>
      intro i kernelEnd out phs r h hrun
      obtain rfl := Option.some.inj hrun
      rw [loadedPhdrs, List.append_nil]
      exact h
  | succ left ih =>
      intro i kernelEnd out phs r h hrun
      obtain ⟨ph, hph, hrun⟩ := Option.bind_eq_some_iff.mp hrun
      rw [loadedPhdrs, hph, ← List.append_assoc, Option.toList_some]
      by_cases htype : ph.type = ptLoad
      · rw [if_neg (not_not.mpr htype)] at hrun
        obtain ⟨stores, hstores, hrun⟩ := Option.bind_eq_some_iff.mp hrun
        rw [List.filter_cons_of_pos (by simpa using htype), List.filter_nil]
        exact ih (h.append (readPhdr_words hph) hstores) hrun
      · rw [if_pos htype] at hrun
        rw [List.filter_cons_of_neg (by simpa using htype), List.filter_nil, List.append_nil]
        exact ih h hrun

theorem loadElf_loaded {r : Nat × Nat × List Store}
    (h : loadElf read hdr.kernelOffset hdr.kernelSize memBase memSize = some r) :
    SegmentsLoaded read hdr.kernelOffset (hdr.segments read) r.2.1 r.2.2 := by
  rw [loadElf] at h
  by_cases hsmall : hdr.kernelSize < ehdrSize
  · rw [if_pos hsmall] at h
    cases h
  rw [if_neg hsmall] at h
  obtain ⟨eh, heh, h⟩ := Option.bind_eq_some_iff.mp h
  by_cases hrec : eh.Recognised
  swap
  · rw [if_pos hrec] at h
    cases h
  rw [if_neg (not_not.mpr hrec)] at h
  obtain ⟨q, hq, rfl⟩ := Option.map_eq_some_iff.mp h
  have hempty : SegmentsLoaded read hdr.kernelOffset [] 0 [] := by
    refine ⟨fun _ hph => (by cases hph), fun _ hph => (by cases hph), fun x b => ?_⟩
    constructor
    · rintro ⟨_, hst, _⟩
      cases hst
    · rintro ⟨_, hph, _⟩
      cases hph
  rw [ImageHeader.segments, heh]
  exact loadSegments_loaded eh.phnum hempty hq

end Loop

section Initrd

/-- Where the initrd belongs: at the last page border that leaves room for it. -/
def initrdBase (memBase memSize size : Nat) : Nat :=
  (memBase + memSize - (size + 4095) / 4096 * 4096) / 4096 * 4096

/-- There is room for an initrd between the start and the end of memory. -/
def InitrdRoom (memBase memSize size : Nat) : Prop :=
  (size + 4095) / 4096 * 4096 ≤ memBase + memSize ∧ memBase ≤ initrdBase memBase memSize size

instance (memBase memSize size : Nat) : Decidable (InitrdRoom memBase memSize size) :=
  inferInstanceAs (Decidable (_ ∧ _))

variable {kernelEnd size paddr : Nat}

theorem placeInitrd_some (h : placeInitrd memBase memSize kernelEnd size = some paddr)
    (hsize : size ≠ 0) :
    paddr = u64 (memBase + memSize + (18446744073709551616 - roundUpPage size)) / 4096 * 4096 ∧
      kernelEnd < paddr := by
  rw [placeInitrd, if_neg hsize] at h
  by_cases hmem : memSize = 0
  · rw [if_pos hmem] at h
    cases h
  rw [if_neg hmem] at h
  dsimp only at h
  split at h
  · cases h
  · rename_i hle
    obtain rfl := Option.some.inj h
    exact ⟨rfl, Nat.lt_of_not_le hle⟩

/-- All bytes of the initrd are in memory exactly when there is room for it. -/
theorem placeInitrd_inside_iff (hmem : memBase + memSize < 18446744073709551616)
    (hword : size < 18446744073709551616) (hsize : size ≠ 0)
    (h : placeInitrd memBase memSize kernelEnd size = some paddr) :
    (∀ j, j < size → memBase ≤ u64 (paddr + j) ∧ u64 (paddr + j) < memBase + memSize) ↔
      InitrdRoom memBase memSize size := by
  obtain ⟨hpaddr, _⟩ := placeInitrd_some h hsize
  simp only [roundUpPage, u64] at hpaddr
  constructor
  · intro hin
    have hfirst := hin 0 (Nat.pos_of_ne_zero hsize)
    have hend := hin (memBase + memSize - paddr)
    simp only [u64, InitrdRoom, initrdBase] at hfirst hend ⊢
    -- a size that wraps when it is rounded puts the initrd at the end of memory
    by_cases hwrap : size + 4095 < 18446744073709551616
    · omega
    · omega
  · rintro ⟨hroom, hbase⟩ j hj
    simp only [u64, initrdBase] at hbase ⊢
    omega

/-- A difference as the code computes it. -/
theorem u64_add_neg {a e : Nat} (h : a ≤ e) (he : e < 18446744073709551616) :
    u64 (e + (18446744073709551616 - a)) = e - a := by
  simp only [u64]
  omega

theorem placeInitrd_eq (hmem : memBase + memSize < 18446744073709551616)
    (hword : size < 18446744073709551616) (hsize : size ≠ 0)
    (h : placeInitrd memBase memSize kernelEnd size = some paddr)
    (hroom : InitrdRoom memBase memSize size) : paddr = initrdBase memBase memSize size := by
  obtain ⟨hpaddr, _⟩ := placeInitrd_some h hsize
  have hround : roundUpPage size = (size + 4095) / 4096 * 4096 := by
    have hle := hroom.1
    rw [roundUpPage, u64_of_lt (by omega)]
  rw [hpaddr, hround, u64_add_neg hroom.1 hmem, initrdBase]

end Initrd

section Safe

/-- What is asked of the loader: it stores inside memory only, every segment is found in
memory as it is in the file, and the initrd lies apart from the segments. -/
structure Loaded.Safe (read : Nat → Option Sector) (hdr : ImageHeader) (memBase memSize : Nat)
    (r : Loaded) : Prop where
  inside : ∀ st ∈ r.stores, ∀ x b, st.byteAt x = some b → memBase ≤ x ∧ x < memBase + memSize
  segment : ∀ ph ∈ hdr.segments read, ∀ m i, i < ph.span →
    runStores m r.stores (u64 (ph.paddr + i)) = ph.byte read hdr.kernelOffset i
  apart : ∀ ph ∈ hdr.segments read, ∀ i, i < ph.span → ∀ j, j < hdr.initrdSize →
    u64 (ph.paddr + i) ≠ u64 (r.initrdPaddr + j)

/-- The image is one that the loader can be trusted with: its segments lie in memory with all
their bytes, agree where they overlap, and have no file bytes where the initrd belongs, and
there is room for the initrd. -/
structure ImageHeader.Tame (read : Nat → Option Sector) (memBase memSize : Nat)
    (hdr : ImageHeader) : Prop where
  fits : ∀ ph ∈ hdr.segments read, ph.span = 0 ∨
    (memBase ≤ ph.paddr ∧ ph.paddr + ph.span ≤ memBase + memSize)
  agree : ∀ ph ∈ hdr.segments read, ∀ ph' ∈ hdr.segments read, ∀ i j, i < ph.span → j < ph'.span →
    ph.paddr + i = ph'.paddr + j →
      ph.byte read hdr.kernelOffset i = ph'.byte read hdr.kernelOffset j
  room : hdr.initrdSize ≠ 0 → InitrdRoom memBase memSize hdr.initrdSize
  front : hdr.initrdSize ≠ 0 → ∀ ph ∈ hdr.segments read, ph.filesz = 0 ∨
    ph.paddr + ph.filesz ≤ initrdBase memBase memSize hdr.initrdSize

/-- The parts of a run of the loader. -/
structure LoadParts (read : Nat → Option Sector) (hdr : ImageHeader) (memBase memSize : Nat)
    (r : Loaded) (segs initrd : List Store) : Prop where
  stores : r.stores = segs ++ initrd
  loaded : SegmentsLoaded read hdr.kernelOffset (hdr.segments read) r.kernelEnd segs
  place : placeInitrd memBase memSize r.kernelEnd hdr.initrdSize = some r.initrdPaddr
  bytes : ∀ x, (∃ st ∈ initrd, ∃ b, st.byteAt x = some b) ↔
    ∃ j, j < hdr.initrdSize ∧ x = u64 (r.initrdPaddr + j)

theorem placeInitrd_lt {kernelEnd size paddr : Nat}
    (h : placeInitrd memBase memSize kernelEnd size = some paddr) :
    paddr < 18446744073709551616 := by
  by_cases hsize : size = 0
  · rw [placeInitrd, if_pos hsize] at h
    obtain rfl := Option.some.inj h
    decide
  · rw [(placeInitrd_some h hsize).1, u64]
    omega

theorem load_parts {r : Loaded} (hhdr : readImageHeader read = some hdr)
    (h : load read hdr memBase memSize = some r) :
    ∃ segs initrd, LoadParts read hdr memBase memSize r segs initrd := by
  obtain ⟨bytes, _, rfl⟩ := Option.map_eq_some_iff.mp hhdr
  generalize hhdr : ImageHeader.ofBytes (fun i => bytes.getD i 0) = hdr at h ⊢
  have hword : hdr.initrdSize < 18446744073709551616 ∧ hdr.initrdOffset < 18446744073709551616 := by
    rw [← hhdr]
    exact ⟨le64_lt _ _, le64_lt _ _⟩
  obtain ⟨⟨entry, kernelEnd, segs⟩, helf, h⟩ := Option.bind_eq_some_iff.mp h
  obtain ⟨⟨paddr, initrd⟩, hinitrd, rfl⟩ := Option.map_eq_some_iff.mp h
  obtain ⟨paddr', hplace, hinitrd⟩ := Option.bind_eq_some_iff.mp hinitrd
  have hpaddr := placeInitrd_lt hplace
  refine ⟨segs, initrd, ?_⟩
  by_cases hsize : hdr.initrdSize = 0
  · rw [if_pos hsize] at hinitrd
    obtain ⟨rfl, rfl⟩ := Prod.mk.inj (Option.some.inj hinitrd)
    refine ⟨rfl, loadElf_loaded helf, hplace, fun x => ⟨?_, ?_⟩⟩
    · rintro ⟨_, hst, _⟩
      cases hst
    · rintro ⟨j, hj, _⟩
      rw [hsize] at hj
      cases hj
  · rw [if_neg hsize] at hinitrd
    obtain ⟨data, hdata, heq⟩ := Option.map_eq_some_iff.mp hinitrd
    obtain ⟨rfl, rfl⟩ := Prod.mk.inj heq
    have hlen : data.length = hdr.initrdSize := by
      rw [diskReadBytes_some hword.2 hdata, List.length_map, List.length_range]
    refine ⟨rfl, loadElf_loaded helf, hplace, fun x => ⟨?_, ?_⟩⟩
    · rintro ⟨st, hst, b, hb⟩
      obtain rfl := List.mem_singleton.mp hst
      obtain ⟨j, hj, hx, _⟩ := Store.byteAt_some hpaddr hb
      rw [hlen] at hj
      exact ⟨j, hj, hx⟩
    · rintro ⟨j, hj, rfl⟩
      have hj' : j < data.length := by rwa [hlen]
      refine ⟨_, List.mem_cons_self, data.get ⟨j, hj'⟩, ?_⟩
      rw [Store.byteAt_add hpaddr (by simp only [hlen]; omega) hj']
      exact List.getElem?_eq_getElem hj'

namespace LoadParts

variable {r : Loaded} {segs initrd : List Store}
  (h : LoadParts read hdr memBase memSize r segs initrd)
include h

theorem segment_mem {ph : Phdr} (hph : ph ∈ hdr.segments read) {i : Nat} (hi : i < ph.span) :
    ∃ st ∈ r.stores, st.byteAt (u64 (ph.paddr + i)) = some (ph.byte read hdr.kernelOffset i) := by
  obtain ⟨st, hst, hbyte⟩ := (h.loaded.bytes _ _).mpr ⟨ph, hph, i, hi, rfl, rfl⟩
  refine ⟨st, ?_, hbyte⟩
  rw [h.stores]
  exact List.mem_append_left _ hst

theorem initrd_mem {j : Nat} (hj : j < hdr.initrdSize) :
    ∃ st ∈ r.stores, ∃ b, st.byteAt (u64 (r.initrdPaddr + j)) = some b := by
  obtain ⟨st, hst, hbyte⟩ := (h.bytes _).mpr ⟨j, hj, rfl⟩
  refine ⟨st, ?_, hbyte⟩
  rw [h.stores]
  exact List.mem_append_right _ hst

/-- A store is for a segment or for the initrd. -/
theorem cases_mem {st : Store} (hst : st ∈ r.stores) {x : Nat} {b : UInt8}
    (hb : st.byteAt x = some b) :
    (∃ ph ∈ hdr.segments read, ∃ i, i < ph.span ∧ x = u64 (ph.paddr + i) ∧
      b = ph.byte read hdr.kernelOffset i) ∨
    ∃ j, j < hdr.initrdSize ∧ x = u64 (r.initrdPaddr + j) := by
  rw [h.stores] at hst
  rcases List.mem_append.mp hst with hst | hst
  · exact Or.inl ((h.loaded.bytes x b).mp ⟨st, hst, hb⟩)
  · exact Or.inr ((h.bytes x).mp ⟨st, hst, b, hb⟩)

/-- The condition is needed. -/
theorem tame (hmem : memBase + memSize < 18446744073709551616)
    (hword : hdr.initrdSize < 18446744073709551616) (hsafe : r.Safe read hdr memBase memSize) :
    hdr.Tame read memBase memSize := by
  have hin : ∀ ph ∈ hdr.segments read, ∀ i, i < ph.span →
      memBase ≤ u64 (ph.paddr + i) ∧ u64 (ph.paddr + i) < memBase + memSize := by
    intro ph hph i hi
    obtain ⟨st, hst, hb⟩ := h.segment_mem hph hi
    exact hsafe.inside st hst _ _ hb
  have hfits : ∀ ph ∈ hdr.segments read, ph.span = 0 ∨
      (memBase ≤ ph.paddr ∧ ph.paddr + ph.span ≤ memBase + memSize) := by
    intro ph hph
    have hpaddr := (h.loaded.words ph hph).paddr
    have hfirst := hin ph hph 0
    have hend := hin ph hph (memBase + memSize - ph.paddr)
    simp only [u64] at hfirst hend
    omega
  have hroom : hdr.initrdSize ≠ 0 → InitrdRoom memBase memSize hdr.initrdSize := by
    intro hsize
    apply (placeInitrd_inside_iff hmem hword hsize h.place).mp
    intro j hj
    obtain ⟨st, hst, b, hb⟩ := h.initrd_mem hj
    exact hsafe.inside st hst _ _ hb
  refine ⟨hfits, fun ph hph ph' hph' i j hi hj hij => ?_, hroom, fun hsize ph hph => ?_⟩
  · rw [← hsafe.segment ph hph (fun _ => 0) i hi, hij]
    exact hsafe.segment ph' hph' (fun _ => 0) j hj
  · have hplace := placeInitrd_eq hmem hword hsize h.place (hroom hsize)
    have hbehind := (placeInitrd_some h.place hsize).2
    have hmemEnd := h.loaded.memEnd_le ph hph
    have hapart := fun i hi => hsafe.apart ph hph i hi 0 (Nat.pos_of_ne_zero hsize)
    have hoverlap := hapart (r.initrdPaddr - ph.paddr)
    rw [← hplace]
    have hfit := hfits ph hph
    simp only [Phdr.span, Phdr.memEnd, u64] at hfit hmemEnd hoverlap
    omega

/-- The condition is enough. -/
theorem safe (hmem : memBase + memSize < 18446744073709551616)
    (hword : hdr.initrdSize < 18446744073709551616) (htame : hdr.Tame read memBase memSize) :
    r.Safe read hdr memBase memSize := by
  have hplain : ∀ ph ∈ hdr.segments read, ∀ i, i < ph.span → u64 (ph.paddr + i) = ph.paddr + i := by
    intro ph hph i hi
    have hfit := htame.fits ph hph
    exact u64_of_lt (by omega)
  have hapart : ∀ ph ∈ hdr.segments read, ∀ i, i < ph.span → ∀ j, j < hdr.initrdSize →
      u64 (ph.paddr + i) ≠ u64 (r.initrdPaddr + j) := by
    intro ph hph i hi j hj
    have hsize : hdr.initrdSize ≠ 0 := by omega
    have hroom := htame.room hsize
    have hplace := placeInitrd_eq hmem hword hsize h.place hroom
    have hbehind := (placeInitrd_some h.place hsize).2
    have hmemEnd := h.loaded.memEnd_le ph hph
    have hfit := htame.fits ph hph
    have hfront := htame.front hsize ph hph
    have hin := (placeInitrd_inside_iff hmem hword hsize h.place).mpr hroom
    have hwrap : u64 (r.initrdPaddr + j) = r.initrdPaddr + j := by
      obtain ⟨hroom, hbase⟩ := hroom
      simp only [initrdBase] at hplace hbase
      exact u64_of_lt (by omega)
    rw [hplain ph hph i hi, hwrap]
    rw [← hplace] at hfront
    simp only [Phdr.span, Phdr.memEnd, u64] at hi hfit hmemEnd
    omega
  refine ⟨fun st hst x b hb => ?_, fun ph hph m i hi => ?_, hapart⟩
  · rcases h.cases_mem hst hb with ⟨ph, hph, i, hi, rfl, _⟩ | ⟨j, hj, rfl⟩
    · have hfit := htame.fits ph hph
      rw [hplain ph hph i hi]
      omega
    · have hsize : hdr.initrdSize ≠ 0 := by omega
      exact (placeInitrd_inside_iff hmem hword hsize h.place).mpr (htame.room hsize) j hj
  · apply Writes.run_of_agree
    · intro w hw
      obtain ⟨st, hst, rfl⟩ := List.mem_map.mp hw
      cases hb : st.byteAt (u64 (ph.paddr + i)) with
      | none => exact Or.inl rfl
      | some b =>
          right
          rcases h.cases_mem hst hb with ⟨ph', hph', j, hj, heq, rfl⟩ | ⟨j, hj, heq⟩
          · rw [hplain ph hph i hi, hplain ph' hph' j hj] at heq
            rw [htame.agree ph hph ph' hph' i j hi hj heq]
          · exact absurd heq (hapart ph hph i hi j hj)
    · obtain ⟨st, hst, hb⟩ := h.segment_mem hph hi
      exact Or.inr ⟨_, List.mem_map_of_mem hst, hb⟩

end LoadParts

/-- A disk with a kernel of one segment, whose only file byte belongs at `paddr`, and with an
initrd of zeros. -/
def oneByteDisk (paddr memsz initrdSize s : Nat) : Option Sector :=
  let file := packed [(8, imageMagic), (4, imageVersion), (4, headerSize), (8, headerSize),
      (8, 121), (8, sectorSize), (8, initrdSize), (8, 0), (8, 0)] ++
    packed [(4, 0x464c457f), (12, 0x10102), (2, 2), (2, emRiscv), (4, 1), (8, 0x80200000),
      (8, ehdrSize), (8, 0), (4, 0), (2, ehdrSize), (2, phdrSize), (2, 1), (6, 0)] ++
    packed [(4, ptLoad), (4, 7), (8, 120), (8, 0), (8, paddr), (8, 1), (8, memsz), (8, 4096)] ++
    [0xab]
  some fun j => fileBytes file (512 * s + j)

/-- The header of that disk. -/
def oneByteHeader (initrdSize : Nat) : ImageHeader :=
  ⟨imageMagic, imageVersion, headerSize, headerSize, 121, sectorSize, initrdSize, 0⟩

end Safe

end Firmware

end OsAgentLab
