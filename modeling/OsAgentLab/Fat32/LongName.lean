/-
Long names: what `fat32_fill_lfn_entry` spreads over a run of slots is put
together again by `fat32_lfn_write`, last slot first.
-/
import OsAgentLab.Fat32.Listing
import OsAgentLab.Fat32.Entry

namespace OsAgentLab

/-- A statement about bytes holds if it holds for the 256 numbers. -/
theorem forall_byte {p : UInt8 → Prop} (h : ∀ n : Fin 256, p (UInt8.ofNat n.val)) (c : UInt8) :
    p c := by
  have hc := h ⟨c.toNat, c.toNat_lt⟩
  simpa using hc

/-- The characters of a C string of at most 255 characters. -/
structure LongNameOk (name : CName) : Prop where
  ne_nil : name ≠ []
  length_le : name.length ≤ 255
  no_zero : ∀ ch ∈ name, ch ≠ 0

section Fill

theorem byteOf_zero_of_toNat (ch : UInt8) : byteOf ch.toNat 0 = ch := by
  simp [byteOf]

/-- The unit that the slot with the base `base` holds at position `i`. -/
theorem lfnUnit_fill (name : CName) (ord checksum : UInt8) {i : Nat} (hi : i < 13) :
    (fat32FillLfnEntry name ord checksum).lfnUnit i =
      fat32LfnChar name (u64 (lfnBase ord + i)) % 65536 := by
  have hbytes : ∀ n : Nat, (byteOf n 0).toNat + (byteOf n 1).toNat * 256 = n % 65536 := by
    intro n
    simp only [byteOf_toNat]
    omega
  simp only [RawDirent.lfnUnit, hi, ↓reduceDIte, RawDirent.lfnOffset]
  by_cases h5 : i < 5
  · simp only [h5, ↓reduceIte, fat32FillLfnEntry]
    rw [if_neg (by omega), if_neg (by omega), if_neg (by omega), if_pos (by omega),
      if_neg (by omega), if_neg (by omega), if_neg (by omega), if_pos (by omega)]
    rw [show (1 + 2 * i - 1) / 2 = i by omega, show (1 + 2 * i - 1) % 2 = 0 by omega,
      show (1 + 2 * i + 1 - 1) / 2 = i by omega, show (1 + 2 * i + 1 - 1) % 2 = 1 by omega]
    exact hbytes _
  · by_cases h11 : i < 11
    · simp only [h5, h11, ↓reduceIte, fat32FillLfnEntry]
      rw [if_neg (by omega), if_neg (by omega), if_neg (by omega), if_neg (by omega),
        if_pos (by omega), if_neg (by omega), if_neg (by omega), if_neg (by omega),
        if_neg (by omega), if_pos (by omega)]
      rw [show 5 + (14 + 2 * (i - 5) - 14) / 2 = i by omega,
        show (14 + 2 * (i - 5) - 14) % 2 = 0 by omega,
        show 5 + (14 + 2 * (i - 5) + 1 - 14) / 2 = i by omega,
        show (14 + 2 * (i - 5) + 1 - 14) % 2 = 1 by omega]
      exact hbytes _
    · simp only [h5, h11, ↓reduceIte, fat32FillLfnEntry]
      rw [if_neg (by omega), if_neg (by omega), if_neg (by omega), if_neg (by omega),
        if_neg (by omega), if_pos (by omega), if_neg (by omega), if_neg (by omega),
        if_neg (by omega), if_neg (by omega), if_neg (by omega), if_pos (by omega)]
      rw [show 11 + (28 + 2 * (i - 11) - 28) / 2 = i by omega,
        show (28 + 2 * (i - 11) - 28) % 2 = 0 by omega,
        show 11 + (28 + 2 * (i - 11) + 1 - 28) / 2 = i by omega,
        show (28 + 2 * (i - 11) + 1 - 28) % 2 = 1 by omega]
      exact hbytes _

/-- What `fat32_lfn_write` stores for the character at `pos` of the name. -/
def storedChar (name : CName) (pos : Nat) : UInt8 := name.getD pos 0

theorem storedChar_eq {name : CName} (h : ∀ ch ∈ name, ch ≠ 0) (pos : Nat) :
    (if fat32LfnChar name pos % 65536 = 0x0000 ∨ fat32LfnChar name pos % 65536 = 0xFFFF then 0
      else byteOf (fat32LfnChar name pos % 65536) 0) = storedChar name pos := by
  by_cases hpos : pos < name.length
  · have hne := h _ (List.getElem_mem hpos)
    have hlt := name[pos].toNat_lt
    have hzero : name[pos].toNat ≠ 0 := by
      intro hz
      exact hne (UInt8.toNat_inj.mp (by rw [hz]; rfl))
    have hchar : fat32LfnChar name pos = name[pos].toNat := by rw [fat32LfnChar, dif_pos hpos]
    rw [hchar, Nat.mod_eq_of_lt (by omega), if_neg (by omega), byteOf_zero_of_toNat, storedChar,
      List.getD_eq_getElem _ _ hpos]
  · rw [storedChar, List.getD_eq_default _ _ (Nat.le_of_not_lt hpos)]
    have hchar : fat32LfnChar name pos = 0x0000 ∨ fat32LfnChar name pos = 0xFFFF := by
      rw [fat32LfnChar, dif_neg hpos]
      by_cases heq : pos = name.length
      · exact Or.inl (if_pos heq)
      · exact Or.inr (if_neg heq)
    rw [if_pos]
    rcases hchar with hchar | hchar <;> rw [hchar]
    · exact Or.inl rfl
    · exact Or.inr rfl

theorem fat32LfnWriteLoop_succ (raw : RawDirent) (base count i : Nat) (lfn : LfnBuf) :
    fat32LfnWriteLoop raw base (count + 1) i lfn =
      if 255 ≤ u64 (base + i) then lfn
      else fat32LfnWriteLoop raw base count (i + 1) fun k =>
        if k = u64 (base + i) then
          if raw.lfnUnit i = 0x0000 ∨ raw.lfnUnit i = 0xFFFF then 0
          else byteOf (raw.lfnUnit i) 0
        else lfn k := rfl

/-- The copying loop of `fat32_lfn_write`, byte by byte. -/
theorem fat32LfnWriteLoop_eq (raw : RawDirent) {base : Nat} (hbase : base + 13 < 65536)
    (count i : Nat) (hcount : i + count ≤ 13) (lfn : LfnBuf) (k : Nat) :
    fat32LfnWriteLoop raw base count i lfn k =
      if base + i ≤ k ∧ k < base + i + count ∧ k < 255 then
        (if raw.lfnUnit (k - base) = 0x0000 ∨ raw.lfnUnit (k - base) = 0xFFFF then 0
          else byteOf (raw.lfnUnit (k - base)) 0)
      else lfn k := by
  induction count generalizing i lfn with
  | zero =>
      rw [fat32LfnWriteLoop, if_neg (by omega)]
  | succ count ih =>
      have hpos : u64 (base + i) = base + i := u64_of_lt (by omega)
      rw [fat32LfnWriteLoop_succ, hpos]
      by_cases hstop : 255 ≤ base + i
      · have hout : ¬ (base + i ≤ k ∧ k < base + i + (count + 1) ∧ k < 255) := by omega
        rw [if_pos hstop, if_neg hout]
      · rw [if_neg hstop, ih (i + 1) (by omega)]
        by_cases hk : k = base + i
        · have hout : ¬ (base + (i + 1) ≤ k ∧ k < base + (i + 1) + count ∧ k < 255) := by omega
          have hin : base + i ≤ k ∧ k < base + i + (count + 1) ∧ k < 255 := by omega
          rw [if_neg hout, if_pos hin, if_pos hk, show k - base = i by omega]
        · by_cases hin : base + (i + 1) ≤ k ∧ k < base + (i + 1) + count ∧ k < 255
          · have hin' : base + i ≤ k ∧ k < base + i + (count + 1) ∧ k < 255 := by omega
            rw [if_pos hin, if_pos hin']
          · have hout : ¬ (base + i ≤ k ∧ k < base + i + (count + 1) ∧ k < 255) := by omega
            rw [if_neg hin, if_neg hk, if_neg hout]

theorem fill_ord (name : CName) (ord checksum : UInt8) :
    (fat32FillLfnEntry name ord checksum).ord = ord := by
  simp [RawDirent.ord, fat32FillLfnEntry]

/-- One slot of a name restores 13 characters. -/
theorem fat32LfnWrite_fill {name : CName} (h : ∀ ch ∈ name, ch ≠ 0) {ord : UInt8} {base : Nat}
    (hord : lfnBase ord = base) (hbase : base + 13 < 65536) (checksum : UInt8) (lfn : LfnBuf)
    (k : Nat) :
    fat32LfnWrite lfn (fat32FillLfnEntry name ord checksum) k =
      if base ≤ k ∧ k < base + 13 ∧ k < 255 then storedChar name k else lfn k := by
  have hloop : fat32LfnWrite lfn (fat32FillLfnEntry name ord checksum) k =
      fat32LfnWriteLoop (fat32FillLfnEntry name ord checksum) base 13 0 lfn k := by
    rw [fat32LfnWrite, fill_ord, hord]
  rw [hloop, fat32LfnWriteLoop_eq _ hbase 13 0 (by omega), Nat.add_zero]
  by_cases hk : base ≤ k ∧ k < base + 13 ∧ k < 255
  · have hunit := lfnUnit_fill name ord checksum (i := k - base) (by omega)
    rw [hord, show base + (k - base) = k by omega, u64_of_lt (by omega)] at hunit
    rw [if_pos hk, if_pos hk, hunit, storedChar_eq h]
  · rw [if_neg hk, if_neg hk]

end Fill

section Run

/-- The run of `count` long-name slots that `fat32_create_entry` writes. -/
def lfnRun (name : CName) (count : Nat) (checksum : UInt8) : List RawDirent :=
  (List.range count).map fun i => fat32FillLfnEntry name (lfnOrd count i) checksum

theorem lfnRun_length (name : CName) (count : Nat) (checksum : UInt8) :
    (lfnRun name count checksum).length = count := by
  simp [lfnRun]

/-- Slots needed for a name. -/
def lfnSlots (name : CName) : Nat := (name.length + 12) / 13

theorem lfnOrd_base : ∀ n, n < 21 → ∀ i, i < n → lfnBase (lfnOrd n i) = 13 * (n - i - 1) := by
  decide +kernel

theorem lfnOrd_last : ∀ n, n < 64 → 0 < n → lfnOrd n 0 &&& 0x40 ≠ 0 := by
  decide +kernel

theorem lfnOrd_inner : ∀ n, n < 64 → ∀ i, i < n → 0 < i → lfnOrd n i &&& 0x40 = 0 := by
  decide +kernel

theorem lfnOrd_used : ∀ n, n < 21 → ∀ i, i < n → lfnOrd n i ≠ 0 ∧ lfnOrd n i ≠ 0xE5 := by
  decide +kernel

theorem fill_isLiveLfn (name : CName) {ord : UInt8} (checksum : UInt8) (h0 : ord ≠ 0) (h1 : ord ≠ 0xE5) :
    (fat32FillLfnEntry name ord checksum).isLiveLfn = true := by
  have hfirst : fat32FillLfnEntry name ord checksum 0 = ord := by simp [fat32FillLfnEntry]
  have hattr : fat32FillLfnEntry name ord checksum 11 = 0x0F := by simp [fat32FillLfnEntry]
  simp [RawDirent.isLiveLfn, RawDirent.isEnd, RawDirent.isDeleted, RawDirent.isLfn,
    RawDirent.attr, hfirst, hattr, h0, h1]

theorem lfnRun_live {name : CName} {count : Nat} (hcount : count < 21) (checksum : UInt8) :
    ∀ raw ∈ lfnRun name count checksum, raw.isLiveLfn = true := by
  intro raw hraw
  simp only [lfnRun, List.mem_map, List.mem_range] at hraw
  obtain ⟨i, hi, rfl⟩ := hraw
  obtain ⟨h0, h1⟩ := lfnOrd_used count hcount i hi
  exact fill_isLiveLfn name checksum h0 h1

theorem RawDirent.isLiveLfn_iff {raw : RawDirent} : raw.isLiveLfn = true ↔
    raw.isEnd = false ∧ raw.isDeleted = false ∧ raw.isLfn = true := by
  simp [RawDirent.isLiveLfn, and_assoc]

/-- What the decoder holds after `done` of the `count` slots of a name. -/
def collected (name : CName) (checksum : UInt8) (count done : Nat) : LfnState where
  lfn k := if 13 * (count - done) ≤ k ∧ k < 13 * count ∧ k < 255 then storedChar name k else 0
  checksum := checksum
  valid := true
  count := done

/-- The decoder collects the slots of a name one after the other. -/
theorem afterAll_lfnRun {name : CName} (h : ∀ ch ∈ name, ch ≠ 0) {count : Nat}
    (hcount : count < 21) (checksum : UInt8) (st : LfnState) {done : Nat} (hpos : 0 < done)
    (hdone : done ≤ count) :
    st.afterAll ((List.range done).map fun i =>
        fat32FillLfnEntry name (lfnOrd count i) checksum) =
      collected name checksum count done := by
  have hstep : ∀ i, i < count →
      let raw := fat32FillLfnEntry name (lfnOrd count i) checksum
      raw.isDeleted = false ∧ raw.isLfn = true ∧ raw.ord = lfnOrd count i ∧
        raw.checksum = checksum := by
    intro i hi
    obtain ⟨h0, h1⟩ := lfnOrd_used count hcount i hi
    obtain ⟨_, hdel, hlfn⟩ := RawDirent.isLiveLfn_iff.mp (fill_isLiveLfn name checksum h0 h1)
    refine ⟨hdel, hlfn, fill_ord _ _ _, ?_⟩
    simp [RawDirent.checksum, fat32FillLfnEntry]
  induction done with
  | zero => omega
  | succ done ih =>
      obtain ⟨hdel, hlfn, hord, hsum⟩ := hstep done (by omega)
      have hbase := lfnOrd_base count hcount done (by omega)
      rw [List.range_succ, List.map_append, List.map_singleton, LfnState.afterAll_concat,
        LfnState.after]
      simp only [hdel, hlfn, Bool.false_eq_true, ↓reduceIte, LfnState.feed, hord, hsum]
      rcases Nat.eq_zero_or_pos done with rfl | hpos'
      · -- the slot with the mark 0x40 opens the run
        simp only [lfnOrd_last count (by omega) (by omega), ne_eq, not_false_eq_true, ↓reduceIte,
          beq_self_eq_true, Bool.and_self, collected, LfnState.mk.injEq, and_true]
        funext k
        rw [fat32LfnWrite_fill h hbase (by omega), fat32LfnClear]
        by_cases hk : 13 * (count - 0 - 1) ≤ k ∧ k < 13 * (count - 0 - 1) + 13 ∧ k < 255
        · rw [if_pos hk, if_pos (by omega)]
        · rw [if_neg hk, if_neg (by omega)]
      · rw [ih hpos' (by omega)]
        simp only [lfnOrd_inner count (by omega) done (by omega) hpos', ne_eq, not_true_eq_false,
          ↓reduceIte, collected, beq_self_eq_true, Bool.and_self, LfnState.mk.injEq, and_true]
        funext k
        rw [fat32LfnWrite_fill h hbase (by omega)]
        by_cases hk : 13 * (count - done - 1) ≤ k ∧ k < 13 * (count - done - 1) + 13 ∧ k < 255
        · rw [if_pos hk, if_pos (by omega)]
        · rw [if_neg hk]
          by_cases hold : 13 * (count - done) ≤ k ∧ k < 13 * count ∧ k < 255
          · rw [if_pos hold, if_pos (by omega)]
          · rw [if_neg hold, if_neg (by omega)]

theorem lfnSlots_lt {name : CName} (h : name.length ≤ 255) : lfnSlots name < 21 := by
  simp only [lfnSlots]
  omega

theorem lfnSlots_pos {name : CName} (h : name ≠ []) : 0 < lfnSlots name := by
  have := List.length_pos_iff.mpr h
  simp only [lfnSlots]
  omega

theorem takeWhile_ne_zero_append {name : CName} (h : ∀ ch ∈ name, ch ≠ 0) (n : Nat) :
    (name ++ List.replicate n 0).takeWhile (· ≠ 0) = name := by
  induction name with
  | nil => cases n <;> simp [List.replicate_succ]
  | cons ch rest ih =>
      have hch : ch ≠ 0 := h ch List.mem_cons_self
      rw [List.cons_append, List.takeWhile_cons, if_pos (by simpa using hch),
        ih fun c hc => h c (List.mem_cons_of_mem ch hc)]

/-- A name of at most 255 characters comes back from its slots. -/
theorem entryName_lfnRun {name : CName} (h : LongNameOk name) (st : LfnState)
    (raw : RawDirent) :
    (st.afterAll (lfnRun name (lfnSlots name) (fat32LfnChecksum raw.name))).entryName raw =
      name := by
  have hlen := h.length_le
  have hlt := lfnSlots_lt hlen
  have hpos := lfnSlots_pos h.ne_nil
  have hcover : name.length ≤ 13 * lfnSlots name := by
    simp only [lfnSlots]
    omega
  rw [lfnRun, afterAll_lfnRun h.no_zero hlt _ st hpos (Nat.le_refl _)]
  have hbuf : ∀ k, (collected name (fat32LfnChecksum raw.name) (lfnSlots name)
      (lfnSlots name)).lfn k = storedChar name k := by
    intro k
    simp only [collected, Nat.sub_self, Nat.mul_zero, Nat.zero_le, true_and]
    by_cases hk : k < 13 * lfnSlots name ∧ k < 255
    · rw [if_pos hk]
    · rw [if_neg hk, storedChar, List.getD_eq_default]
      omega
  have hfirst : storedChar name 0 ≠ 0 := by
    rw [storedChar, List.getD_eq_getElem _ _ (List.length_pos_iff.mpr h.ne_nil)]
    exact h.no_zero _ (List.getElem_mem _)
  have hstring : (List.range 256).map (storedChar name) =
      name ++ List.replicate (256 - name.length) 0 := by
    refine List.ext_getElem (by simp; omega) fun i hi _ => ?_
    rw [List.getElem_map, List.getElem_range, storedChar]
    by_cases hlow : i < name.length
    · rw [List.getElem_append_left hlow, List.getD_eq_getElem _ _ hlow]
    · rw [List.getElem_append_right (Nat.le_of_not_lt hlow), List.getElem_replicate,
        List.getD_eq_default _ _ (Nat.le_of_not_lt hlow)]
  rw [LfnState.entryName, hbuf]
  have hif : ((collected name (fat32LfnChecksum raw.name) (lfnSlots name)
      (lfnSlots name)).valid && storedChar name 0 != 0 &&
      (collected name (fat32LfnChecksum raw.name) (lfnSlots name)
        (lfnSlots name)).checksum == fat32LfnChecksum raw.name) = true := by
    simp [collected, hfirst]
  rw [if_pos hif, cString, show (collected name (fat32LfnChecksum raw.name) (lfnSlots name)
    (lfnSlots name)).lfn = storedChar name from funext hbuf, hstring,
    takeWhile_ne_zero_append h.no_zero, List.take_of_length_le hlen]

end Run

section RoundTrip

variable {β : Type} {name : CName}

/-- Characters that `fat32_validate_name` accepts are not the terminator. -/
theorem LongNameOk.of_chars (hne : name ≠ []) (hlen : name.length ≤ 255)
    (hchars : ∀ ch ∈ name, fat32IsInvalidChar ch = false) : LongNameOk name := by
  refine ⟨hne, hlen, fun ch hch hzero => ?_⟩
  have hvalid := hchars ch hch
  rw [hzero] at hvalid
  exact absurd hvalid (by decide)

theorem noEnd_of_live {run : List RawDirent} (h : ∀ raw ∈ run, raw.isLiveLfn = true) :
    NoEnd run :=
  fun raw hraw => (RawDirent.isLiveLfn_iff.mp (h raw hraw)).1

/-- A slot in use that is neither a volume label nor a part of a long name. -/
theorem RawDirent.isEntry_of_attr {raw : RawDirent} (hused : raw.isFree = false)
    (hattr : raw.attr &&& 0x08 = 0) : raw.isEntry = true := by
  rw [RawDirent.isFree, Bool.or_eq_false_iff] at hused
  have hlfn : raw.isLfn = false := by
    rw [RawDirent.isLfn, beq_eq_false_iff_ne]
    intro heq
    rw [heq] at hattr
    exact absurd hattr (by decide)
  have hvolume : raw.isVolume = false := by simp [RawDirent.isVolume, hattr]
  simp [RawDirent.isEntry, hused.1, hused.2, hlfn, hvolume]

/-- A callback that is run over one entry. -/
theorem runHits_singleton (cb : DirHit → β → CbRet × β) (hit : DirHit) (ctx : β) :
    runHits cb [hit] ctx = cb hit ctx := by
  rw [runHits]
  rcases cb hit ctx with ⟨ret, ctx'⟩
  cases ret <;> rfl

/-- The slots of a name and the short entry behind them hand the callback that name and the
number of its slots, whatever the decoder held before. -/
theorem loop_lfnRun (hne : name ≠ []) (hlen : name.length ≤ 255)
    (hchars : ∀ ch ∈ name, fat32IsInvalidChar ch = false) {raw : RawDirent}
    (hused : raw.isFree = false) (hattr : raw.attr &&& 0x08 = 0)
    (cb : DirHit → β → CbRet × β) (place : Nat → Nat × Nat) (i : Nat) (st : LfnState) (ctx : β) :
    iterEnd (Flow.loop (iterSlot cb) (slotsFrom place i
        (lfnRun name (lfnSlots name) (fat32LfnChecksum raw.name) ++ [raw])) (st, ctx)) =
      cb { raw := raw
           name := name
           direntLba := (place (i + lfnSlots name)).1
           direntOff := (place (i + lfnSlots name)).2
           entryIndex := i + lfnSlots name
           lfnCount := lfnSlots name } ctx := by
  have hok := LongNameOk.of_chars hne hlen hchars
  have hlive : ∀ slot ∈ lfnRun name (lfnSlots name) (fat32LfnChecksum raw.name),
      slot.isLiveLfn = true := lfnRun_live (lfnSlots_lt hlen) _
  have hnone : ∀ slot ∈ lfnRun name (lfnSlots name) (fat32LfnChecksum raw.name),
      slot.isEntry = false := by
    intro slot hslot
    have hlfn := (RawDirent.isLiveLfn_iff.mp (hlive slot hslot)).2.2
    simp [RawDirent.isEntry, hlfn]
  have hcount : (st.afterAll (lfnRun name (lfnSlots name) (fat32LfnChecksum raw.name))).count =
      lfnSlots name := by
    rw [lfnRun, afterAll_lfnRun hok.no_zero (lfnSlots_lt hlen) _ st (lfnSlots_pos hne)
      (Nat.le_refl _)]
    rfl
  rw [loop_iterSlot, hitsFrom_append (noEnd_of_live hlive), hitsFrom_noEntry _ hnone,
    List.nil_append, lfnRun_length, hitsFrom_singleton (RawDirent.isEntry_of_attr hused hattr),
    runHits_singleton, hitAt, entryName_lfnRun hok, hcount]

/-- A name of 13 characters fills its slot and has no terminator. -/
theorem loop_lfnRun_thirteen :
    iterEnd (Flow.loop (iterSlot fun hit names => (.goOn, (hit.name, hit.lfnCount) :: names))
        (slotsFrom (fun _ => (0, 0)) 0
          (lfnRun (List.replicate 13 97) (lfnSlots (List.replicate 13 97))
            (fat32LfnChecksum (mkDirent (padTo 11 [65]) 0x20 0 0).name) ++
            [mkDirent (padTo 11 [65]) 0x20 0 0]))
        (LfnState.init, [])) = (.goOn, [(List.replicate 13 97, 1)]) := by
  have hchars : ∀ ch ∈ List.replicate 13 (97 : UInt8), fat32IsInvalidChar ch = false := by
    intro ch hch
    rw [List.eq_of_mem_replicate hch]
    decide
  exact loop_lfnRun (by decide) (by decide) hchars (by decide) (by decide) _ _ 0 _ []

end RoundTrip

end OsAgentLab
