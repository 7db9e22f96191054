/-
Decoding a directory stays inside its arrays, and the callback gets a name that ends: the last
byte of `lfn` is never written, and everything else follows the list model step by step.
-/
import OsAgentLab.Fat32.DirBuffers

namespace OsAgentLab

namespace DirBuffers

open Buffer

/-- The locals that hold a decoder state. -/
def ofState (st : LfnState) : Locals := ⟨Buffer.of 256 st.lfn, st.checksum, st.valid, st.count⟩

variable {raw : RawDirent} {st : LfnState} {junk name : Buffer UInt8 256} {lfn : LfnBuf}

section Feed

theorem lfnWriteLoop_of (base left : Nat) {i : Nat} (hi : i + left ≤ 13) (lfn : LfnBuf) :
    lfnWriteLoop (Buffer.of 13 raw.lfnUnit) base left i (Buffer.of 256 lfn) =
      some (Buffer.of 256 (fat32LfnWriteLoop raw base left i lfn)) := by
  induction left generalizing i lfn with
  | zero => rfl
  | succ left ih =>
      rw [lfnWriteLoop, fat32LfnWriteLoop]
      dsimp only
      by_cases hstop : 255 ≤ u64 (base + i)
      · rw [if_pos hstop, if_pos hstop]
      · have hpos : u64 (base + i) < 256 := by omega
        rw [if_neg hstop, if_neg hstop, get?_of (show i < 13 by omega), Option.bind_some,
          set?_of hpos, Option.bind_some]
        exact ih (by omega) _

/-- The two halves of the long-name branch on decoder states. -/
def start (st : LfnState) (raw : RawDirent) : LfnState :=
  if raw.ord &&& 0x40 ≠ 0 then
    { lfn := fat32LfnClear, checksum := raw.checksum, valid := true, count := 0 }
  else st

def collect (st : LfnState) (raw : RawDirent) : LfnState :=
  if st.valid && raw.checksum == st.checksum then
    { st with lfn := fat32LfnWrite st.lfn raw, count := st.count + 1 }
  else st.drop

theorem feed_eq (st : LfnState) (raw : RawDirent) : st.feed raw = collect (start st raw) raw := rfl

theorem start_ofState (st : LfnState) (raw : RawDirent) :
    (ofState st).start raw = some (ofState (start st raw)) := by
  by_cases hfirst : raw.ord &&& 0x40 ≠ 0
  · rw [Locals.start, start, if_pos hfirst, if_pos hfirst, fill?_all]
    rfl
  · rw [Locals.start, start, if_neg hfirst, if_neg hfirst]

theorem collect_ofState (st : LfnState) (raw : RawDirent) :
    (ofState st).collect raw = some (ofState (collect st raw)) := by
  have hsame : ((ofState st).valid && raw.checksum == (ofState st).checksum) =
      (st.valid && raw.checksum == st.checksum) := rfl
  rw [Locals.collect, collect, hsame]
  by_cases hgo : (st.valid && raw.checksum == st.checksum) = true
  · have hwrite : lfnWrite (ofState st).lfn raw =
        some (Buffer.of 256 (fat32LfnWrite st.lfn raw)) :=
      lfnWriteLoop_of _ 13 (by decide) st.lfn
    rw [if_pos hgo, if_pos hgo, hwrite, Option.bind_some]
    simp only [ofState]
  · rw [if_neg hgo, if_neg hgo]
    rfl

/-- The long-name branch never leaves its arrays. -/
theorem feed_ofState (st : LfnState) (raw : RawDirent) :
    (ofState st).feed raw = some (ofState (st.feed raw)) := by
  rw [Locals.feed, start_ofState, Option.bind_some, collect_ofState, feed_eq]

theorem lfnWriteLoop_last (raw : RawDirent) (base left i : Nat) (lfn : LfnBuf) :
    fat32LfnWriteLoop raw base left i lfn 255 = lfn 255 := by
  induction left generalizing i lfn with
  | zero => rfl
  | succ left ih =>
      rw [fat32LfnWriteLoop]
      dsimp only
      by_cases hstop : 255 ≤ u64 (base + i)
      · rw [if_pos hstop]
      · have hne : 255 ≠ u64 (base + i) := fun heq => hstop heq.le
        rw [if_neg hstop, ih, if_neg hne]

/-- The last byte of the long-name array stays a NUL. -/
theorem feed_last (h : st.lfn 255 = 0) (raw : RawDirent) : (st.feed raw).lfn 255 = 0 := by
  have hstart : (start st raw).lfn 255 = 0 := by
    by_cases hfirst : raw.ord &&& 0x40 ≠ 0
    · rw [start, if_pos hfirst]
      rfl
    · rw [start, if_neg hfirst]
      exact h
  rw [feed_eq]
  generalize start st raw = st at hstart
  by_cases hgo : (st.valid && raw.checksum == st.checksum) = true
  · rw [collect, if_pos hgo, ← hstart]
    dsimp only
    rw [fat32LfnWrite, lfnWriteLoop_last]
  · rw [collect, if_neg hgo]
    exact hstart

end Feed

section Names

/-- A copying loop appends the characters in front of the first blank. -/
theorem copyField_spec {field : Buffer UInt8 11} {start i : Nat} {chars written : List UInt8}
    (hfield : ∀ k, k < chars.length → field.get? (start + (i + k)) = chars[k]?)
    (hname : name.StartsWith written) (hlen : written.length + chars.length < 256) :
    ∃ name', copyField field start chars.length i written.length name =
        some ((written ++ chars.takeWhile (· ≠ 32)).length, name') ∧
      name'.StartsWith (written ++ chars.takeWhile (· ≠ 32)) := by
  induction chars generalizing i written name with
  | nil =>
      refine ⟨name, ?_, ?_⟩
      · rw [List.takeWhile_nil, List.append_nil]
        rfl
      · rw [List.takeWhile_nil, List.append_nil]
        exact hname
  | cons c chars ih =>
      have hget := hfield 0 (Nat.succ_pos _)
      rw [Nat.add_zero, List.getElem?_cons_zero] at hget
      rw [List.length_cons] at hlen
      rw [List.length_cons, copyField, hget, Option.bind_some]
      by_cases hblank : c = 32
      · refine ⟨name, ?_, ?_⟩
        · rw [if_neg (not_not_intro hblank), hblank, List.takeWhile_cons, if_neg (by decide),
            List.append_nil]
        · rw [hblank, List.takeWhile_cons, if_neg (by decide), List.append_nil]
          exact hname
      · obtain ⟨name₁, hset, hname₁⟩ := hname.set? (by omega) c
        have hrest : ∀ k, k < chars.length →
            field.get? (start + (i + 1 + k)) = chars[k]? := by
          intro k hk
          have hnext := hfield (k + 1) (by rw [List.length_cons]; omega)
          rw [List.getElem?_cons_succ] at hnext
          rw [show i + 1 + k = i + (k + 1) by omega]
          exact hnext
        have hlen₁ : (written ++ [c]).length + chars.length < 256 := by
          rw [List.length_append, List.length_singleton]
          omega
        obtain ⟨name₂, hrun, hname₂⟩ := ih hrest hname₁ hlen₁
        rw [List.length_append, List.length_singleton] at hrun
        have htake : written ++ (c :: chars).takeWhile (· ≠ 32) =
            written ++ [c] ++ chars.takeWhile (· ≠ 32) := by
          rw [List.takeWhile_cons, if_pos (by simpa using hblank), List.append_assoc,
            List.singleton_append]
        refine ⟨name₂, ?_, ?_⟩
        · rw [if_pos hblank, hset, Option.bind_some, hrun, htake]
        · rw [htake]
          exact hname₂

theorem nameField_get (raw : RawDirent) (i : Nat) :
    (nameField raw).get? i = raw.name[i]? := by
  have hname : raw.name = List.ofFn (nameField raw) := by
    simp [RawDirent.name, nameField, List.ofFn_succ]
  rw [hname, List.getElem?_ofFn, get?]

theorem takeWhile_length_le (test : UInt8 → Bool) (l : List UInt8) :
    (l.takeWhile test).length ≤ l.length :=
  (List.takeWhile_prefix test).length_le

/-- The short branch writes the name that the list model reads from the field. -/
theorem shortName_spec (raw : RawDirent) (junk : Buffer UInt8 256) :
    ∃ name chars, shortName (nameField raw) junk = some name ∧ name.StartsWith (chars ++ [0]) ∧
      chars.takeWhile (· ≠ 0) = shortToName raw.name := by
  have hbase : ∀ k, k < (raw.name.take 8).length →
      (nameField raw).get? (0 + (0 + k)) = (raw.name.take 8)[k]? := by
    intro k hk
    rw [List.length_take] at hk
    rw [Nat.zero_add, Nat.zero_add, nameField_get, List.getElem?_take_of_lt (by omega)]
  have hext : ∀ k, k < (raw.name.drop 8).length →
      (nameField raw).get? (8 + (0 + k)) = (raw.name.drop 8)[k]? := by
    intro k hk
    have hlen : raw.name.length = 11 := rfl
    rw [List.length_drop, hlen] at hk
    rw [Nat.zero_add, nameField_get, List.getElem?_drop]
  have hblank : (raw.name.drop 8).takeWhile (· ≠ 32) = [] ↔ raw 8 = 32 := by
    have hdrop : raw.name.drop 8 = [raw 8, raw 9, raw 10] := rfl
    rw [hdrop, List.takeWhile_cons]
    by_cases hcase : raw 8 = 32
    · simp [hcase]
    · simp [hcase]
  have height : (nameField raw).get? 8 = some (raw 8) := nameField_get raw 8
  have htake : (raw.name.take 8).length = 8 := rfl
  have hdrop : (raw.name.drop 8).length = 3 := rfl
  have hbaseLen := takeWhile_length_le (· ≠ 32) (raw.name.take 8)
  rw [htake] at hbaseLen
  obtain ⟨name₁, hrun₁, hname₁⟩ := copyField_spec hbase (startsWith_nil junk)
    (by rw [htake, List.length_nil]; omega)
  rw [List.nil_append, htake, List.length_nil] at hrun₁
  rw [List.nil_append] at hname₁
  rw [shortName, hrun₁, Option.bind_some, shortToName]
  dsimp only
  rw [height, Option.bind_some]
  generalize (raw.name.take 8).takeWhile (· ≠ 32) = base at hbaseLen hname₁
  by_cases hcase : raw 8 = 32
  · obtain ⟨name₂, hset, hname₂⟩ := hname₁.set? (by omega) 0
    refine ⟨name₂, base, ?_, hname₂, ?_⟩
    · rw [if_neg (not_not_intro hcase), hset]
    · rw [if_pos (hblank.2 hcase)]
  · obtain ⟨name₂, hset, hname₂⟩ := hname₁.set? (by omega) 46
    have hlen₂ : (base ++ [46]).length = base.length + 1 := List.length_append
    obtain ⟨name₃, hrun₃, hname₃⟩ := copyField_spec hext hname₂
      (by rw [hlen₂, hdrop]; omega)
    rw [hdrop, hlen₂] at hrun₃
    have hextLen := takeWhile_length_le (· ≠ 32) (raw.name.drop 8)
    rw [hdrop] at hextLen
    obtain ⟨name₄, hset₄, hname₄⟩ := hname₃.set?
      (by rw [List.length_append, hlen₂]; omega) 0
    refine ⟨name₄, _, ?_, hname₄, ?_⟩
    · rw [if_pos hcase, hset, Option.bind_some, hrun₃, Option.bind_some]
      exact hset₄
    · rw [if_neg fun hnil => hcase (hblank.1 hnil), List.append_assoc, List.singleton_append]

/-- The long branch copies the string that `lfn` holds. -/
theorem longName_spec (h : lfn 255 = 0) (junk : Buffer UInt8 256) :
    ∃ name, longName (Buffer.of 256 lfn) junk = some name ∧
      name.StartsWith (cString 256 lfn ++ [0]) ∧ (cString 256 lfn).length ≤ 255 := by
  have hsplit : (List.range 256).map lfn = (List.range 255).map lfn ++ [0] := by
    rw [List.range_succ, List.map_append, List.map_singleton, h]
  obtain ⟨rest, hrest⟩ := takeWhile_zero ((List.range 255).map lfn)
  have hstring : cString 256 lfn = ((List.range 255).map lfn).takeWhile (· ≠ 0) := by
    rw [cString, hsplit, hrest, List.takeWhile_append_of_pos ?_, List.takeWhile_cons,
      if_neg (by simp), List.append_nil]
    intro c hc
    simpa using List.mem_takeWhile_imp hc
  have hstarts : (Buffer.of 256 lfn).StartsWith ((List.range 255).map lfn ++ [0]) := by
    intro i hi
    rw [← hsplit, List.length_map, List.length_range] at hi
    rw [get?_of hi, ← hsplit, List.getElem?_map, List.getElem?_range hi, Option.map_some]
  obtain ⟨hends, -⟩ := hstarts.endsAt
  rw [hrest, ← hstring] at hstarts
  rw [← hstring] at hends
  have hle : (cString 256 lfn).length ≤ 255 := Nat.le_of_lt_succ hends.lt
  obtain ⟨name₁, hcopy, hname₁⟩ := hstarts.left.copy? (by omega) (by omega) junk
  obtain ⟨name₂, hset, hname₂⟩ := hname₁.set? (by omega) 0
  refine ⟨name₂, ?_, hname₂, hle⟩
  rw [longName, hends.strlen, Option.bind_some, if_neg (by omega)]
  dsimp only
  rw [hcopy, Option.bind_some, hset]

/-- The array `name` always ends, and it spells the name of the list model. -/
theorem entryName_spec (h : st.lfn 255 = 0) (raw : RawDirent) (junk : Buffer UInt8 256) :
    ∃ name, (ofState st).entryName raw junk = some name ∧
      name.EndsAt (st.entryName raw).length ∧ name.text = st.entryName raw := by
  obtain ⟨short, chars, hrun, hstarts, hshort⟩ := shortName_spec raw junk
  have hends := hstarts.endsAt
  rw [hshort] at hends
  have hfirst : (ofState st).lfn.get? 0 = some (st.lfn 0) := get?_of (by decide)
  have hvalid : (ofState st).valid = st.valid := rfl
  have hsum : (ofState st).checksum = st.checksum := rfl
  rw [Locals.entryName, LfnState.entryName, hfirst, Option.bind_some, hvalid, hsum]
  by_cases hlong : st.valid = true ∧ st.lfn 0 ≠ 0 ∧ st.checksum = fat32LfnChecksum raw.name
  · obtain ⟨name, hrunLong, hstartsLong, hle⟩ := longName_spec h junk
    have hendsLong := hstartsLong.endsAt
    have hstring : (cString 256 st.lfn).takeWhile (· ≠ 0) = cString 256 st.lfn := by
      rw [List.takeWhile_eq_self_iff]
      intro c hc
      simpa using List.mem_takeWhile_imp hc
    rw [hstring] at hendsLong
    refine ⟨name, ?_, ?_⟩
    · rw [if_pos hlong.1, if_pos hlong.2]
      exact hrunLong
    · rw [if_pos (by simp [hlong]), List.take_of_length_le hle]
      exact hendsLong
  · refine ⟨short, ?_, ?_⟩
    · by_cases hon : st.valid = true
      · rw [if_pos hon, if_neg fun hrest => hlong ⟨hon, hrest⟩]
        exact hrun
      · rw [if_neg hon]
        exact hrun
    · have hif : ¬(st.valid && st.lfn 0 != 0 && st.checksum == fat32LfnChecksum raw.name) = true := by
        simpa [and_assoc] using hlong
      rw [if_neg hif]
      exact hends

end Names

section Iteration

variable {β : Type}

/-- A string of at most 255 characters. -/
def Terminated (name : Buffer UInt8 256) : Prop := ∃ k, k ≤ 255 ∧ name.EndsAt k

/-- The decoder stands between two slots, and all names so far were strings. -/
def Between (s : Locals × (β × List Entry)) : Prop :=
  (∃ st : LfnState, s.1 = ofState st ∧ st.lfn 255 = 0) ∧ ∀ entry ∈ s.2.2, Terminated entry.name

/-- The iteration has come to a result, and all names were strings. -/
def Finished (r : Option (CbRet × (β × List Entry))) : Prop :=
  ∃ out, r = some out ∧ ∀ entry ∈ out.2.2, Terminated entry.name

theorem loadRaw_of (sector : Sector) {off : Nat} (h : off + 32 ≤ 512) :
    loadRaw (Buffer.of 512 sector) off = some (rawAt sector off) := dif_pos h

theorem Terminated.of_endsAt {k : Nat} (h : name.EndsAt k) : Terminated name :=
  ⟨k, Nat.le_of_lt_succ h.lt, h⟩

/-- One slot, in terms of the decoder states. -/
theorem iterSlot_eq (junk : Nat → Buffer UInt8 256) (cb : Entry → β → CbRet × β) (sector : Sector)
    {off : Nat} (hoff : off + 32 ≤ 512) (lba index : Nat) (h : st.lfn 255 = 0) (ctx : β) :
    ∃ name : Buffer UInt8 256,
      name.EndsAt (st.entryName (rawAt sector off)).length ∧
      name.text = st.entryName (rawAt sector off) ∧
      iterSlot junk cb (Buffer.of 512 sector) lba off index (ofState st, ctx) =
        match slotStep ⟨rawAt sector off, lba, off, index⟩ st with
        | .endMark => .done (some (.goOn, ctx))
        | .skip st' => .next (ofState st', ctx)
        | .entry hit st' =>
            match cb ⟨hit.raw, name, lba, off, index, hit.lfnCount⟩ ctx with
            | (.goOn, ctx') => .next (ofState st', ctx')
            | (ret, ctx') => .done (some (ret, ctx')) := by
  obtain ⟨name, hrun, hends, htext⟩ := entryName_spec h (rawAt sector off) (junk index)
  refine ⟨name, hends, htext, ?_⟩
  rw [iterSlot, loadRaw_of sector hoff, slotStep]
  dsimp only
  generalize rawAt sector off = raw at hrun
  by_cases hend : raw.isEnd = true
  · rw [if_pos hend, if_pos hend]
  · rw [if_neg hend, if_neg hend]
    by_cases hdel : raw.isDeleted = true
    · rw [if_pos hdel, if_pos hdel]
      rfl
    · rw [if_neg hdel, if_neg hdel]
      by_cases hlfn : raw.isLfn = true
      · rw [if_pos hlfn, if_pos hlfn, feed_ofState]
      · rw [if_neg hlfn, if_neg hlfn]
        by_cases hvol : raw.isVolume = true
        · rw [if_pos hvol, if_pos hvol]
          rfl
        · rw [if_neg hvol, if_neg hvol, hrun]
          rfl

/-- Every slot keeps the last byte of the long-name array. -/
theorem slotStep_last (slot : DirSlot) (h : st.lfn 255 = 0) :
    match slotStep slot st with
    | .endMark => True
    | .skip st' => st'.lfn 255 = 0
    | .entry _ st' => st'.lfn 255 = 0 := by
  rw [slotStep]
  by_cases hend : slot.raw.isEnd = true
  · rw [if_pos hend]
    trivial
  · rw [if_neg hend]
    by_cases hdel : slot.raw.isDeleted = true
    · rw [if_pos hdel]
      exact h
    · rw [if_neg hdel]
      by_cases hlfn : slot.raw.isLfn = true
      · rw [if_pos hlfn]
        exact feed_last h slot.raw
      · rw [if_neg hlfn]
        by_cases hvol : slot.raw.isVolume = true
        · rw [if_pos hvol]
          exact h
        · rw [if_neg hvol]
          exact h

theorem iterSlot_ends (junk : Nat → Buffer UInt8 256) (cb : Entry → β → CbRet × β)
    (sector : Sector) {off : Nat} (hoff : off + 32 ≤ 512) (lba index : Nat)
    {s : Locals × (β × List Entry)} (hs : Between s) :
    (iterSlot junk (noted cb) (Buffer.of 512 sector) lba off index s).Ends Between Finished := by
  obtain ⟨locals, ctx, log⟩ := s
  obtain ⟨⟨st, rfl, hlast⟩, hlog⟩ := hs
  obtain ⟨name, hends, -, hslot⟩ := iterSlot_eq junk (noted cb) sector hoff lba index hlast (ctx, log)
  have hkeep := slotStep_last ⟨rawAt sector off, lba, off, index⟩ hlast
  rw [hslot]
  cases hstep : slotStep ⟨rawAt sector off, lba, off, index⟩ st with
  | endMark => exact ⟨_, rfl, hlog⟩
  | skip st' =>
      rw [hstep] at hkeep
      exact ⟨⟨st', rfl, hkeep⟩, hlog⟩
  | entry hit st' =>
      rw [hstep] at hkeep
      have hlog' : ∀ entry ∈ log ++ [⟨hit.raw, name, lba, off, index, hit.lfnCount⟩],
          Terminated entry.name := by
        intro entry hentry
        rcases List.mem_append.1 hentry with hold | hnew
        · exact hlog entry hold
        · rw [List.mem_singleton.1 hnew]
          exact Terminated.of_endsAt hends
      dsimp only [noted]
      cases hret : (cb ⟨hit.raw, name, lba, off, index, hit.lfnCount⟩ ctx).1 with
      | goOn => exact ⟨⟨st', rfl, hkeep⟩, hlog'⟩
      | stop => exact ⟨_, rfl, hlog'⟩
      | fail e => exact ⟨_, rfl, hlog'⟩

theorem iterCluster_ends (v : Vol) (junk : Nat → Buffer UInt8 256) (cb : Entry → β → CbRet × β)
    (cluster base : Nat) {s : Locals × (β × List Entry)} (hs : Between s) :
    (iterCluster v junk (noted cb) cluster base s).Ends Between Finished := by
  refine Flow.loop_ends_of_mem (fun sec _ state hstate => ?_) hs
  dsimp only
  cases v.disk.read (fat32ClusterToLba v.fs cluster + sec) with
  | none => exact ⟨_, rfl, hstate.2⟩
  | some sector =>
      refine Flow.loop_ends_of_mem (fun i hi mid hmid => ?_) hstate
      have hlt := List.mem_range.1 hi
      exact iterSlot_ends junk cb sector (by omega) _ _ hmid

theorem iterChain_ends (v : Vol) (junk : Nat → Buffer UInt8 256) (cb : Entry → β → CbRet × β)
    (fuel cluster base : Nat) {s : Locals × (β × List Entry)} (hs : Between s) :
    (iterChain v junk (noted cb) fuel cluster base s).Ends Between Finished := by
  induction fuel generalizing cluster base s with
  | zero => exact hs
  | succ fuel ih =>
      rw [iterChain]
      by_cases heoc : fat32Eoc ≤ cluster
      · rw [if_pos heoc]
        exact ⟨_, rfl, hs.2⟩
      · rw [if_neg heoc]
        have hcluster := iterCluster_ends v junk cb cluster base hs
        cases hflow : iterCluster v junk (noted cb) cluster base s with
        | done r =>
            rw [hflow] at hcluster
            exact hcluster
        | next s' =>
            rw [hflow] at hcluster
            rw [Flow.next_bind]
            cases (fat32ReadFatEntry cluster v).1 with
            | ok next => exact ih next _ hcluster
            | err e => exact ⟨_, rfl, hcluster.2⟩
            | fault => exact ⟨_, rfl, hcluster.2⟩
            | diverges => exact ⟨_, rfl, hcluster.2⟩

/-- Whatever the sectors hold, no access is outside an array, and every name that the callback
gets is a string of at most 255 characters. -/
theorem fat32IterDir_safe (v : Vol) (stack : Buffer UInt8 256) (junk : Nat → Buffer UInt8 256)
    (cb : Entry → β → CbRet × β) (fuel start : Nat) (ctx : β) :
    (fat32IterDir v stack junk (noted cb) fuel start (ctx, [])).Ends
      (fun s => ∀ entry ∈ s.2.2, Terminated entry.name)
      (fun r => ∃ out, r = some out ∧ ∀ entry ∈ out.2.2, Terminated entry.name) := by
  have hstart : Between (ofState LfnState.init, (ctx, ([] : List Entry))) :=
    ⟨⟨LfnState.init, rfl, rfl⟩, fun entry hentry => absurd hentry List.not_mem_nil⟩
  have hchain := iterChain_ends v junk cb fuel start 0 hstart
  rw [fat32IterDir, fill?_all]
  dsimp only
  change (iterChain v junk (noted cb) fuel start 0 (ofState LfnState.init, (ctx, []))).Ends _ _
  cases hflow : iterChain v junk (noted cb) fuel start 0 (ofState LfnState.init, (ctx, [])) with
  | next s =>
      rw [hflow] at hchain
      exact hchain.2
  | done r =>
      rw [hflow] at hchain
      exact hchain

end Iteration

section ListModel

variable {β : Type}

/-- The callback arguments with the name as a string. -/
def Entry.toHit (entry : Entry) : DirHit where
  raw := entry.raw
  name := entry.name.text
  direntLba := entry.direntLba
  direntOff := entry.direntOff
  entryIndex := entry.entryIndex
  lfnCount := entry.lfnCount

/-- The locals hold the decoder state, and the contexts are the same. -/
def Same (s : Locals × β) (s' : LfnState × β) : Prop :=
  (s.1 = ofState s'.1 ∧ s'.1.lfn 255 = 0) ∧ s.2 = s'.2

theorem iterSlot_related (junk : Nat → Buffer UInt8 256) (cb : DirHit → β → CbRet × β)
    (sector : Sector) {off : Nat} (hoff : off + 32 ≤ 512) (lba index : Nat) {s : Locals × β}
    {s' : LfnState × β} (hs : Same s s') :
    Flow.Related Same (fun r r' => r = some r')
      (iterSlot junk (fun entry => cb entry.toHit) (Buffer.of 512 sector) lba off index s)
      (OsAgentLab.iterSlot cb ⟨rawAt sector off, lba, off, index⟩ s') := by
  obtain ⟨locals, ctx⟩ := s
  obtain ⟨st, ctx'⟩ := s'
  obtain ⟨⟨hlocals, hlast⟩, hctx⟩ := hs
  obtain rfl : locals = ofState st := hlocals
  obtain rfl : ctx = ctx' := hctx
  obtain ⟨name, -, htext, hslot⟩ :=
    iterSlot_eq junk (fun entry => cb entry.toHit) sector hoff lba index hlast ctx
  have hkeep := slotStep_last ⟨rawAt sector off, lba, off, index⟩ hlast
  rw [hslot, OsAgentLab.iterSlot]
  cases hstep : slotStep ⟨rawAt sector off, lba, off, index⟩ st with
  | endMark => exact rfl
  | skip st' =>
      rw [hstep] at hkeep
      exact ⟨⟨rfl, hkeep⟩, rfl⟩
  | entry hit st' =>
      rw [hstep] at hkeep
      obtain rfl := slotStep_hit hstep
      dsimp only [Entry.toHit]
      rw [htext]
      rcases cb ⟨rawAt sector off, st.entryName (rawAt sector off), lba, off, index, st.count⟩ ctx
        with ⟨ret, ctx'⟩
      cases ret with
      | goOn => exact ⟨⟨rfl, hkeep⟩, rfl⟩
      | stop => exact rfl
      | fail e => exact rfl

theorem iterCluster_related (v : Vol) (junk : Nat → Buffer UInt8 256)
    (cb : DirHit → β → CbRet × β) (cluster base : Nat) {s : Locals × β} {s' : LfnState × β}
    (hs : Same s s') :
    Flow.Related Same (fun r r' => r = some r')
      (iterCluster v junk (fun entry => cb entry.toHit) cluster base s)
      (OsAgentLab.iterCluster v cb cluster base s') := by
  refine Flow.loop_related (fun sec t t' ht => ?_) _ hs
  dsimp only
  cases v.disk.read (fat32ClusterToLba v.fs cluster + sec) with
  | none => exact congrArg (fun ctx => some (CbRet.fail Errno.io, ctx)) ht.2
  | some sector =>
      dsimp only
      rw [sectorSlots, Flow.loop_map]
      refine Flow.loop_related_of_mem (fun i hi u u' hu => ?_) ht
      have hlt := List.mem_range.1 hi
      exact iterSlot_related junk cb sector (by omega) _ _ hu

/-- A callback that reads the name as a string is called as in the list model. -/
theorem fat32IterDir_eq (v : Vol) (stack : Buffer UInt8 256) (junk : Nat → Buffer UInt8 256)
    (cb : DirHit → β → CbRet × β) (start : Nat) (ctx : β) {r : CbRet × β}
    (h : OsAgentLab.fat32IterDir v start cb ctx = some r) :
    fat32IterDir v stack junk (fun entry => cb entry.toHit) (fat32Eoc + 1) start ctx =
      .done (some r) := by
  have hchain : ∀ (fuel cluster base : Nat) (s : Locals × β) (s' : LfnState × β), Same s s' →
      OsAgentLab.iterChain v cb fuel cluster base s' = some r →
      iterChain v junk (fun entry => cb entry.toHit) fuel cluster base s = .done (some r) := by
    intro fuel
    induction fuel with
    | zero => exact fun _ _ _ _ _ hnone => nomatch hnone
    | succ fuel ih =>
        intro cluster base s s' hs hrun
        rw [OsAgentLab.iterChain] at hrun
        rw [iterChain]
        by_cases heoc : fat32Eoc ≤ cluster
        · rw [if_pos heoc] at hrun ⊢
          rw [← hrun, hs.2]
        · rw [if_neg heoc] at hrun ⊢
          have hcluster := iterCluster_related v junk cb cluster base hs
          cases hflow : OsAgentLab.iterCluster v cb cluster base s' with
          | done result =>
              cases hflow' : iterCluster v junk (fun entry => cb entry.toHit) cluster base s with
              | next t => rw [hflow, hflow'] at hcluster; cases hcluster
              | done result' =>
                  rw [hflow, hflow'] at hcluster
                  rw [hflow] at hrun
                  rw [Flow.done_bind, ← hrun]
                  exact congrArg Flow.done hcluster
          | next t' =>
              cases hflow' : iterCluster v junk (fun entry => cb entry.toHit) cluster base s with
              | done result' => rw [hflow, hflow'] at hcluster; cases hcluster
              | next t =>
                  rw [hflow, hflow'] at hcluster
                  rw [hflow] at hrun
                  rw [Flow.next_bind]
                  dsimp only at hrun
                  cases hread : (fat32ReadFatEntry cluster v).1 with
                  | ok next =>
                      rw [hread] at hrun
                      exact ih next _ t t' hcluster hrun
                  | err e =>
                      rw [hread] at hrun
                      rw [← hrun, hcluster.2]
                  | fault =>
                      rw [hread] at hrun
                      rw [← hrun, hcluster.2]
                  | diverges =>
                      rw [hread] at hrun
                      rw [← hrun, hcluster.2]
  rw [fat32IterDir, fill?_all]
  exact hchain _ _ _ _ (LfnState.init, ctx) ⟨⟨rfl, rfl⟩, rfl⟩ h

end ListModel

end DirBuffers

end OsAgentLab
