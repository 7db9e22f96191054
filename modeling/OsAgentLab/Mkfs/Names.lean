/-
Names in `fat32.c` and in `mkfs_fat32.py`: the kernel and the image writer choose
the same short names and write the same long-name entries.
-/
import OsAgentLab.Fat32.CreateLookup
import OsAgentLab.Mkfs.Image

namespace OsAgentLab

namespace Mkfs

/-- The Python string of a C string. -/
def codes (name : CName) : PyStr := name.map UInt8.toNat

/-- The bytes of a slot. -/
def slotBytes (raw : RawDirent) : List UInt8 := List.ofFn raw

section Characters

/-- A property of all bytes from its 256 cases. -/
theorem byte_cases {P : UInt8 → Prop} (h : ∀ n < 256, P (UInt8.ofNat n)) (c : UInt8) : P c := by
  have hc := h c.toNat c.toNat_lt
  rwa [UInt8.ofNat_toNat] at hc

@[simp] theorem codes_nil : codes [] = [] := rfl

@[simp] theorem codes_cons (c : UInt8) (name : CName) :
    codes (c :: name) = c.toNat :: codes name := rfl

@[simp] theorem codes_append (a b : CName) : codes (a ++ b) = codes a ++ codes b :=
  List.map_append

@[simp] theorem codes_length (name : CName) : (codes name).length = name.length :=
  List.length_map _

theorem codes_take (n : Nat) (name : CName) : codes (name.take n) = (codes name).take n :=
  List.map_take

theorem codes_eq_nil {name : CName} : codes name = [] ↔ name = [] := List.map_eq_nil_iff

@[simp] theorem encode_codes (name : CName) : encode (codes name) = name := by
  induction name with
  | nil => rfl
  | cons c name ih =>
      change UInt8.ofNat c.toNat :: encode (codes name) = c :: name
      rw [ih, UInt8.ofNat_toNat]

/-- What the loops of both programs do to one character. -/
theorem feed_char (c : UInt8) :
    let up := if 97 ≤ c && c ≤ 122 then c - 97 + 65 else c
    let upper := if 97 ≤ c.toNat && c.toNat ≤ 122 then c.toNat - 32 else c.toNat
    (97 ≤ c.toNat && c.toNat ≤ 122) = (97 ≤ c && c ≤ 122) ∧
      isShortChar upper = fat32IsShortChar up ∧
      (if isShortChar upper then upper else underscore) =
        (if !fat32IsShortChar up then (95 : UInt8) else up).toNat := by
  apply byte_cases (P := fun c : UInt8 =>
    let up := if 97 ≤ c && c ≤ 122 then c - 97 + 65 else c
    let upper := if 97 ≤ c.toNat && c.toNat ≤ 122 then c.toNat - 32 else c.toNat
    (97 ≤ c.toNat && c.toNat ≤ 122) = (97 ≤ c && c ≤ 122) ∧
      isShortChar upper = fat32IsShortChar up ∧
      (if isShortChar upper then upper else underscore) =
        (if !fat32IsShortChar up then (95 : UInt8) else up).toNat)
  decide +kernel

end Characters

section Parts

/-- The loop variables of the image writer for those of the kernel. -/
def codesPart (part : OsAgentLab.ShortPart) : ShortPart :=
  ⟨codes part.out, part.needsLfn, part.simple⟩

theorem feed_codes (limit : Nat) (part : OsAgentLab.ShortPart) (c : UInt8) :
    (codesPart part).feed limit c.toNat = codesPart (shortPartStep limit part c) := by
  obtain ⟨hlower, hshort, hkept⟩ := feed_char c
  simp only [hlower] at hshort hkept
  simp only [ShortPart.feed, shortPartStep, codesPart, codes_length, hlower]
  by_cases hlimit : part.out.length < limit
  · rw [if_pos hlimit, if_pos hlimit, hkept, hshort, codes_append]
    rfl
  · rw [if_neg hlimit, if_neg hlimit]

theorem foldl_codes (limit : Nat) (src : CName) (part : OsAgentLab.ShortPart) :
    (codes src).foldl (ShortPart.feed limit) (codesPart part) =
      codesPart (src.foldl (shortPartStep limit) part) := by
  induction src generalizing part with
  | nil => rfl
  | cons c src ih =>
      rw [codes_cons, List.foldl_cons, feed_codes, ih, List.foldl_cons]

/-- Both programs cut the name at its last dot. -/
theorem splitName_codes (name : CName) :
    splitName (codes name) = (codes ((fat32LastDot name).getD (name, [])).1,
      codes ((fat32LastDot name).getD (name, [])).2) := by
  have hmem : dotChar ∈ codes name ↔ (46 : UInt8) ∈ name := by
    rw [codes, List.mem_map]
    constructor
    · rintro ⟨c, hc, hdot⟩
      have hc46 : c = 46 := UInt8.toNat_inj.mp hdot
      rwa [hc46] at hc
    · exact fun h => ⟨46, h, rfl⟩
  have hne : ∀ c : UInt8, decide (c.toNat ≠ dotChar) = decide (c ≠ 46) := by
    intro c
    rw [decide_eq_decide, Ne, Ne, not_iff_not]
    exact ⟨fun h => UInt8.toNat_inj.mp h, fun h => h ▸ rfl⟩
  have hrev : (codes name).reverse = name.reverse.map UInt8.toNat := List.map_reverse.symm
  cases hdot : fat32LastDot name with
  | none =>
      rw [splitName, if_neg fun h => fat32LastDot_none hdot (hmem.mp h)]
      rfl
  | some src =>
      obtain ⟨base, ext⟩ := src
      obtain ⟨rfl, hext⟩ := fat32LastDot_some hdot
      rw [splitName, if_pos (hmem.mpr (by simp)), hrev]
      have hall : ∀ c ∈ ext.reverse.map UInt8.toNat, decide (c ≠ dotChar) = true := by
        intro c hc
        obtain ⟨b, hb, rfl⟩ := List.mem_map.mp hc
        rw [hne, decide_eq_true_eq]
        rintro rfl
        exact hext (List.mem_reverse.mp hb)
      have hsplit : (base ++ 46 :: ext).reverse.map UInt8.toNat =
          ext.reverse.map UInt8.toNat ++ dotChar :: base.reverse.map UInt8.toNat := by
        simp [dotChar]
      rw [hsplit, List.dropWhile_append_of_pos hall, List.takeWhile_append_of_pos hall]
      simp [codes]

/-- Both programs collect the same characters and flags. -/
theorem shortParts_codes (name : CName) :
    (shortParts (splitName (codes name))).1.out = codes (fat32ShortParts name).base ∧
      (shortParts (splitName (codes name))).2.out = codes (fat32ShortParts name).ext ∧
      ((shortParts (splitName (codes name))).2.needsLfn ||
        (8 < (splitName (codes name)).1.length || 3 < (splitName (codes name)).2.length)) =
          (fat32ShortParts name).needsLfn ∧
      ((shortParts (splitName (codes name))).2.simple &&
        !(8 < (splitName (codes name)).1.length || 3 < (splitName (codes name)).2.length)) =
          (fat32ShortParts name).simple := by
  rw [splitName_codes]
  simp only [fat32ShortParts]
  generalize (fat32LastDot name).getD (name, []) = src
  obtain ⟨base, ext⟩ := src
  have hstart : (if codes base = [] then ⟨[underscore], true, true⟩ else ⟨[], false, true⟩ :
      ShortPart) = codesPart (if base = [] then ⟨[95], true, true⟩ else ⟨[], false, true⟩) := by
    by_cases hbase : base = []
    · rw [if_pos (codes_eq_nil.mpr hbase), if_pos hbase]
      rfl
    · rw [if_neg fun h => hbase (codes_eq_nil.mp h), if_neg hbase]
      rfl
  have hbase : (shortParts (codes base, codes ext)).1 = codesPart (base.foldl (shortPartStep 8)
      (if base = [] then ⟨[95], true, true⟩ else ⟨[], false, true⟩)) := by
    simp only [shortParts]
    rw [hstart, foldl_codes]
  have hext : (shortParts (codes base, codes ext)).2 =
      (codes ext).foldl (ShortPart.feed 3)
        { (shortParts (codes base, codes ext)).1 with out := [] } := rfl
  rw [hbase] at hext
  generalize base.foldl (shortPartStep 8)
    (if base = [] then ⟨[95], true, true⟩ else ⟨[], false, true⟩) = part at hbase hext ⊢
  have hext' : (shortParts (codes base, codes ext)).2 =
      codesPart (ext.foldl (shortPartStep 3) ⟨[], part.needsLfn, part.simple⟩) :=
    hext.trans (foldl_codes 3 ext ⟨[], part.needsLfn, part.simple⟩)
  rw [hbase, hext', codes_length, codes_length]
  exact ⟨rfl, rfl, rfl, rfl⟩

theorem ljust_codes (width : Nat) (s : CName) : encode (ljust width (codes s)) = padTo width s := by
  have hpad : codes (List.replicate (width - s.length) 32) =
      List.replicate (width - s.length) space := by
    simp [codes, space]
  rw [ljust, codes_length, ← hpad, ← codes_append, encode_codes, padTo]

theorem encode_append (a b : PyStr) : encode (a ++ b) = encode a ++ encode b := List.map_append

theorem digits_codes : ∀ n < 100, digits n = codes (tailDigits n) := by decide +kernel

/-- Both programs make the same candidate with the tail `~n`. -/
theorem tailName_codes (parts : ShortName) {n : Nat} (hn : n < 100) :
    tailName (codes parts.base) (codes parts.ext) n = tailShort parts n := by
  have hlen := tailDigits_length_le n hn
  have hsuffix : tilde :: codes (tailDigits n) = codes (126 :: tailDigits n) := rfl
  simp only [tailName, tailShort]
  rw [digits_codes n hn, hsuffix, codes_length, List.length_cons, Nat.add_comm 1,
    if_neg (by omega), ← codes_take, ← codes_append, encode_append, ljust_codes, ljust_codes,
    shortField]

end Parts

section Choice

variable {v : Vol} {c : Nat} {l : List Nat} {name : CName} {used : List (List UInt8)}
  {img : Fat32Image}

/-- The set `used` holds the short names of the directory; it may leave out `.` and `..`. -/
def UsedNames (v : Vol) (l : List Nat) (used : List (List UInt8)) : Prop :=
  ∀ short, (46 : UInt8) ∉ short → (short ∈ used ↔ ∃ hit ∈ v.listing l, hit.raw.name = short)

theorem UsedNames.free_iff (h : UsedNames v l used) {short : List UInt8}
    (hdot : (46 : UInt8) ∉ short) : ShortFree v l short ↔ short ∉ used := by
  rw [h short hdot, ShortFree]
  exact ⟨fun hfree ⟨hit, hhit, heq⟩ => hfree hit hhit heq, fun hnot hit hhit heq =>
    hnot ⟨hit, hhit, heq⟩⟩

/-- No short name that the programs make holds a dot. -/
theorem dot_notMem_shortField {base ext : List UInt8}
    (hbase : ∀ ch ∈ base, fat32IsShortChar ch = true)
    (hext : ∀ ch ∈ ext, fat32IsShortChar ch = true) : (46 : UInt8) ∉ shortField base ext := by
  have hpad : ∀ n (s : List UInt8), (∀ ch ∈ s, fat32IsShortChar ch = true) →
      (46 : UInt8) ∉ padTo n s := by
    intro n s hs hmem
    rcases List.mem_append.mp hmem with hmem | hmem
    · exact absurd (hs 46 hmem) (by decide)
    · exact absurd (List.eq_of_mem_replicate hmem) (by decide)
  intro hmem
  rcases List.mem_append.mp hmem with hmem | hmem
  · exact hpad 8 base hbase hmem
  · exact hpad 3 ext hext hmem

theorem dot_notMem_tailShort (name : CName) {n : Nat} (hn : n < 100) :
    (46 : UInt8) ∉ tailShort (fat32ShortParts name) n := by
  obtain ⟨_, _, _, hbase, hext, _⟩ := fat32ShortParts_spec name
  apply dot_notMem_shortField ?_ hext
  intro ch hch
  rcases List.mem_append.mp hch with hch | hch
  · exact hbase ch (List.mem_of_mem_take hch)
  · rcases List.mem_cons.mp hch with rfl | hch
    · decide
    · exact tailDigits_short n hn ch hch

/-- Both programs take the first tail whose name is free. -/
theorem tails_agree (g : Geometry v) (h : v.Chain c l) (hused : UsedNames v l used)
    (tails : List Nat) (hlt : ∀ n ∈ tails, n < 100) :
    (∃ short, fat32ShortTails c (fat32ShortParts name) tails v = (.ok (short, true), v) ∧
      (tails.map (tailName (codes (fat32ShortParts name).base)
        (codes (fat32ShortParts name).ext))).find? (fun short => short ∉ used) = some short) ∨
    (fat32ShortTails c (fat32ShortParts name) tails v = (.err .nospc, v) ∧
      (tails.map (tailName (codes (fat32ShortParts name).base)
        (codes (fat32ShortParts name).ext))).find? (fun short => short ∉ used) = none) := by
  induction tails with
  | nil => exact Or.inr ⟨rfl, rfl⟩
  | cons n rest ih =>
      have hn := hlt n List.mem_cons_self
      have hfree := hused.free_iff (dot_notMem_tailShort name hn)
      rw [fat32ShortTails, Prog.bind_ok (fat32ShortExists_iff g h _), List.map_cons,
        List.find?_cons, tailName_codes _ hn]
      by_cases hmem : tailShort (fat32ShortParts name) n ∈ used
      · have hnot : ¬ ShortFree v l (tailShort (fat32ShortParts name) n) := fun h =>
          hfree.mp h hmem
        simp only [hmem, hnot, not_true_eq_false, decide_false, Bool.not_false, if_true]
        exact ih fun m hm => hlt m (List.mem_cons_of_mem n hm)
      · have hyes := hfree.mpr hmem
        simp only [hmem, hyes, not_false_eq_true, decide_true, Bool.not_true, Bool.false_eq_true,
          if_false]
        exact Or.inl ⟨_, rfl, rfl⟩

/-- Both programs choose the same short name with the same flag, or both fail. -/
theorem makeShortName_agree (g : Geometry v) (h : v.Chain c l) (hused : UsedNames v l used) :
    (∃ made, fat32MakeShortName c name v = (.ok made, v) ∧
      makeShortName (codes name) used img = (.ok made, img)) ∨
    (fat32MakeShortName c name v = (.err .nospc, v) ∧
      makeShortName (codes name) used img = (.err .runtimeError, img)) := by
  obtain ⟨hne, _, _, hbase, hext, _⟩ := fat32ShortParts_spec name
  obtain ⟨hout, hout', hneeds, hsimple⟩ := shortParts_codes name
  have hplain : encode (ljust 8 (codes (fat32ShortParts name).base) ++
      ljust 3 (codes (fat32ShortParts name).ext)) =
      shortField (fat32ShortParts name).base (fat32ShortParts name).ext := by
    rw [encode_append, ljust_codes, ljust_codes, shortField]
  have hfree := hused.free_iff (dot_notMem_shortField hbase hext)
  have hclean : ¬ codes (fat32ShortParts name).base = [] := fun h => hne (codes_eq_nil.mp h)
  -- the tails, tried when the plain name does not do
  have htails : ∀ made : Mk (List UInt8 × Bool),
      made = (((List.range' 1 99).map (tailName (codes (fat32ShortParts name).base)
        (codes (fat32ShortParts name).ext))).find? (fun short => short ∉ used)).elim
          (Prog.fail .runtimeError) (fun short => pure (short, true)) →
      (∃ short, fat32ShortTails c (fat32ShortParts name) (List.range' 1 99) v = (.ok short, v) ∧
        made img = (.ok short, img)) ∨
      (fat32ShortTails c (fat32ShortParts name) (List.range' 1 99) v = (.err .nospc, v) ∧
        made img = (.err .runtimeError, img)) := by
    rintro _ rfl
    have hlt : ∀ n ∈ List.range' 1 99, n < 100 := by
      intro n hn
      have := (List.mem_range'_1.mp hn).2
      omega
    rcases @tails_agree v c l name used g h hused _ hlt with ⟨short, hrun, hfind⟩ | ⟨hrun, hfind⟩
    · exact Or.inl ⟨_, hrun, by rw [hfind]; rfl⟩
    · exact Or.inr ⟨hrun, by rw [hfind]; rfl⟩
  rw [fat32MakeShortName]
  simp only [makeShortName, hout, hout', hneeds, hsimple, hplain, if_neg hclean]
  by_cases hs : (fat32ShortParts name).simple = true
  · rw [if_pos hs, Prog.bind_ok (fat32ShortExists_iff g h _)]
    by_cases hmem : shortField (fat32ShortParts name).base (fat32ShortParts name).ext ∈ used
    · rw [if_pos (by rw [decide_eq_false fun h => hfree.mp h hmem]; rfl),
        if_neg fun h => h.2 hmem]
      exact htails _ rfl
    · rw [if_neg (by rw [decide_eq_true (hfree.mpr hmem)]; decide), if_pos ⟨hs, hmem⟩]
      exact Or.inl ⟨_, rfl, rfl⟩
  · rw [if_neg hs, Prog.pure_bind_apply, if_pos rfl, if_neg fun h => hs h.1]
    exact htails _ rfl

end Choice

section Entries

variable {v v' : Vol} {c : Nat} {l : List Nat} {name : CName} {used : List (List UInt8)}
  {img : Fat32Image}

theorem checksumStep_codes (sum b : UInt8) :
    (sum.toNat % 2 * 128 + sum.toNat / 2 + b.toNat) % 256 = (lfnChecksumStep sum b).toNat := by
  have hshift : ∀ sum : UInt8, sum.toNat % 2 * 128 + sum.toNat / 2 =
      ((if sum &&& 1 ≠ 0 then (0x80 : UInt8) else 0) + (sum >>> 1)).toNat := by
    apply byte_cases
    decide +kernel
  rw [hshift, lfnChecksumStep]
  exact (UInt8.toNat_add _ _).symm

theorem lfnChecksum_codes (short : List UInt8) :
    lfnChecksum short = (fat32LfnChecksum short).toNat := by
  have hfold : ∀ sum : UInt8, short.foldl
      (fun total b => ((total % 2) * 128 + total / 2 + b.toNat) % 256) sum.toNat =
        (short.foldl lfnChecksumStep sum).toNat := by
    induction short with
    | nil => exact fun _ => rfl
    | cons b short ih =>
        intro sum
        rw [List.foldl_cons, List.foldl_cons, checksumStep_codes, ih]
  exact hfold 0

theorem lfnChar_codes (name : CName) (idx : Nat) :
    lfnChar (codes name) idx = fat32LfnChar name idx := by
  rw [lfnChar, fat32LfnChar, codes_length]
  by_cases h : idx < name.length
  · rw [if_pos h, dif_pos h, List.getD_eq_getElem _ _ (by rwa [codes_length])]
    simp [codes]
  · rw [if_neg h, dif_neg h]

/-- Where the characters of a long-name entry lie. -/
theorem entry_layout (unit : Nat → Nat) (ord checksum : UInt8) :
    [ord] ++ (List.range 5).flatMap (fun i => packH (unit i)) ++ [0x0F, 0, checksum] ++
        (List.range 6).flatMap (fun i => packH (unit (5 + i))) ++ [0, 0] ++
        (List.range 2).flatMap (fun i => packH (unit (11 + i))) =
      slotBytes fun i =>
        if i.val = 0 then ord
        else if i.val = 11 then 0x0F
        else if i.val = 13 then checksum
        else if 1 ≤ i.val ∧ i.val < 11 then byteOf (unit ((i.val - 1) / 2)) ((i.val - 1) % 2)
        else if 14 ≤ i.val ∧ i.val < 26 then
          byteOf (unit (5 + (i.val - 14) / 2)) ((i.val - 14) % 2)
        else if 28 ≤ i.val then byteOf (unit (11 + (i.val - 28) / 2)) ((i.val - 28) % 2)
        else 0 := rfl

/-- One long-name entry, byte for byte. -/
theorem buildLfnEntry_codes (name : CName) {ord : UInt8} (checksum : UInt8)
    (hord : (ord.toNat % 32 - 1) * 13 = lfnBase ord) (hbase : lfnBase ord < 300) :
    buildLfnEntry (codes name) ord.toNat checksum.toNat =
      slotBytes (fat32FillLfnEntry name ord checksum) := by
  have hunit : ∀ j, j < 64 → lfnChar (codes name) (lfnBase ord + j) =
      fat32LfnChar name (u64 (lfnBase ord + j)) := by
    intro j hj
    rw [lfnChar_codes, u64_of_lt (by omega)]
  have hlayout := entry_layout (fun j => lfnChar (codes name) (lfnBase ord + j)) ord checksum
  rw [buildLfnEntry, hord, UInt8.ofNat_toNat, UInt8.ofNat_toNat]
  simp only [Nat.add_assoc]
  refine hlayout.trans ?_
  rw [slotBytes, slotBytes]
  congr 1
  funext i
  have hi := i.isLt
  rw [fat32FillLfnEntry]
  simp only [hunit _ (show (i.val - 1) / 2 < 64 by omega),
    hunit _ (show 5 + (i.val - 14) / 2 < 64 by omega),
    hunit _ (show 11 + (i.val - 28) / 2 < 64 by omega)]

theorem lfnOrd_codes : ∀ n, n < 21 → ∀ i, i < n →
    (if i = 0 then n ||| 0x40 else n - i) = (lfnOrd n i).toNat ∧
      ((lfnOrd n i).toNat % 32 - 1) * 13 = lfnBase (lfnOrd n i) ∧ lfnBase (lfnOrd n i) < 300 := by
  decide +kernel

/-- Both programs write the same long-name entries in the same order. -/
theorem lfnEntries_codes (hlen : name.length ≤ 255) (short : List UInt8) (needsLfn : Bool) :
    lfnEntries (codes name) short needsLfn img =
      (.ok ((lfnRun name (lfnCountOf name needsLfn) (fat32LfnChecksum short)).map slotBytes),
        img) := by
  have hcount : (name.length + 12) / 13 < 21 := by omega
  simp only [lfnEntries, codes_length]
  cases needsLfn with
  | false => rfl
  | true =>
      rw [if_neg (by decide), if_neg (by omega), Prog.pure_apply, lfnRun, List.map_map,
        lfnCountOf, if_pos rfl]
      congr 2
      refine List.map_congr_left fun i hi => ?_
      obtain ⟨hord, hbase, hsmall⟩ := lfnOrd_codes _ hcount i (List.mem_range.mp hi)
      rw [hord, lfnChecksum_codes]
      exact buildLfnEntry_codes name _ hbase hsmall

theorem isInvalidChar_codes (c : UInt8) : isInvalidChar c.toNat = fat32IsInvalidChar c := by
  apply byte_cases (P := fun c : UInt8 => isInvalidChar c.toNat = fat32IsInvalidChar c)
  decide +kernel

/-- The image writer accepts the names that the kernel accepts. -/
theorem ensureAsciiName_codes (hname : NameOk name) :
    ensureAsciiName (codes name) img = (.ok (), img) := by
  obtain ⟨hne, _, _, hall⟩ := hname.unfold
  have hvalid : ¬ (codes name = [] ∨ (codes name).any isInvalidChar = true) := by
    rintro (hnil | hany)
    · exact hne (codes_eq_nil.mp hnil)
    · obtain ⟨n, hn, hbad⟩ := List.any_eq_true.mp hany
      obtain ⟨c, hc, rfl⟩ := List.mem_map.mp hn
      rw [isInvalidChar_codes, hall c hc] at hbad
      cases hbad
  rw [ensureAsciiName, if_neg hvalid, Prog.pure_apply]

/-- The slots of a new entry as they lie on the disk, behind the long-name entries that
the image writer builds. -/
theorem fat32AddEntry_entries (g : Geometry v) (h : v.Chain c l) {made : List UInt8 × Bool}
    (hmade : fat32MakeShortName c name v = (.ok made, v)) {attr : UInt8} {added : AddedEntry}
    (hrun : fat32AddEntry c name attr v = (.ok added, v')) :
    ∃ ext left right, added.index = left.length + lfnCountOf name made.2 ∧
      (v'.raws (l ++ ext)).map slotBytes = left ++
        (lfnRun name (lfnCountOf name made.2) (fat32LfnChecksum made.1)).map slotBytes ++
          slotBytes (mkDirent made.1 (entryAttr attr) added.cluster 0) :: right := by
  obtain ⟨short, needsLfn⟩ := made
  rw [fat32AddEntry, Prog.bind_ok hmade] at hrun
  dsimp only at hrun
  obtain ⟨ext, v₁, _, hcases⟩ := fat32PlaceEntry_spec g h name attr short needsLfn
  rcases hcases with ⟨_, _, hfail⟩ | ⟨_, ⟨_, _, hfail⟩ | ⟨left, free, right, own, added', v₂, v₃,
    hplace, hadded⟩⟩
  · rw [hfail] at hrun
    cases hrun
  · rw [hfail] at hrun
    cases hrun
  · rw [hplace] at hrun
    obtain ⟨hvalue, rfl⟩ := Prod.mk.inj hrun
    obtain rfl := Outcome.ok.inj hvalue
    refine ⟨ext, left.map slotBytes, right.map slotBytes, ?_, ?_⟩
    · rw [hadded.index, List.length_map]
    · rw [hadded.written.raws, entryRun]
      simp

/-- The kernel and the image writer choose the same short name for a name, with the same
need of long-name entries, and the entries that the kernel writes in front of the short
one are those of the image writer; or both programs fail. -/
theorem names_agree (g : Geometry v) (h : v.Chain c l) (hused : UsedNames v l used)
    (hname : NameOk name) :
    ensureAsciiName (codes name) img = (.ok (), img) ∧
    ((∃ made entries, fat32MakeShortName c name v = (.ok made, v) ∧
        makeShortName (codes name) used img = (.ok made, img) ∧
        lfnEntries (codes name) made.1 made.2 img = (.ok entries, img) ∧
        ∀ attr added v', fat32AddEntry c name attr v = (.ok added, v') →
          ∃ ext left right, added.index = left.length + entries.length ∧
            (v'.raws (l ++ ext)).map slotBytes = left ++ entries ++
              slotBytes (mkDirent made.1 (entryAttr attr) added.cluster 0) :: right) ∨
      (fat32MakeShortName c name v = (.err .nospc, v) ∧
        makeShortName (codes name) used img = (.err .runtimeError, img))) := by
  refine ⟨ensureAsciiName_codes hname, ?_⟩
  rcases @makeShortName_agree v c l name used img g h hused with ⟨made, hkernel, hmkfs⟩ | hfail
  · obtain ⟨_, _, hlen, _⟩ := hname.unfold
    refine Or.inl ⟨made, _, hkernel, hmkfs, lfnEntries_codes hlen made.1 made.2, ?_⟩
    intro attr added v' hrun
    obtain ⟨ext, left, right, hindex, hraws⟩ := fat32AddEntry_entries g h hkernel hrun
    refine ⟨ext, left, right, ?_, hraws⟩
    rw [hindex, List.length_map, lfnRun_length]
  · exact Or.inr hfail

theorem names_agree_readme :
    NameOk readmeName ∧
    ((∃ made entries, fat32MakeShortName 2 readmeName emptyKernel.vol = (.ok made, emptyKernel.vol) ∧
        makeShortName (codes readmeName) [] (blankImage 100 1) = (.ok made, blankImage 100 1) ∧
        lfnEntries (codes readmeName) made.1 made.2 (blankImage 100 1) =
          (.ok entries, blankImage 100 1)) ∨
      fat32MakeShortName 2 readmeName emptyKernel.vol = (.err .nospc, emptyKernel.vol)) := by
  have hname : NameOk readmeName := by decide
  refine ⟨hname, ?_⟩
  have hused : UsedNames emptyKernel.vol [2] [] := by
    intro short _
    rw [emptyKernel_listing]
    simp
  rcases (@names_agree _ _ _ _ _ (blankImage 100 1) emptyKernel_geometry emptyKernel_root hused
    hname).2 with ⟨made, entries, hkernel, hmkfs, hentries, _⟩ | ⟨hkernel, _⟩
  · exact Or.inl ⟨made, entries, hkernel, hmkfs, hentries⟩
  · exact Or.inr hkernel

end Entries

end Mkfs

end OsAgentLab
