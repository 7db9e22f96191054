/-
The walk over the tokens of a blob, read off its bytes, and the exact condition
under which the kernel's scanner stays inside of the blob and of its stack.
-/
import OsAgentLab.Fdt.Inside

namespace OsAgentLab

namespace Fdt

section Tokens

variable (b : Nat → UInt8) (total dtb : Nat) (hdr : Header)

/-- Where the scanner is between two tokens. -/
structure Pos where
  p : Nat
  depth : Int
  addrCells : Nat
  sizeCells : Nat
deriving DecidableEq, Repr

def Scan.pos (s : Scan) : Pos := ⟨s.p, s.depth, s.addrCells, s.sizeCells⟩

/-- The cell counts behind a property. -/
def Pos.cells (name value len : Nat) (pos : Pos) : Pos :=
  if pos.depth = 1 ∧ 4 ≤ len then
    if isStr b name nameAddressCells then { pos with addrCells := be32 b value }
    else if isStr b name nameSizeCells then { pos with sizeCells := be32 b value }
    else pos
  else pos

/-- The property at `q` is refused. -/
def Refused (q : Nat) : Prop :=
  hdr.sizeStrings ≤ be32 b (q + 4) ∨
    hdr.offStrings + hdr.sizeStrings ≤ hdr.offStrings + be32 b (q + 4) ∨
    hdr.structEnd < q + 8 + be32 b q

instance (q : Nat) : Decidable (Refused b hdr q) := by
  unfold Refused
  infer_instance

/-- The next token behind a node's name, whose length is given by the bytes. -/
def nextBegin (pos : Pos) (q : Nat) : Option Pos :=
  let n := nameLen b (hdr.structEnd - q) q
  if hdr.structEnd ≤ q + n ∨ hdr.structEnd < align4 dtb (q + n + 1) then none
  else some { pos with p := align4 dtb (q + n + 1), depth := pos.depth + 1 }

/-- The next token behind a property. -/
def nextProp (pos : Pos) (q : Nat) : Option Pos :=
  if hdr.structEnd < q + 8 ∨ Refused b hdr q ∨
      hdr.structEnd < align4 dtb (q + 8 + be32 b q) then none
  else
    let pos := pos.cells b (hdr.offStrings + be32 b (q + 4)) (q + 8) (be32 b q)
    some { pos with p := align4 dtb (q + 8 + be32 b q) }

/-- Behind the word of a token. -/
def Pos.skip (pos : Pos) : Pos := { pos with p := pos.p + 4 }

/-- The next token; `none` where the scan ends. -/
def next (pos : Pos) : Option Pos :=
  let token := be32 b pos.p
  if hdr.structEnd < pos.p + 4 then none
  else if token = 1 then nextBegin b dtb hdr pos.skip pos.skip.p
  else if token = 2 then some { pos.skip with depth := pos.depth - 1 }
  else if token = 3 then nextProp b dtb hdr pos.skip pos.skip.p
  else if token = 4 then some pos.skip
  else none

/-- The tokens that are reached from `pos`. -/
inductive Reaches : Pos → Pos → Prop
  | refl (pos : Pos) : Reaches pos pos
  | step {pos pos' pos'' : Pos} : next b dtb hdr pos = some pos' → Reaches pos' pos'' →
      Reaches pos pos''

/-- The names that a property's name is compared with. -/
def comparedNames (depth : Int) : List Lit :=
  (if depth = 1 then [nameAddressCells, nameSizeCells] else []) ++
    if 0 < depth then [nameDeviceType, nameCompatible, nameReg] else []

/-- A cell count that is stored lies inside. -/
def CellsInside (name value len : Nat) (depth : Int) : Prop :=
  depth = 1 → 4 ≤ len →
    isStr b name nameAddressCells = true ∨ isStr b name nameSizeCells = true → value + 4 ≤ total

/-- What the three properties of a node need; `stack` has 32 elements. -/
structure NodeInside (name value len : Nat) (pos : Pos) : Prop where
  deviceType : isStr b name nameDeviceType = true → 6 ≤ len →
    ¬ CutShort b total value nameMemory ∧
      (isPrefix b value nameMemory = true → pos.depth ≤ 32)
  compatible : isStr b name nameCompatible = true →
    ListInside b total value len nameVirtioMmio 0 ∧
      (ListHas b value len nameVirtioMmio 0 → pos.depth ≤ 32)
  reg : isStr b name nameReg = true → u32 (u32 (pos.addrCells + pos.sizeCells) * 4) ≤ len →
    (pos.addrCells + pos.sizeCells = 0 ∨
      value + 4 * (pos.addrCells + pos.sizeCells) ≤ total) ∧ pos.depth ≤ 32

/-- What a property needs that is not refused. -/
structure ValueInside (name value len : Nat) (pos : Pos) : Prop where
  names : ∀ lit ∈ comparedNames pos.depth, ¬ Cut b total name lit
  cells : CellsInside b total name value len pos.depth
  node : 0 < pos.depth → NodeInside b total name value len pos

/-- What the token at `pos` needs: its words lie inside, a node's name ends before
the blob does and its depth is an index of `stack` from below, a node that ends
was an element of `stack`, and a property's name and value are read inside. -/
structure TokenInside (pos : Pos) : Prop where
  word : pos.p + 4 ≤ total
  begin : be32 b pos.p = 1 →
    NameInside b total (hdr.structEnd - pos.skip.p) pos.skip.p ∧
      (pos.skip.p + nameLen b (hdr.structEnd - pos.skip.p) pos.skip.p < hdr.structEnd →
        0 ≤ pos.depth)
  last : be32 b pos.p = 2 → pos.depth ≤ 32
  prop : be32 b pos.p = 3 → pos.skip.p + 8 ≤ hdr.structEnd →
    pos.skip.p + 8 ≤ total ∧ (¬ Refused b hdr pos.skip.p →
      ValueInside b total (hdr.offStrings + be32 b (pos.skip.p + 4)) (pos.skip.p + 8)
        (be32 b pos.skip.p) pos.skip)

/-- The position of the first token. -/
def Pos.start (offStruct : Nat) : Pos := ⟨offStruct, 0, 2, 2⟩

/-- Every token that is reached, and is not behind the end of the structure block,
has what it needs. -/
def Inside : Prop :=
  ∀ pos, Reaches b dtb hdr (Pos.start hdr.offStruct) pos → pos.p + 4 ≤ hdr.structEnd →
    TokenInside b total hdr pos

/-- The scan comes to an end and reads nothing outside of the blob or of its stack,
whatever it is asked for. -/
def StaysInside (req : Request) (junk : Nat → NodeState) : Prop :=
  ∃ enough, ∀ fuel, enough ≤ fuel →
    fdtScan (blobMem b total) fuel dtb req junk ≠ .error .outside ∧
      fdtScan (blobMem b total) fuel dtb req junk ≠ .error .endless

end Tokens

section Steps

variable {b : Nat → UInt8} {total dtb fuel : Nat} {hdr : Header} {s : Scan}

theorem isStr_head {a : Nat} {c : UInt8} {lit : Lit} (h : isStr b a (c :: lit) = true) :
    b a = c := by
  rw [isStr, Bool.and_eq_true, beq_iff_eq] at h
  exact h.1

theorem stackIndex_settles {i : Int} (hi : 0 ≤ i) : Settles (stackIndex i) (i < 32) (.ok i.toNat) := by
  constructor
  · intro hlt
    exact if_pos ⟨hi, hlt⟩
  · intro hge
    exact if_neg fun hand => hge hand.2

theorem setNode_settles (f : NodeState → NodeState) (hpos : 0 < s.depth) :
    ∃ t, Settles (setNode s f) (s.depth ≤ 32) (.ok t) ∧ t.pos = s.pos := by
  refine ⟨_, Settles.congr (Settles.bind (stackIndex_settles (by omega)) (Settles.done _)) ?_, rfl⟩
  rw [and_true]
  omega

theorem pushNode_settles : ∃ t, Settles (pushNode s) (0 ≤ s.depth) (.ok t) ∧
    t.pos = { s.pos with depth := s.depth + 1 } := by
  unfold pushNode
  by_cases hlt : s.depth < 32
  · rw [if_pos hlt]
    by_cases hpos : 0 ≤ s.depth
    · refine ⟨_, Settles.congr (Settles.bind (stackIndex_settles hpos) (Settles.done _)) ?_, rfl⟩
      simp [hpos, hlt]
    · refine ⟨{ s with depth := s.depth + 1 }, ⟨fun h => absurd h hpos, fun _ => ?_⟩, rfl⟩
      rw [stackIndex, if_neg fun hand => hpos hand.1]
      rfl
  · rw [if_neg hlt]
    exact ⟨_, (Settles.done _).congr (by simp only [iff_true]; omega), rfl⟩

theorem popNode_settles (req : Request) :
    ∃ t, Settles (popNode req s) (s.depth ≤ 32) (.ok t) ∧
      t.pos = { s.pos with depth := s.depth - 1 } := by
  unfold popNode
  by_cases hpos : 0 < s.depth
  · rw [if_pos hpos]
    refine ⟨_, Settles.congr (Settles.bind (stackIndex_settles (by omega)) (Settles.done _)) ?_, rfl⟩
    rw [and_true]
    omega
  · rw [if_neg hpos]
    exact ⟨_, (Settles.done _).congr (by simp only [iff_true]; omega), rfl⟩

variable {name value len : Nat}

theorem cellsProp_settles :
    ∃ t, Settles (cellsProp kernelOps (blobMem b total) name value len s)
      ((s.depth = 1 → ¬ Cut b total name nameAddressCells ∧ ¬ Cut b total name nameSizeCells) ∧
        CellsInside b total name value len s.depth) (.ok t) ∧
      t.pos = s.pos.cells b name value len := by
  obtain ⟨v, hv, hviff⟩ := @strcmp_settles b total name nameAddressCells (by decide)
  obtain ⟨w, hw, hwiff⟩ := @strcmp_settles b total name nameSizeCells (by decide)
  unfold cellsProp
  by_cases hone : s.depth = 1
  · rw [if_pos hone]
    by_cases haddr : v = 0 ∧ 4 ≤ len
    · have hstr := hviff.mp haddr.1
      refine ⟨{ s with addrCells := be32 b value }, Settles.congr (Settles.bind hv
        (q := value + 4 ≤ total) ?_) ?_, ?_⟩
      · rw [if_pos haddr]
        refine Settles.congr (Settles.bind (fdt32_settles value) (Settles.done _)) (by simp)
      · constructor
        · rintro ⟨hnames, hcells⟩
          exact ⟨(hnames hone).1, hcells hone haddr.2 (Or.inl hstr)⟩
        · rintro ⟨hcut, hin⟩
          exact ⟨fun _ => ⟨hcut, not_cut_of_isStr (by decide) hstr hcut⟩, fun _ _ _ => hin⟩
      · rw [Pos.cells, if_pos ⟨hone, haddr.2⟩, if_pos hstr]
        rfl
    · by_cases hsize : w = 0 ∧ 4 ≤ len
      · have hstr := hwiff.mp hsize.1
        have hno : ¬ isStr b name nameAddressCells = true := fun h => haddr ⟨hviff.mpr h, hsize.2⟩
        refine ⟨{ s with sizeCells := be32 b value }, Settles.congr (Settles.bind hv
          (q := ¬ Cut b total name nameSizeCells ∧ value + 4 ≤ total) ?_) ?_, ?_⟩
        · rw [if_neg haddr]
          refine Settles.bind hw ?_
          rw [if_pos hsize]
          exact Settles.congr (Settles.bind (fdt32_settles value) (Settles.done _)) (by simp)
        · constructor
          · rintro ⟨hnames, hcells⟩
            exact ⟨(hnames hone).1, (hnames hone).2, hcells hone hsize.2 (Or.inr hstr)⟩
          · rintro ⟨hcut, hcut', hin⟩
            exact ⟨fun _ => ⟨hcut, hcut'⟩, fun _ _ _ => hin⟩
        · rw [Pos.cells, if_pos ⟨hone, hsize.2⟩, if_neg hno, if_pos hstr]
          rfl
      · refine ⟨s, Settles.congr (Settles.bind hv (q := ¬ Cut b total name nameSizeCells) ?_) ?_, ?_⟩
        · rw [if_neg haddr]
          refine Settles.congr (Settles.bind hw (q := True) ?_) (by simp)
          rw [if_neg hsize]
          exact Settles.done _
        · constructor
          · rintro ⟨hnames, _⟩
            exact hnames hone
          · rintro ⟨hcut, hcut'⟩
            refine ⟨fun _ => ⟨hcut, hcut'⟩, fun _ hlen hstr => ?_⟩
            rcases hstr with hstr | hstr
            · exact absurd ⟨hviff.mpr hstr, hlen⟩ haddr
            · exact absurd ⟨hwiff.mpr hstr, hlen⟩ hsize
        · unfold Pos.cells
          split
          next hin =>
            rw [if_neg fun h => haddr ⟨hviff.mpr h, hin.2⟩,
              if_neg fun h => hsize ⟨hwiff.mpr h, hin.2⟩]
          next => rfl
  · rw [if_neg hone]
    refine ⟨s, (Settles.done _).congr ?_, ?_⟩
    · simp only [iff_true]
      exact ⟨fun h => absurd h hone, fun h => absurd h hone⟩
    · rw [Pos.cells, if_neg fun hand => hone hand.1]

theorem deviceTypeProp_settles (hpos : 0 < s.depth) (hvalue : value ≤ total) :
    ∃ t, Settles (deviceTypeProp kernelOps (blobMem b total) value len s)
      (6 ≤ len → ¬ CutShort b total value nameMemory ∧
        (isPrefix b value nameMemory = true → s.depth ≤ 32)) (.ok t) ∧ t.pos = s.pos := by
  obtain ⟨v, hv, hiff⟩ := @memcmp_settles b total value nameMemory hvalue
  obtain ⟨t, ht, hsame⟩ :=
    @setNode_settles s (fun cur => { cur with isMemory := true }) hpos
  unfold deviceTypeProp
  by_cases hlen : 6 ≤ len
  · rw [if_pos hlen]
    by_cases hzero : v = 0
    · refine ⟨t, Settles.congr (Settles.bind hv (q := s.depth ≤ 32) ?_) ?_, hsame⟩
      · rw [if_pos hzero]
        exact ht
      · simp [hlen, hiff.mp hzero]
    · refine ⟨s, Settles.congr (Settles.bind hv (q := True) ?_) ?_, rfl⟩
      · rw [if_neg hzero]
        exact Settles.done _
      · have hno : ¬ isPrefix b value nameMemory = true := fun h => hzero (hiff.mpr h)
        simp [hlen, hno]
  · rw [if_neg hlen]
    exact ⟨s, (Settles.done _).congr (by simp [hlen]), rfl⟩

theorem compatibleProp_settles (hpos : 0 < s.depth) (hsmall : total ≤ 16777216)
    (hfuel : total < fuel) :
    ∃ t, Settles (compatibleProp kernelOps (blobMem b total) fuel value len s)
      (ListInside b total value len nameVirtioMmio 0 ∧
        (ListHas b value len nameVirtioMmio 0 → s.depth ≤ 32)) (.ok t) ∧ t.pos = s.pos := by
  obtain ⟨hit, hhit, hiff⟩ := @fdtStrlistLoop_settles b total fuel value len fuel 0 nameVirtioMmio
    (by decide) hsmall hfuel (by omega) (by omega) fun j hj => absurd hj (by omega)
  obtain ⟨t, ht, hsame⟩ :=
    @setNode_settles s (fun cur => { cur with isVirtio := true }) hpos
  cases hit with
  | true =>
      have hhas := hiff.mp rfl
      refine ⟨t, Settles.congr (Settles.bind hhit (q := s.depth ≤ 32) ht) ?_, hsame⟩
      simp [hhas]
  | false =>
      have hno : ¬ ListHas b value len nameVirtioMmio 0 := fun h => by
        cases hiff.mpr h
      refine ⟨s, Settles.congr (Settles.bind hhit (q := True) (Settles.done _)) ?_, rfl⟩
      simp [hno]

theorem regProp_settles (hpos : 0 < s.depth) :
    ∃ t, Settles (regProp (blobMem b total) value len s)
      (u32 (u32 (s.addrCells + s.sizeCells) * 4) ≤ len →
        (s.addrCells + s.sizeCells = 0 ∨ value + 4 * (s.addrCells + s.sizeCells) ≤ total) ∧
          s.depth ≤ 32) (.ok t) ∧ t.pos = s.pos := by
  obtain ⟨base, hbase⟩ := @fdtReadNumLoop_settles b total s.addrCells value 0
  obtain ⟨size, hsize⟩ := @fdtReadNumLoop_settles b total s.sizeCells (value + 4 * s.addrCells) 0
  obtain ⟨t, ht, hsame⟩ := @setNode_settles s
    (fun cur => { cur with regBase := base, regSize := size, regValid := true }) hpos
  unfold regProp
  by_cases hlen : u32 (u32 (s.addrCells + s.sizeCells) * 4) ≤ len
  · rw [if_pos hlen]
    refine ⟨t, Settles.congr (Settles.bind hbase (Settles.bind hsize ht)) ?_, hsame⟩
    constructor
    · intro h
      obtain ⟨hcells, hdepth⟩ := h hlen
      omega
    · rintro ⟨haddr, hsizes, hdepth⟩ _
      omega
  · rw [if_neg hlen]
    exact ⟨s, (Settles.done _).congr (by simp [hlen]), rfl⟩

/-- Two different first letters: a name is one of the strings at most. -/
theorem not_isStr_of_isStr {a : Nat} {c d : UInt8} {lit lit' : Lit} (hne : c ≠ d)
    (h : isStr b a (c :: lit) = true) : ¬ isStr b a (d :: lit') = true :=
  fun h' => hne ((isStr_head h).symm.trans (isStr_head h'))

/-- The properties of a node, after those of the root. -/
theorem nodeProp_settles (hvalue : value ≤ total) (hsmall : total ≤ 16777216)
    (hfuel : total < fuel) :
    ∃ t, Settles (nodeProp (blobMem b total) fuel name value len s)
      (0 < s.depth → (¬ Cut b total name nameDeviceType ∧ ¬ Cut b total name nameCompatible ∧
        ¬ Cut b total name nameReg) ∧ NodeInside b total name value len s.pos) (.ok t) ∧
      t.pos = s.pos := by
  obtain ⟨u, hu, huiff⟩ := @strcmp_settles b total name nameDeviceType (by decide)
  obtain ⟨v, hv, hviff⟩ := @strcmp_settles b total name nameCompatible (by decide)
  obtain ⟨w, hw, hwiff⟩ := @strcmp_settles b total name nameReg (by decide)
  unfold nodeProp
  by_cases hpos : 0 < s.depth
  · rw [if_pos hpos]
    by_cases hdevice : u = 0
    · have hstr := huiff.mp hdevice
      obtain ⟨t, ht, hsame⟩ := @deviceTypeProp_settles b total s value len hpos hvalue
      refine ⟨t, Settles.congr (Settles.bind hu (q := 6 ≤ len →
        ¬ CutShort b total value nameMemory ∧
          (isPrefix b value nameMemory = true → s.depth ≤ 32)) ?_) ?_, hsame⟩
      · rw [if_pos hdevice]
        exact ht
      · constructor
        · intro h
          obtain ⟨hnames, hnode⟩ := h hpos
          exact ⟨hnames.1, hnode.deviceType hstr⟩
        · rintro ⟨hcut, hdev⟩ _
          exact ⟨⟨hcut, not_cut_of_isStr (by decide) hstr hcut,
            not_cut_of_isStr (by decide) hstr hcut⟩, fun _ => hdev,
            fun h => absurd h (not_isStr_of_isStr (by decide) hstr),
            fun h => absurd h (not_isStr_of_isStr (by decide) hstr)⟩
    have hnodevice : ¬ isStr b name nameDeviceType = true := fun h => hdevice (huiff.mpr h)
    by_cases hcompatible : v = 0
    · have hstr := hviff.mp hcompatible
      obtain ⟨t, ht, hsame⟩ := @compatibleProp_settles b total fuel s value len hpos hsmall hfuel
      refine ⟨t, Settles.congr (Settles.bind hu (q := ¬ Cut b total name nameCompatible ∧
        ListInside b total value len nameVirtioMmio 0 ∧
          (ListHas b value len nameVirtioMmio 0 → s.depth ≤ 32)) ?_) ?_, hsame⟩
      · rw [if_neg hdevice]
        refine Settles.bind hv ?_
        rw [if_pos hcompatible]
        exact ht
      · constructor
        · intro h
          obtain ⟨hnames, hnode⟩ := h hpos
          exact ⟨hnames.1, hnames.2.1, hnode.compatible hstr⟩
        · rintro ⟨hcut, hcut', hlist⟩ _
          exact ⟨⟨hcut, hcut', not_cut_of_isStr (by decide) hstr hcut'⟩,
            fun h => absurd h hnodevice, fun _ => hlist,
            fun h => absurd h (not_isStr_of_isStr (by decide) hstr)⟩
    have hnocompatible : ¬ isStr b name nameCompatible = true := fun h => hcompatible (hviff.mpr h)
    by_cases hreg : w = 0
    · have hstr := hwiff.mp hreg
      obtain ⟨t, ht, hsame⟩ := @regProp_settles b total s value len hpos
      refine ⟨t, Settles.congr (Settles.bind hu (q := ¬ Cut b total name nameCompatible ∧
        ¬ Cut b total name nameReg ∧ (u32 (u32 (s.addrCells + s.sizeCells) * 4) ≤ len →
          (s.addrCells + s.sizeCells = 0 ∨ value + 4 * (s.addrCells + s.sizeCells) ≤ total) ∧
            s.depth ≤ 32)) ?_) ?_, hsame⟩
      · rw [if_neg hdevice]
        refine Settles.bind hv ?_
        rw [if_neg hcompatible]
        refine Settles.bind hw ?_
        rw [if_pos hreg]
        exact ht
      · constructor
        · intro h
          obtain ⟨hnames, hnode⟩ := h hpos
          exact ⟨hnames.1, hnames.2.1, hnames.2.2, hnode.reg hstr⟩
        · rintro ⟨hcut, hcut', hcut'', hcells⟩ _
          exact ⟨⟨hcut, hcut', hcut''⟩, fun h => absurd h hnodevice,
            fun h => absurd h hnocompatible, fun _ => hcells⟩
    have hnoreg : ¬ isStr b name nameReg = true := fun h => hreg (hwiff.mpr h)
    refine ⟨s, Settles.congr (Settles.bind hu (q := ¬ Cut b total name nameCompatible ∧
      ¬ Cut b total name nameReg) ?_) ?_, rfl⟩
    · rw [if_neg hdevice]
      refine Settles.bind hv ?_
      rw [if_neg hcompatible]
      refine Settles.congr (Settles.bind hw (q := True) ?_) (by simp)
      rw [if_neg hreg]
      exact Settles.done _
    · constructor
      · intro h
        exact (h hpos).1
      · rintro hcuts _
        exact ⟨hcuts, fun h => absurd h hnodevice, fun h => absurd h hnocompatible,
          fun h => absurd h hnoreg⟩
  · rw [if_neg hpos]
    exact ⟨s, (Settles.done _).congr (by simp [hpos]), rfl⟩

/-- The condition on a property's value does not depend on the cell counts that
the property itself sets. -/
theorem nodeInside_cells {pos : Pos} :
    NodeInside b total name value len (pos.cells b name value len) ↔
      NodeInside b total name value len pos := by
  have hdepth : (pos.cells b name value len).depth = pos.depth := by
    unfold Pos.cells
    split
    · split
      · rfl
      · split <;> rfl
    · rfl
  have hcells (hreg : isStr b name nameReg = true) : pos.cells b name value len = pos := by
    have haddr : ¬ isStr b name nameAddressCells = true := not_isStr_of_isStr (by decide) hreg
    have hsize : ¬ isStr b name nameSizeCells = true := not_isStr_of_isStr (by decide) hreg
    unfold Pos.cells
    rw [if_neg haddr, if_neg hsize]
    split <;> rfl
  constructor
  · intro h
    refine ⟨fun hstr hlen => hdepth ▸ h.deviceType hstr hlen, fun hstr => hdepth ▸ h.compatible hstr,
      fun hstr => ?_⟩
    have hreg := h.reg hstr
    rw [hcells hstr] at hreg
    exact hreg
  · intro h
    refine ⟨fun hstr hlen => hdepth ▸ h.deviceType hstr hlen, fun hstr => hdepth ▸ h.compatible hstr,
      fun hstr => ?_⟩
    rw [hcells hstr]
    exact h.reg hstr

/-- How a branch of the scanner ends: with an error where the walk ends, or with the
variables for the next token. -/
def Follows (r : Run Scan) (o : Option Pos) : Prop :=
  r = .error .error ∧ o = none ∨ ∃ t, r = .ok t ∧ o = some t.pos

theorem le_align4 (dtb q : Nat) : q ≤ align4 dtb q := by
  unfold align4
  omega

/-- A test that ends the scan with an error, in front of a branch. -/
theorem ite_settles {c : Prop} [Decidable c] {m : Run Scan} {q : Prop} {o : Option Pos}
    (h : ¬ c → ∃ r, Settles m q r ∧ Follows r o) :
    ∃ r, Settles (if c then .error .error else m) (¬ c → q) r ∧
      Follows r (if c then none else o) := by
  by_cases hc : c
  · rw [if_pos hc, if_pos hc]
    exact ⟨.error .error, (Settles.done _).congr (by simp [hc]), Or.inl ⟨rfl, rfl⟩⟩
  · rw [if_neg hc, if_neg hc]
    obtain ⟨r, hr, hfollows⟩ := h hc
    exact ⟨r, hr.congr (by simp [hc]), hfollows⟩

theorem comparedNames_iff {P : Lit → Prop} {depth : Int} :
    (∀ lit ∈ comparedNames depth, P lit) ↔
      (depth = 1 → P nameAddressCells ∧ P nameSizeCells) ∧
        (0 < depth → P nameDeviceType ∧ P nameCompatible ∧ P nameReg) := by
  unfold comparedNames
  by_cases hone : depth = 1
  · have hpos : 0 < depth := by omega
    simp [hone, and_assoc]
  · by_cases hpos : 0 < depth <;> simp [hone, hpos]

theorem Pos.cells_depth (pos : Pos) : (pos.cells b name value len).depth = pos.depth := by
  unfold Pos.cells
  split
  · split
    · rfl
    · split <;> rfl
  · rfl

/-- A property that is not refused. -/
theorem propValue_settles (hvalue : value ≤ total) (hsmall : total ≤ 16777216)
    (hfuel : total < fuel) :
    ∃ r, Settles (propValue (blobMem b total) fuel dtb hdr name value len s)
      (ValueInside b total name value len s.pos) r ∧
      Follows r (if hdr.structEnd < align4 dtb (value + len) then none
        else some { s.pos.cells b name value len with p := align4 dtb (value + len) }) := by
  obtain ⟨t, ht, htpos⟩ := @cellsProp_settles b total s name value len
  obtain ⟨u, hu, hupos⟩ := @nodeProp_settles b total fuel t name value len hvalue hsmall hfuel
  have hdepth : t.depth = s.depth := by
    have hcells := congrArg Pos.depth htpos
    rw [Pos.cells_depth] at hcells
    exact hcells
  obtain ⟨r, hr, hfollows⟩ := @ite_settles (hdr.structEnd < align4 dtb (value + len)) _
    (pure { u with p := align4 dtb (value + len) }) True
    (some { u.pos with p := align4 dtb (value + len) })
    fun _ => ⟨_, Settles.done _, Or.inr ⟨_, rfl, rfl⟩⟩
  refine ⟨r, Settles.congr (Settles.bind ht (Settles.bind hu hr)) ?_, ?_⟩
  · rw [htpos, hdepth, nodeInside_cells]
    constructor
    · intro h
      obtain ⟨hcells, hnames⟩ := comparedNames_iff.mp h.names
      exact ⟨⟨hcells, h.cells⟩, fun hpos => ⟨hnames hpos, h.node hpos⟩, fun _ => trivial⟩
    · rintro ⟨⟨hcells, hcount⟩, hnode, _⟩
      exact ⟨comparedNames_iff.mpr ⟨hcells, fun hpos => (hnode hpos).1⟩, hcount,
        fun hpos => (hnode hpos).2⟩
  · rw [hupos, htpos] at hfollows
    exact hfollows

theorem follows_exists (s : Scan) (o : Option Pos) : ∃ r, Follows r o := by
  cases o with
  | none => exact ⟨.error .error, Or.inl ⟨rfl, rfl⟩⟩
  | some pos =>
      exact ⟨.ok { s with
        p := pos.p, depth := pos.depth, addrCells := pos.addrCells, sizeCells := pos.sizeCells },
        Or.inr ⟨_, rfl, rfl⟩⟩

/-- The words of a property and its checks, in front of the property itself. -/
theorem propWords_settles (hsmall : total ≤ 16777216) (hfuel : total < fuel) :
    ∃ r, Settles (do
        let len ← fdt32 (blobMem b total) s.p
        let nameoff ← fdt32 (blobMem b total) (s.p + 4)
        if hdr.sizeStrings ≤ nameoff ∨
            hdr.offStrings + hdr.sizeStrings ≤ hdr.offStrings + nameoff ∨
            hdr.structEnd < s.p + 8 + len then .error .error
        else propValue (blobMem b total) fuel dtb hdr (hdr.offStrings + nameoff) (s.p + 8) len s)
      (s.p + 8 ≤ total ∧ (¬ Refused b hdr s.p → ValueInside b total
        (hdr.offStrings + be32 b (s.p + 4)) (s.p + 8) (be32 b s.p) s.pos)) r ∧
      Follows r (if Refused b hdr s.p then none
        else if hdr.structEnd < align4 dtb (s.p + 8 + be32 b s.p) then none
        else some { s.pos.cells b (hdr.offStrings + be32 b (s.p + 4)) (s.p + 8) (be32 b s.p) with
          p := align4 dtb (s.p + 8 + be32 b s.p) }) := by
  by_cases hin : s.p + 8 ≤ total
  · obtain ⟨r, hr, hfollows⟩ := @ite_settles (Refused b hdr s.p) _ _ _ _ fun _ =>
      @propValue_settles b total dtb fuel hdr s (hdr.offStrings + be32 b (s.p + 4)) (s.p + 8)
        (be32 b s.p) hin hsmall hfuel
    refine ⟨r, Settles.congr (Settles.bind (fdt32_settles s.p)
      (Settles.bind (fdt32_settles (s.p + 4)) hr)) ?_, hfollows⟩
    constructor
    · rintro ⟨_, hvalue⟩
      exact ⟨by omega, by omega, hvalue⟩
    · rintro ⟨_, _, hvalue⟩
      exact ⟨hin, hvalue⟩
  · obtain ⟨r, hfollows⟩ := follows_exists s (if Refused b hdr s.p then none
      else if hdr.structEnd < align4 dtb (s.p + 8 + be32 b s.p) then none
      else some { s.pos.cells b (hdr.offStrings + be32 b (s.p + 4)) (s.p + 8) (be32 b s.p) with
        p := align4 dtb (s.p + 8 + be32 b s.p) })
    refine ⟨r, ⟨fun h => absurd h.1 hin, fun _ => ?_⟩, hfollows⟩
    by_cases hfst : s.p + 4 ≤ total
    · rw [(fdt32_settles s.p).1 hfst, ok_bind, (fdt32_settles (s.p + 4)).2 (by omega)]
      rfl
    · rw [(fdt32_settles s.p).2 hfst]
      rfl

/-- `FDT_PROP`. -/
theorem prop_settles (hsmall : total ≤ 16777216) (hfuel : total < fuel) :
    ∃ r, Settles (prop (blobMem b total) fuel dtb hdr s)
      (s.p + 8 ≤ hdr.structEnd → s.p + 8 ≤ total ∧ (¬ Refused b hdr s.p →
        ValueInside b total (hdr.offStrings + be32 b (s.p + 4)) (s.p + 8) (be32 b s.p) s.pos)) r ∧
      Follows r (nextProp b dtb hdr s.pos s.p) := by
  obtain ⟨r, hr, hfollows⟩ := @ite_settles (hdr.structEnd < s.p + 8) _ _ _ _ fun _ =>
    @propWords_settles b total dtb fuel hdr s hsmall hfuel
  refine ⟨r, hr.congr ?_, ?_⟩
  · rw [Nat.not_lt]
  · unfold nextProp
    simp only [ite_or]
    exact hfollows

/-- `FDT_BEGIN_NODE`. -/
theorem beginNode_settles :
    ∃ r, Settles (beginNode (blobMem b total) dtb hdr s)
      (NameInside b total (hdr.structEnd - s.p) s.p ∧
        (s.p + nameLen b (hdr.structEnd - s.p) s.p < hdr.structEnd → 0 ≤ s.depth)) r ∧
      Follows r (nextBegin b dtb hdr s.pos s.p) := by
  obtain ⟨t, ht, htpos⟩ := @pushNode_settles s
  let q := s.p + nameLen b (hdr.structEnd - s.p) s.p + 1
  obtain ⟨r₁, hr₁, hfollows₁⟩ := @ite_settles (hdr.structEnd < align4 dtb q) _
    (pure { t with p := align4 dtb q }) True (some { t.pos with p := align4 dtb q })
    fun _ => ⟨_, Settles.done _, Or.inr ⟨_, rfl, rfl⟩⟩
  have henter : Settles (enterNode dtb hdr q s) (0 ≤ s.depth) r₁ :=
    Settles.congr (Settles.bind ht hr₁) (by simp)
  obtain ⟨r, hr, hfollows⟩ := @ite_settles
    (hdr.structEnd ≤ s.p + nameLen b (hdr.structEnd - s.p) s.p) _ _ _ _
    fun _ => ⟨r₁, henter, hfollows₁⟩
  refine ⟨r, Settles.congr (Settles.bind (fdtStrnlen_settles _ _) hr) ?_, ?_⟩
  · rw [Nat.not_le]
  · unfold nextBegin
    simp only [ite_or]
    rw [htpos] at hfollows
    exact hfollows

/-- How a pass ends: with an error where the walk ends, with the variables for the
next token, or at `FDT_END`. -/
def Goes (r : Run (Scan × Bool)) (o : Option Pos) : Prop :=
  r = .error .error ∧ o = none ∨ (∃ t, r = .ok (t, true) ∧ o = some t.pos) ∨
    ∃ t, r = .ok (t, false) ∧ o = none

/-- A branch of the loop after which the scan goes on. -/
theorem goes_settles {m : Run Scan} {q : Prop} {r : Run Scan} {o : Option Pos}
    (h : Settles m q r) (hfollows : Follows r o) :
    ∃ r', Settles ((·, true) <$> m) q r' ∧ Goes r' o := by
  rcases hfollows with ⟨rfl, rfl⟩ | ⟨t, rfl, rfl⟩
  · refine ⟨.error .error, ⟨fun hq => ?_, fun hq => ?_⟩, Or.inl ⟨rfl, rfl⟩⟩
    · rw [h.1 hq]
      rfl
    · rw [h.2 hq]
      rfl
  · exact ⟨_, h.map (·, true), Or.inr (Or.inl ⟨t, rfl, rfl⟩)⟩

/-- The branches of a pass, behind the word of its token. -/
theorem branch_settles (req : Request) (token : Nat) (hsmall : total ≤ 16777216)
    (hfuel : total < fuel) :
    ∃ r, Settles
      (if token = 1 then (·, true) <$> beginNode (blobMem b total) dtb hdr s
        else if token = 2 then (·, true) <$> popNode req s
        else if token = 3 then (·, true) <$> prop (blobMem b total) fuel dtb hdr s
        else if token = 4 then pure (s, true)
        else if token = 9 then pure (s, false)
        else .error .error)
      ((token = 1 → NameInside b total (hdr.structEnd - s.p) s.p ∧
          (s.p + nameLen b (hdr.structEnd - s.p) s.p < hdr.structEnd → 0 ≤ s.depth)) ∧
        (token = 2 → s.depth ≤ 32) ∧
        (token = 3 → s.p + 8 ≤ hdr.structEnd → s.p + 8 ≤ total ∧ (¬ Refused b hdr s.p →
          ValueInside b total (hdr.offStrings + be32 b (s.p + 4)) (s.p + 8) (be32 b s.p) s.pos)))
      r ∧
      Goes r (if token = 1 then nextBegin b dtb hdr s.pos s.p
        else if token = 2 then some { s.pos with depth := s.depth - 1 }
        else if token = 3 then nextProp b dtb hdr s.pos s.p
        else if token = 4 then some s.pos
        else none) := by
  by_cases hbegin : token = 1
  · obtain ⟨r₁, hr₁, hfollows⟩ := @beginNode_settles b total dtb hdr s
    obtain ⟨r, hr, hgoes⟩ := goes_settles hr₁ hfollows
    simp only [if_pos hbegin]
    exact ⟨r, hr.congr (by simp [hbegin]), hgoes⟩
  simp only [if_neg hbegin]
  by_cases hend : token = 2
  · obtain ⟨t, ht, htpos⟩ := @popNode_settles s req
    obtain ⟨r, hr, hgoes⟩ := goes_settles ht (Or.inr ⟨t, rfl, rfl⟩)
    simp only [if_pos hend]
    exact ⟨r, hr.congr (by simp [hend]), htpos ▸ hgoes⟩
  simp only [if_neg hend]
  by_cases hprop : token = 3
  · obtain ⟨r₁, hr₁, hfollows⟩ := @prop_settles b total dtb fuel hdr s hsmall hfuel
    obtain ⟨r, hr, hgoes⟩ := goes_settles hr₁ hfollows
    simp only [if_pos hprop]
    exact ⟨r, hr.congr (by simp [hprop]), hgoes⟩
  simp only [if_neg hprop]
  by_cases hnop : token = 4
  · simp only [if_pos hnop]
    exact ⟨_, (Settles.done _).congr (by simp [hnop]), Or.inr (Or.inl ⟨s, rfl, rfl⟩)⟩
  simp only [if_neg hnop]
  by_cases hstop : token = 9
  · simp only [if_pos hstop]
    exact ⟨_, (Settles.done _).congr (by simp [hstop]), Or.inr (Or.inr ⟨s, rfl, rfl⟩)⟩
  simp only [if_neg hstop]
  exact ⟨_, (Settles.done _).congr (by simp [hbegin, hend, hprop]), Or.inl ⟨rfl, rfl⟩⟩

/-- One pass of the loop. -/
theorem pass_settles (req : Request) (hsmall : total ≤ 16777216) (hfuel : total < fuel) :
    ∃ r, Settles (pass (blobMem b total) fuel dtb hdr req s)
      (s.p + 4 ≤ hdr.structEnd → TokenInside b total hdr s.pos) r ∧
      Goes r (next b dtb hdr s.pos) := by
  by_cases hend : hdr.structEnd < s.p + 4
  · refine ⟨.error .error, ?_, Or.inl ⟨rfl, ?_⟩⟩
    · unfold pass
      rw [if_pos hend]
      exact (Settles.done _).congr (by simp only [iff_true]; omega)
    · exact if_pos hend
  · obtain ⟨r, hr, hgoes⟩ := @branch_settles b total dtb fuel hdr { s with p := s.p + 4 } req
      (be32 b s.p) hsmall hfuel
    refine ⟨r, ?_, ?_⟩
    · unfold pass
      rw [if_neg hend]
      refine Settles.congr (Settles.bind (fdt32_settles s.p) hr) ?_
      constructor
      · intro h
        have htoken := h (by omega)
        exact ⟨htoken.word, htoken.begin, htoken.last, htoken.prop⟩
      · rintro ⟨hword, hbegin, hlast, hprop⟩ _
        exact ⟨hword, hbegin, hlast, hprop⟩
    · rw [show next b dtb hdr s.pos = _ from if_neg hend]
      exact hgoes

end Steps

section Runs

variable {b : Nat → UInt8} {total dtb fuel : Nat} {hdr : Header} {req : Request}
  {junk : Nat → NodeState}

/-- Each token lies behind the last one. -/
theorem next_le {pos pos' : Pos} (h : next b dtb hdr pos = some pos') : pos.p + 4 ≤ pos'.p := by
  have hbegin {q : Nat} (h : nextBegin b dtb hdr pos.skip q = some pos') : q ≤ pos'.p := by
    unfold nextBegin at h
    dsimp only at h
    split at h
    · cases h
    · obtain rfl := Option.some.inj h
      have hle := le_align4 dtb (q + nameLen b (hdr.structEnd - q) q + 1)
      show q ≤ align4 dtb (q + nameLen b (hdr.structEnd - q) q + 1)
      omega
  have hprop {q : Nat} (h : nextProp b dtb hdr pos.skip q = some pos') : q ≤ pos'.p := by
    unfold nextProp at h
    split at h
    · cases h
    · obtain rfl := Option.some.inj h
      have hle := le_align4 dtb (q + 8 + be32 b q)
      show q ≤ align4 dtb (q + 8 + be32 b q)
      omega
  unfold next at h
  dsimp only at h
  split at h
  · cases h
  split at h
  · exact hbegin h
  split at h
  · obtain rfl := Option.some.inj h
    exact Nat.le_refl _
  split at h
  · exact hprop h
  split at h
  · obtain rfl := Option.some.inj h
    exact Nat.le_refl _
  · cases h

/-- The run neither leaves the blob nor goes on without end. -/
def Ends {α : Type} (m : Run α) : Prop := m ≠ .error .outside ∧ m ≠ .error .endless

theorem Ends.error {α : Type} : Ends (.error .error : Run α) :=
  ⟨(fun h => nomatch h), fun h => nomatch h⟩

theorem Ends.ok {α : Type} (a : α) : Ends (.ok a : Run α) :=
  ⟨(fun h => nomatch h), fun h => nomatch h⟩

/-- When every token has what it needs, the loop ends; induction on its passes. -/
theorem scanLoop_ends (hsmall : total ≤ 16777216) (hfuel : total < fuel) {passes : Nat} {s : Scan}
    (hpasses : total < s.p + passes) (hpos : 0 < passes)
    (hinside : ∀ pos, Reaches b dtb hdr s.pos pos → pos.p + 4 ≤ hdr.structEnd →
      TokenInside b total hdr pos) :
    Ends (scanLoop (pass (blobMem b total) fuel dtb hdr req) passes s) := by
  induction passes generalizing s with
  | zero => exact absurd hpos (Nat.lt_irrefl 0)
  | succ passes ih =>
      obtain ⟨r, hr, hgoes⟩ := @pass_settles b total dtb fuel hdr s req hsmall hfuel
      have hrun := hr.1 (hinside s.pos (.refl _))
      rw [scanLoop, hrun]
      rcases hgoes with ⟨rfl, _⟩ | ⟨t, rfl, hnext⟩ | ⟨t, rfl, _⟩
      · exact Ends.error
      · have hle := next_le hnext
        have hword : s.p + 4 ≤ total := by
          refine (hinside s.pos (.refl _) ?_).word
          by_contra hgt
          rw [show next b dtb hdr s.pos = none from if_pos (Nat.lt_of_not_le hgt)] at hnext
          cases hnext
        have hp : s.p + 4 ≤ t.p := hle
        rw [ok_bind, if_pos rfl]
        have hrest : total < t.p + passes := by omega
        exact ih hrest (by omega) fun pos hreach => hinside pos (.step hnext hreach)
      · exact Ends.ok t

/-- When the loop ends inside, every token has what it needs. -/
theorem inside_of_scanLoop (hsmall : total ≤ 16777216) (hfuel : total < fuel) {passes : Nat}
    {s : Scan} (h : Ends (scanLoop (pass (blobMem b total) fuel dtb hdr req) passes s)) {pos : Pos}
    (hreach : Reaches b dtb hdr s.pos pos) (hend : pos.p + 4 ≤ hdr.structEnd) :
    TokenInside b total hdr pos := by
  induction passes generalizing s with
  | zero => exact absurd rfl h.2
  | succ passes ih =>
      obtain ⟨r, hr, hgoes⟩ := @pass_settles b total dtb fuel hdr s req hsmall hfuel
      have htoken : s.p + 4 ≤ hdr.structEnd → TokenInside b total hdr s.pos := by
        by_contra hnot
        refine h.1 ?_
        rw [scanLoop, hr.2 hnot]
        rfl
      rw [scanLoop, hr.1 htoken] at h
      cases hreach with
      | refl => exact htoken hend
      | step hnext hrest =>
          rcases hgoes with ⟨_, hnone⟩ | ⟨t, rfl, hsome⟩ | ⟨t, _, hnone⟩
          · rw [hnone] at hnext
            cases hnext
          · obtain rfl := Option.some.inj (hsome.symm.trans hnext)
            exact ih h hrest
          · rw [hnone] at hnext
            cases hnext

theorem readHeader_total {mem : Mem} (h : readHeader mem = .ok hdr) :
    40 ≤ hdr.total ∧ hdr.total ≤ 16777216 := by
  obtain ⟨magic, _, h⟩ := bind_ok h
  split at h
  · cases h
  obtain ⟨size, _, h⟩ := bind_ok h
  split at h
  · cases h
  next hsize =>
    obtain ⟨offStruct, _, h⟩ := bind_ok h
    obtain ⟨offStrings, _, h⟩ := bind_ok h
    obtain ⟨sizeStruct, _, h⟩ := bind_ok h
    obtain ⟨sizeStrings, _, h⟩ := bind_ok h
    split at h
    · cases h
    obtain rfl := Except.ok.inj h
    show 40 ≤ size ∧ size ≤ 16777216
    omega

/-- Behind the header a call is the loop. -/
theorem fdtScan_ends_iff (hhdr : readHeader (blobMem b total) = .ok hdr) :
    Ends (fdtScan (blobMem b total) fuel dtb req junk) ↔
      Ends (scanLoop (pass (blobMem b total) fuel dtb hdr req) fuel
        (Scan.start hdr.offStruct req junk)) := by
  rw [fdtScan, hhdr, ok_bind]
  cases scanLoop (pass (blobMem b total) fuel dtb hdr req) fuel
      (Scan.start hdr.offStruct req junk) with
  | error e =>
      constructor
      · intro h
        cases e with
        | error => exact Ends.error
        | outside => exact absurd rfl h.1
        | endless => exact absurd rfl h.2
      · intro h
        cases e with
        | error => exact Ends.error
        | outside => exact absurd rfl h.1
        | endless => exact absurd rfl h.2
  | ok t => exact ⟨fun _ => Ends.ok t, fun _ => Ends.ok t.found⟩

theorem inside_of_staysInside (hhdr : readHeader (blobMem b total) = .ok hdr)
    (htotal : hdr.total = total) (h : StaysInside b total dtb req junk) : Inside b total dtb hdr := by
  obtain ⟨enough, hall⟩ := h
  have hsmall : total ≤ 16777216 := htotal ▸ (readHeader_total hhdr).2
  have hfuel : total < enough + total + 1 := by omega
  have hends := (fdtScan_ends_iff hhdr).mp (hall (enough + total + 1) (by omega))
  exact fun pos hreach hend => inside_of_scanLoop hsmall hfuel hends hreach hend

theorem staysInside_of_inside (hhdr : readHeader (blobMem b total) = .ok hdr)
    (htotal : hdr.total = total) (h : Inside b total dtb hdr) : StaysInside b total dtb req junk := by
  have hsmall : total ≤ 16777216 := htotal ▸ (readHeader_total hhdr).2
  refine ⟨total + 1, fun fuel hle => (fdtScan_ends_iff hhdr).mpr ?_⟩
  exact scanLoop_ends hsmall (by omega) (by omega) (by omega) h

/-- The scan of a blob whose header passes the checks stays inside exactly when each
token that it reaches has what it needs. -/
theorem fdtScan_inside_iff (hhdr : readHeader (blobMem b total) = .ok hdr)
    (htotal : hdr.total = total) :
    StaysInside b total dtb req junk ↔ Inside b total dtb hdr :=
  ⟨inside_of_staysInside hhdr htotal, staysInside_of_inside hhdr htotal⟩

end Runs

section Blobs

/-- A blob whose structure block is the given one; there are no strings. -/
def smallBlob (tokens : List UInt8) : List UInt8 :=
  [0xd0, 0x0d, 0xfe, 0xed, 0, 0, 0, UInt8.ofNat (40 + tokens.length), 0, 0, 0, 40, 0, 0, 0, 40,
    0, 0, 0, 0, 0, 0, 0, 17, 0, 0, 0, 16, 0, 0, 0, 0, 0, 0, 0, 0,
    0, 0, 0, UInt8.ofNat tokens.length] ++ tokens

/-- `FDT_END_NODE` and `FDT_BEGIN_NODE`. -/
def unbalancedBlob : List UInt8 := smallBlob [0, 0, 0, 2, 0, 0, 0, 1, 0, 0, 0, 0]

/-- A root node without properties. -/
def rootBlob : List UInt8 := smallBlob [0, 0, 0, 1, 0, 0, 0, 0, 0, 0, 0, 2, 0, 0, 0, 9]

/-- A node that ends before one began makes the next one write below `stack`. -/
theorem fdtScan_leaves_stack :
    let b := fun a => unbalancedBlob.getD a 0
    readHeader (blobMem b 52) = .ok ⟨52, 40, 40, 0, 12⟩ ∧
      ¬ StaysInside b 52 0x82200000 ⟨true, 0, 0, true, 8⟩ fun _ => .zero := by
  intro b
  have hhdr : readHeader (blobMem b 52) = .ok ⟨52, 40, 40, 0, 12⟩ := by decide +kernel
  refine ⟨hhdr, fun hstays => ?_⟩
  have hinside := inside_of_staysInside hhdr rfl hstays
  have hreach : Reaches b 0x82200000 ⟨52, 40, 40, 0, 12⟩ (Pos.start 40) ⟨44, -1, 2, 2⟩ :=
    .step (by decide +kernel) (.refl _)
  have hbegin := ((hinside _ hreach (by decide)).begin (by decide +kernel)).2 (by decide +kernel)
  exact absurd hbegin (by decide)

theorem fdtScan_inside_root :
    let b := fun a => rootBlob.getD a 0
    StaysInside b 56 0x82200000 ⟨true, 0, 0, true, 8⟩ (fun _ => .zero) ↔
      Inside b 56 0x82200000 ⟨56, 40, 40, 0, 16⟩ :=
  fdtScan_inside_iff (by decide +kernel) rfl

end Blobs

end Fdt

end OsAgentLab
