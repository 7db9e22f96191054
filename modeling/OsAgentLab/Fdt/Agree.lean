/-
Kernel and firmware read the same device tree.  A run of the kernel's scanner
that stays inside the blob is repeated, pass by pass, by the firmware's scanner on
any memory that holds the same bytes.
-/
import OsAgentLab.Fdt.Scan

namespace OsAgentLab

namespace Fdt

variable {mem mem' : Mem} {α β : Type}

/-- What may be read of `mem` is the same in `mem'`. -/
def Mem.Within (mem mem' : Mem) : Prop := ∀ a b, mem a = some b → mem' a = some b

/-- Nothing can be read from `bound` on. -/
def Mem.Below (mem : Mem) (bound : Nat) : Prop := ∀ a b, mem a = some b → a < bound

section Reads

theorem rd8_ok {a : Nat} {b : UInt8} (h : rd8 mem a = .ok b) : mem a = some b := by
  unfold rd8 at h
  cases hmem : mem a with
  | none => rw [hmem] at h; cases h
  | some c => rw [hmem] at h; exact congrArg some (Except.ok.inj h)

variable (hmem : mem.Within mem')
include hmem

theorem rd8_mono {a : Nat} {b : UInt8} (h : rd8 mem a = .ok b) : rd8 mem' a = .ok b := by
  rw [rd8, hmem a b (rd8_ok h)]
  rfl

theorem fdt32_mono {a n : Nat} (h : fdt32 mem a = .ok n) : fdt32 mem' a = .ok n := by
  obtain ⟨b0, h0, h⟩ := bind_ok h
  obtain ⟨b1, h1, h⟩ := bind_ok h
  obtain ⟨b2, h2, h⟩ := bind_ok h
  obtain ⟨b3, h3, h⟩ := bind_ok h
  rw [fdt32, rd8_mono hmem h0, ok_bind, rd8_mono hmem h1, ok_bind, rd8_mono hmem h2, ok_bind,
    rd8_mono hmem h3]
  exact h

theorem fdtReadNumLoop_mono {count cells val n : Nat}
    (h : fdtReadNumLoop mem count cells val = .ok n) :
    fdtReadNumLoop mem' count cells val = .ok n := by
  induction count generalizing cells val with
  | zero => exact h
  | succ count ih =>
      obtain ⟨cell, hcell, h⟩ := bind_ok h
      rw [fdtReadNumLoop, fdt32_mono hmem hcell, ok_bind]
      exact ih h

/-- More passes do not hurt. -/
theorem strlen_mono {passes passes' s n : Nat} (hle : passes ≤ passes')
    (h : strlen mem passes s = .ok n) : strlen mem' passes' s = .ok n := by
  induction passes generalizing s n passes' with
  | zero => cases h
  | succ passes ih =>
      obtain ⟨more, rfl⟩ := Nat.exists_eq_add_of_le' hle
      obtain ⟨b, hb, h⟩ := bind_ok h
      rw [← Nat.add_assoc, strlen, rd8_mono hmem hb, ok_bind]
      by_cases hzero : b = 0
      · rw [if_pos hzero] at h ⊢
        exact h
      · rw [if_neg hzero] at h ⊢
        obtain ⟨m, hm, rfl⟩ := map_ok h
        rw [ih (Nat.le_add_left _ _) hm]
        rfl

/-- A name that ends before the bound of `fdt_strnlen` has the same length for
`strlen`. -/
theorem strlen_of_fdtStrnlen {count s n passes : Nat} (h : fdtStrnlen mem count s = .ok n)
    (hlt : n < count) (hpasses : n < passes) : strlen mem' passes s = .ok n := by
  induction count generalizing s n passes with
  | zero => exact absurd hlt (Nat.not_lt_zero _)
  | succ count ih =>
      obtain ⟨b, hb, h⟩ := bind_ok h
      obtain ⟨passes, rfl⟩ := Nat.exists_eq_add_one_of_ne_zero (Nat.ne_zero_of_lt hpasses)
      rw [strlen, rd8_mono hmem hb, ok_bind]
      by_cases hzero : b = 0
      · rw [if_pos hzero] at h ⊢
        exact h
      · rw [if_neg hzero] at h ⊢
        obtain ⟨m, hm, rfl⟩ := map_ok h
        rw [ih hm (Nat.lt_of_succ_lt_succ hlt) (Nat.lt_of_succ_lt_succ hpasses)]
        rfl

/-- The two `strcmp` agree on equality. -/
theorem fwStrcmp_agree {a : Nat} {lit : Lit} {r : Int} (h : strcmp mem a lit = .ok r) :
    ∃ r', fwStrcmp mem' a lit = .ok r' ∧ (r' = 0 ↔ r = 0) := by
  induction lit generalizing a with
  | nil =>
      obtain ⟨x, hx, h⟩ := bind_ok h
      rw [fwStrcmp, rd8_mono hmem hx, ok_bind]
      refine ⟨_, rfl, ?_⟩
      rw [← Except.ok.inj h]
      by_cases hzero : x = 0
      · simp [hzero]
      · have hne : x.toNat ≠ 0 := fun heq => hzero (UInt8.toNat_inj.mp heq)
        simp [hzero, hne]
  | cons c lit ih =>
      obtain ⟨x, hx, h⟩ := bind_ok h
      rw [fwStrcmp, rd8_mono hmem hx, ok_bind]
      by_cases heq : x = c
      · rw [if_pos heq]
        by_cases hzero : x = 0
        · rw [if_neg fun hand => hand.1 hzero] at h
          rw [if_pos hzero]
          refine ⟨0, rfl, ?_⟩
          rw [← Except.ok.inj h, heq]
          simp
        · rw [if_pos ⟨hzero, heq⟩] at h
          rw [if_neg hzero]
          exact ih h
      · rw [if_neg fun hand => heq hand.2] at h
        rw [if_neg heq]
        refine ⟨_, rfl, ?_⟩
        rw [← Except.ok.inj h]
        have hne : x.toNat ≠ c.toNat := fun hnat => heq (UInt8.toNat_inj.mp hnat)
        constructor
        · intro hsign
          split at hsign <;> cases hsign
        · intro hdiff
          omega

/-- The two `memcmp` agree on equality. -/
theorem fwMemcmp_agree {a : Nat} {lit : Lit} {r : Int} (h : memcmp mem a lit = .ok r) :
    ∃ r', fwMemcmp mem' a lit = .ok r' ∧ (r' = 0 ↔ r = 0) := by
  induction lit generalizing a with
  | nil => exact ⟨0, rfl, by rw [← Except.ok.inj h]⟩
  | cons c lit ih =>
      obtain ⟨x, hx, h⟩ := bind_ok h
      rw [fwMemcmp, rd8_mono hmem hx, ok_bind]
      by_cases heq : x = c
      · rw [if_neg fun hne => hne heq] at h ⊢
        exact ih h
      · rw [if_pos heq] at h ⊢
        refine ⟨_, rfl, ?_⟩
        rw [← Except.ok.inj h]
        have hne : x.toNat ≠ c.toNat := fun hnat => heq (UInt8.toNat_inj.mp hnat)
        constructor
        · intro hsign
          split at hsign <;> cases hsign
        · intro hdiff
          omega

theorem strlistHit_agree {s slen : Nat} {needle : Lit} {hit : Bool}
    (h : strlistHit kernelOps mem s slen needle = .ok hit) :
    strlistHit firmwareOps mem' s slen needle = .ok hit := by
  unfold strlistHit at h ⊢
  by_cases heq : slen = needle.length
  · rw [if_pos heq] at h ⊢
    obtain ⟨r, hr, h⟩ := bind_ok h
    obtain ⟨r', hr', hiff⟩ := fwMemcmp_agree hmem hr
    rw [show firmwareOps.memcmp mem' s needle = .ok r' from hr', ok_bind, ← h]
    exact congrArg Except.ok (decide_eq_decide.mpr hiff)
  · rw [if_neg heq] at h ⊢
    exact h

theorem fdtStrlistLoop_agree {fuel fuel' list len passes passes' i : Nat} {needle : Lit} {hit : Bool}
    (hfuel : fuel ≤ fuel') (hle : passes ≤ passes')
    (h : fdtStrlistLoop kernelOps mem fuel list len needle passes i = .ok hit) :
    fdtStrlistLoop firmwareOps mem' fuel' list len needle passes' i = .ok hit := by
  induction passes generalizing i passes' with
  | zero => cases h
  | succ passes ih =>
      obtain ⟨more, rfl⟩ := Nat.exists_eq_add_of_le' hle
      rw [← Nat.add_assoc]
      unfold fdtStrlistLoop at h ⊢
      by_cases hlt : i < len
      · rw [if_pos hlt] at h ⊢
        obtain ⟨slen, hslen, h⟩ := bind_ok h
        obtain ⟨found, hfound, h⟩ := bind_ok h
        rw [strlen_mono hmem hfuel hslen, ok_bind, strlistHit_agree hmem hfound, ok_bind]
        cases found with
        | true => exact h
        | false => exact ih (Nat.le_add_left _ _) h
      · rw [if_neg hlt] at h ⊢
        exact h

end Reads

section Sim

/-- The variables of the two scanners agree, and the elements of `stack` for the
nodes that are open; the others may not be initialised. -/
structure Sim (s s' : Scan) : Prop where
  p : s'.p = s.p
  depth : s'.depth = s.depth
  addrCells : s'.addrCells = s.addrCells
  sizeCells : s'.sizeCells = s.sizeCells
  memBase : s'.memBase = s.memBase
  memSize : s'.memSize = s.memSize
  bases : s'.bases = s.bases
  stack : ∀ i : Nat, i < 32 → (i : Int) < s.depth → s'.stack i = s.stack i

variable {s t s' : Scan}

theorem Sim.withP (hsim : Sim s s') (q : Nat) : Sim { s with p := q } { s' with p := q } where
  p := rfl
  depth := hsim.depth
  addrCells := hsim.addrCells
  sizeCells := hsim.sizeCells
  memBase := hsim.memBase
  memSize := hsim.memSize
  bases := hsim.bases
  stack := hsim.stack

theorem Sim.withCells (hsim : Sim s s') (addr size : Nat) :
    Sim { s with addrCells := addr, sizeCells := size }
      { s' with depth := s.depth, addrCells := addr, sizeCells := size } where
  p := hsim.p
  depth := rfl
  addrCells := rfl
  sizeCells := rfl
  memBase := hsim.memBase
  memSize := hsim.memSize
  bases := hsim.bases
  stack := hsim.stack

theorem Sim.withHz (hsim : Sim s s') (hz : Nat) : Sim s { s' with hz := hz } where
  p := hsim.p
  depth := hsim.depth
  addrCells := hsim.addrCells
  sizeCells := hsim.sizeCells
  memBase := hsim.memBase
  memSize := hsim.memSize
  bases := hsim.bases
  stack := hsim.stack

theorem stackIndex_ok {i : Int} {k : Nat} (h : stackIndex i = .ok k) : (k : Int) = i ∧ k < 32 := by
  unfold stackIndex at h
  split at h
  next hin =>
    rw [← Except.ok.inj h]
    omega
  next => cases h

theorem pushNode_agree (hsim : Sim s s') (h : pushNode s = .ok t) :
    ∃ t', pushNode s' = .ok t' ∧ Sim t t' := by
  unfold pushNode at h ⊢
  rw [hsim.depth]
  by_cases hlt : s.depth < 32
  · rw [if_pos hlt] at h ⊢
    obtain ⟨i, hi, h⟩ := bind_ok h
    rw [hi, ok_bind]
    obtain rfl := Except.ok.inj h
    refine ⟨_, rfl, ⟨hsim.p, rfl, hsim.addrCells, hsim.sizeCells, hsim.memBase, hsim.memSize,
      hsim.bases, fun j hlt hj => ?_⟩⟩
    have hindex := stackIndex_ok hi
    by_cases heq : j = i
    · simp only [heq, Function.update_self]
    · simp only [Function.update_of_ne heq]
      simp only at hj
      exact hsim.stack j hlt (by omega)
  · rw [if_neg hlt] at h ⊢
    obtain rfl := Except.ok.inj h
    refine ⟨_, rfl, ⟨hsim.p, rfl, hsim.addrCells, hsim.sizeCells, hsim.memBase, hsim.memSize,
      hsim.bases, fun j hlt hj => hsim.stack j hlt (by omega)⟩⟩

theorem Sim.deliver (hsim : Sim s s') (req : Request) (cur : NodeState) :
    Sim (s.deliver req cur) (s'.deliver req cur) where
  p := hsim.p
  depth := hsim.depth
  addrCells := hsim.addrCells
  sizeCells := hsim.sizeCells
  memBase := by simp only [Scan.deliver, hsim.memBase, hsim.memSize]
  memSize := by simp only [Scan.deliver, hsim.memSize]
  bases := by simp only [Scan.deliver, hsim.bases]
  stack := hsim.stack

/-- A node that ends is left; fewer nodes are open then. -/
theorem Sim.withDepth (hsim : Sim s s') {depth : Int} (hle : depth ≤ s.depth) :
    Sim { s with depth := depth } { s' with depth := depth } where
  p := hsim.p
  depth := rfl
  addrCells := hsim.addrCells
  sizeCells := hsim.sizeCells
  memBase := hsim.memBase
  memSize := hsim.memSize
  bases := hsim.bases
  stack := fun i hlt hi => hsim.stack i hlt (Int.lt_of_lt_of_le hi hle)

theorem popNode_agree {req : Request} (hsim : Sim s s') (h : popNode req s = .ok t) :
    ∃ t', popNode req s' = .ok t' ∧ Sim t t' := by
  unfold popNode at h ⊢
  rw [hsim.depth]
  by_cases hpos : 0 < s.depth
  · rw [if_pos hpos] at h ⊢
    obtain ⟨i, hi, h⟩ := bind_ok h
    obtain ⟨hindex, hlt⟩ := stackIndex_ok hi
    rw [hi, ok_bind]
    obtain rfl := Except.ok.inj h
    rw [hsim.stack i hlt (by omega)]
    exact ⟨_, rfl, (hsim.deliver req _).withDepth (Int.sub_le_self _ (by decide))⟩
  · rw [if_neg hpos] at h ⊢
    obtain rfl := Except.ok.inj h
    exact ⟨_, rfl, hsim.withDepth (Int.sub_le_self _ (by decide))⟩

theorem setNode_agree {f : NodeState → NodeState} (hsim : Sim s s') (h : setNode s f = .ok t) :
    ∃ t', setNode s' f = .ok t' ∧ Sim t t' := by
  unfold setNode at h ⊢
  rw [hsim.depth]
  obtain ⟨i, hi, h⟩ := bind_ok h
  obtain ⟨hindex, hlt⟩ := stackIndex_ok hi
  rw [hi, ok_bind]
  obtain rfl := Except.ok.inj h
  rw [hsim.stack i hlt (by omega)]
  refine ⟨_, rfl, ⟨hsim.p, rfl, hsim.addrCells, hsim.sizeCells, hsim.memBase,
    hsim.memSize, hsim.bases, fun j hlt hj => ?_⟩⟩
  by_cases heq : j = i
  · simp only [heq, Function.update_self]
  · simp only [Function.update_of_ne heq]
    exact hsim.stack j hlt hj

end Sim

section Properties

variable {s t s' : Scan} {name value len : Nat} (hmem : mem.Within mem')
include hmem

theorem cellsProp_agree (hsim : Sim s s') (h : cellsProp kernelOps mem name value len s = .ok t) :
    ∃ t', cellsProp firmwareOps mem' name value len s' = .ok t' ∧ Sim t t' := by
  unfold cellsProp at h ⊢
  rw [hsim.depth]
  by_cases hone : s.depth = 1
  · rw [if_pos hone] at h ⊢
    obtain ⟨r, hr, h⟩ := bind_ok h
    obtain ⟨r', hr', hiff⟩ := fwStrcmp_agree hmem hr
    rw [show firmwareOps.strcmp mem' name nameAddressCells = .ok r' from hr', ok_bind]
    simp only [hiff]
    by_cases haddr : r = 0 ∧ 4 ≤ len
    · rw [if_pos haddr] at h ⊢
      obtain ⟨cells, hcells, h⟩ := bind_ok h
      rw [fdt32_mono hmem hcells, ok_bind, hsim.sizeCells]
      obtain rfl := Except.ok.inj h
      exact ⟨_, rfl, hsim.withCells cells s.sizeCells⟩
    · rw [if_neg haddr] at h ⊢
      obtain ⟨q, hq, h⟩ := bind_ok h
      obtain ⟨q', hq', hiff⟩ := fwStrcmp_agree hmem hq
      rw [show firmwareOps.strcmp mem' name nameSizeCells = .ok q' from hq', ok_bind]
      simp only [hiff]
      by_cases hsize : q = 0 ∧ 4 ≤ len
      · rw [if_pos hsize] at h ⊢
        obtain ⟨cells, hcells, h⟩ := bind_ok h
        rw [fdt32_mono hmem hcells, ok_bind, hsim.addrCells]
        obtain rfl := Except.ok.inj h
        exact ⟨_, rfl, hsim.withCells s.addrCells cells⟩
      · rw [if_neg hsize] at h ⊢
        obtain rfl := Except.ok.inj h
        exact ⟨_, rfl, hsim⟩
  · rw [if_neg hone] at h ⊢
    obtain rfl := Except.ok.inj h
    exact ⟨_, rfl, hsim⟩

theorem deviceTypeProp_agree (hsim : Sim s s')
    (h : deviceTypeProp kernelOps mem value len s = .ok t) :
    ∃ t', deviceTypeProp firmwareOps mem' value len s' = .ok t' ∧ Sim t t' := by
  unfold deviceTypeProp at h ⊢
  by_cases hlen : 6 ≤ len
  · rw [if_pos hlen] at h ⊢
    obtain ⟨r, hr, h⟩ := bind_ok h
    obtain ⟨r', hr', hiff⟩ := fwMemcmp_agree hmem hr
    rw [show firmwareOps.memcmp mem' value nameMemory = .ok r' from hr', ok_bind]
    simp only [hiff]
    by_cases hzero : r = 0
    · rw [if_pos hzero] at h ⊢
      exact setNode_agree hsim h
    · rw [if_neg hzero] at h ⊢
      obtain rfl := Except.ok.inj h
      exact ⟨_, rfl, hsim⟩
  · rw [if_neg hlen] at h ⊢
    obtain rfl := Except.ok.inj h
    exact ⟨_, rfl, hsim⟩

theorem compatibleProp_agree {fuel fuel' : Nat} (hfuel : fuel ≤ fuel') (hsim : Sim s s')
    (h : compatibleProp kernelOps mem fuel value len s = .ok t) :
    ∃ t', compatibleProp firmwareOps mem' fuel' value len s' = .ok t' ∧ Sim t t' := by
  unfold compatibleProp at h ⊢
  obtain ⟨hit, hhit, h⟩ := bind_ok h
  rw [fdtStrlistContains, fdtStrlistLoop_agree hmem hfuel hfuel hhit, ok_bind]
  cases hit with
  | true =>
      rw [if_pos rfl] at h ⊢
      exact setNode_agree hsim h
  | false =>
      obtain rfl := Except.ok.inj h
      exact ⟨_, rfl, hsim⟩

theorem regProp_agree (hsim : Sim s s') (h : regProp mem value len s = .ok t) :
    ∃ t', regProp mem' value len s' = .ok t' ∧ Sim t t' := by
  unfold regProp at h ⊢
  rw [hsim.addrCells, hsim.sizeCells]
  by_cases hlen : u32 (u32 (s.addrCells + s.sizeCells) * 4) ≤ len
  · rw [if_pos hlen] at h ⊢
    obtain ⟨base, hbase, h⟩ := bind_ok h
    obtain ⟨size, hsize, h⟩ := bind_ok h
    rw [fdtReadNum, fdtReadNumLoop_mono hmem hbase, ok_bind, fdtReadNum,
      fdtReadNumLoop_mono hmem hsize, ok_bind]
    exact setNode_agree hsim h
  · rw [if_neg hlen] at h ⊢
    obtain rfl := Except.ok.inj h
    exact ⟨_, rfl, hsim⟩

omit hmem in
/-- The property that only the firmware knows changes nothing else. -/
theorem timebaseProp_agree {s'' : Scan} (hsim : Sim s s')
    (h : timebaseProp mem' value len s' = .ok s'') : Sim s s'' := by
  unfold timebaseProp at h
  split at h
  · obtain ⟨hz, _, h⟩ := bind_ok h
    obtain rfl := Except.ok.inj h
    exact hsim.withHz hz
  · obtain rfl := Except.ok.inj h
    exact hsim

end Properties

section Passes

/-- Every byte can be read. -/
def Mem.Total (mem : Mem) : Prop := ∀ a, ∃ b, mem a = some b

theorem rd8_total (htotal : mem.Total) (a : Nat) : ∃ b, rd8 mem a = .ok b := by
  obtain ⟨b, hb⟩ := htotal a
  exact ⟨b, by rw [rd8, hb]; rfl⟩

theorem fdt32_total (htotal : mem.Total) (a : Nat) : ∃ n, fdt32 mem a = .ok n := by
  obtain ⟨b0, h0⟩ := rd8_total htotal a
  obtain ⟨b1, h1⟩ := rd8_total htotal (a + 1)
  obtain ⟨b2, h2⟩ := rd8_total htotal (a + 2)
  obtain ⟨b3, h3⟩ := rd8_total htotal (a + 3)
  rw [fdt32, h0, ok_bind, h1, ok_bind, h2, ok_bind, h3]
  exact ⟨_, rfl⟩

theorem fwStrcmp_total (htotal : mem.Total) (a : Nat) (lit : Lit) :
    ∃ r, fwStrcmp mem a lit = .ok r := by
  induction lit generalizing a with
  | nil =>
      obtain ⟨x, hx⟩ := rd8_total htotal a
      rw [fwStrcmp, hx]
      exact ⟨_, rfl⟩
  | cons c lit ih =>
      obtain ⟨x, hx⟩ := rd8_total htotal a
      rw [fwStrcmp, hx, ok_bind]
      by_cases heq : x = c
      · rw [if_pos heq]
        by_cases hzero : x = 0
        · exact ⟨0, by rw [if_pos hzero]; rfl⟩
        · rw [if_neg hzero]
          exact ih (a + 1)
      · exact ⟨_, by rw [if_neg heq]; rfl⟩

/-- Equal strings begin with the same byte. -/
theorem fwStrcmp_head {a : Nat} {c : UInt8} {lit : Lit} (h : fwStrcmp mem a (c :: lit) = .ok 0) :
    mem a = some c := by
  obtain ⟨x, hx, h⟩ := bind_ok h
  by_cases heq : x = c
  · rw [← heq]
    exact rd8_ok hx
  · rw [if_neg heq] at h
    have hsign := Except.ok.inj h
    split at hsign <;> cases hsign

theorem strcmp_head {a : Nat} {c : UInt8} {lit : Lit} (h : strcmp mem a (c :: lit) = .ok 0) :
    mem a = some c := by
  obtain ⟨x, hx, h⟩ := bind_ok h
  by_cases heq : x = c
  · rw [← heq]
    exact rd8_ok hx
  · rw [if_neg fun hand => heq hand.2] at h
    have hdiff := Except.ok.inj h
    have hne : x.toNat ≠ c.toNat := fun hnat => heq (UInt8.toNat_inj.mp hnat)
    omega

theorem timebaseProp_total (htotal : mem.Total) (value len : Nat) (s : Scan) :
    ∃ t, timebaseProp mem value len s = .ok t := by
  unfold timebaseProp
  split
  · obtain ⟨hz, hhz⟩ := fdt32_total htotal value
    rw [hhz]
    exact ⟨_, rfl⟩
  · exact ⟨s, rfl⟩

variable {s t s' : Scan} {name value len fuel fuel' dtb dtb' : Nat} {hdr : Header}
  (hmem : mem.Within mem') (htotal : mem'.Total)
include hmem htotal

theorem nodeProp_agree (hfuel : fuel ≤ fuel') (hsim : Sim s s')
    (h : nodeProp mem fuel name value len s = .ok t) :
    ∃ t', fwNodeProp mem' fuel' name value len s' = .ok t' ∧ Sim t t' := by
  unfold nodeProp at h
  unfold fwNodeProp
  rw [hsim.depth]
  by_cases hpos : 0 < s.depth
  · rw [if_pos hpos] at h ⊢
    obtain ⟨r, hr, h⟩ := bind_ok h
    obtain ⟨r', hr', hiff⟩ := fwStrcmp_agree hmem hr
    rw [hr', ok_bind]
    simp only [hiff]
    by_cases hdevice : r = 0
    · rw [if_pos hdevice] at h ⊢
      exact deviceTypeProp_agree hmem hsim h
    · rw [if_neg hdevice] at h ⊢
      obtain ⟨q, hq, h⟩ := bind_ok h
      obtain ⟨q', hq', hiff⟩ := fwStrcmp_agree hmem hq
      rw [hq', ok_bind]
      simp only [hiff]
      by_cases hcompatible : q = 0
      · rw [if_pos hcompatible] at h ⊢
        exact compatibleProp_agree hmem hfuel hsim h
      · rw [if_neg hcompatible] at h ⊢
        obtain ⟨n, hn, h⟩ := bind_ok h
        obtain ⟨n', hn', hiff⟩ := fwStrcmp_agree hmem hn
        obtain ⟨m, hm⟩ := fwStrcmp_total htotal name nameTimebase
        rw [hm, ok_bind]
        by_cases htime : m = 0
        · -- the kernel compares such a name with `reg` only, and finds a difference
          rw [if_pos htime]
          have hreg : n ≠ 0 := by
            intro hzero
            rw [hzero] at hn
            rw [htime] at hm
            have hletter := hmem _ _ (strcmp_head hn)
            rw [fwStrcmp_head hm] at hletter
            cases hletter
          rw [if_neg hreg] at h
          obtain rfl := Except.ok.inj h
          obtain ⟨s'', hrun⟩ := timebaseProp_total htotal value len s'
          exact ⟨s'', hrun, timebaseProp_agree hsim hrun⟩
        · rw [if_neg htime, hn', ok_bind]
          simp only [hiff]
          by_cases hreg : n = 0
          · rw [if_pos hreg] at h ⊢
            exact regProp_agree hmem hsim h
          · rw [if_neg hreg] at h ⊢
            obtain rfl := Except.ok.inj h
            exact ⟨_, rfl, hsim⟩
  · rw [if_neg hpos] at h ⊢
    obtain rfl := Except.ok.inj h
    exact ⟨_, rfl, hsim⟩

omit hmem htotal in
/-- The base address does not matter when it is aligned. -/
theorem align4_of_aligned {p : Nat} (halign : dtb % 4 = 0) (halign' : dtb' % 4 = 0) :
    align4 dtb' p = align4 dtb p := by
  unfold align4
  omega

theorem prop_agree (hfuel : fuel ≤ fuel') (halign : dtb % 4 = 0) (halign' : dtb' % 4 = 0)
    (hsim : Sim s s') (h : prop mem fuel dtb hdr s = .ok t) :
    ∃ t', fwProp mem' fuel' dtb' hdr.offStrings s' = .ok t' ∧ Sim t t' := by
  unfold prop at h
  split at h
  · cases h
  obtain ⟨len, hlen, h⟩ := bind_ok h
  obtain ⟨nameoff, hnameoff, h⟩ := bind_ok h
  split at h
  · cases h
  unfold propValue at h
  obtain ⟨s₁, hcells, h⟩ := bind_ok h
  obtain ⟨s₂, hnode, h⟩ := bind_ok h
  split at h
  · cases h
  obtain rfl := Except.ok.inj h
  obtain ⟨t₁, hcells', hsim₁⟩ := cellsProp_agree hmem hsim hcells
  obtain ⟨t₂, hnode', hsim₂⟩ := nodeProp_agree hmem htotal hfuel hsim₁ hnode
  unfold fwProp
  rw [hsim.p, fdt32_mono hmem hlen, ok_bind, fdt32_mono hmem hnameoff, ok_bind]
  dsimp only
  rw [hcells', ok_bind, hnode', ok_bind, align4_of_aligned halign halign']
  exact ⟨_, rfl, hsim₂.withP _⟩

omit hmem htotal in
/-- A name lies in the part that may be read. -/
theorem fdtStrnlen_below {bound count a n : Nat} (hbound : mem.Below bound)
    (h : fdtStrnlen mem count a = .ok n) : n = 0 ∨ a + n ≤ bound := by
  induction count generalizing a n with
  | zero => exact Or.inl (Except.ok.inj h).symm
  | succ count ih =>
      obtain ⟨b, hb, h⟩ := bind_ok h
      split at h
      · exact Or.inl (Except.ok.inj h).symm
      · obtain ⟨m, hm, rfl⟩ := map_ok h
        have hlt := hbound a b (rd8_ok hb)
        rcases ih hm with hzero | hle <;> omega

omit htotal in
theorem beginNode_agree {bound : Nat} (hbound : mem.Below bound) (hlarge : bound < fuel')
    (halign : dtb % 4 = 0) (halign' : dtb' % 4 = 0)
    (hsim : Sim s s') (h : beginNode mem dtb hdr s = .ok t) :
    ∃ t', fwBeginNode mem' fuel' dtb' s' = .ok t' ∧ Sim t t' := by
  unfold beginNode at h
  obtain ⟨nameLen, hname, h⟩ := bind_ok h
  split at h
  · cases h
  next hend =>
    unfold enterNode at h
    obtain ⟨s₁, hpush, h⟩ := bind_ok h
    split at h
    · cases h
    obtain rfl := Except.ok.inj h
    have hshort : nameLen < fuel' := by
      rcases fdtStrnlen_below hbound hname with hzero | hle <;> omega
    obtain ⟨t₁, hpush', hsim₁⟩ := pushNode_agree hsim hpush
    have hstrlen := strlen_of_fdtStrnlen hmem hname (by omega) hshort
    unfold fwBeginNode
    rw [hsim.p, hstrlen, ok_bind, hpush', ok_bind, align4_of_aligned halign halign']
    exact ⟨_, rfl, hsim₁.withP _⟩

/-- One pass of the loop. -/
theorem pass_agree {bound : Nat} {req : Request} {go : Bool} (hbound : mem.Below bound)
    (hlarge : bound < fuel') (hfuel : fuel ≤ fuel') (halign : dtb % 4 = 0)
    (halign' : dtb' % 4 = 0) (hsim : Sim s s')
    (h : pass mem fuel dtb hdr req s = .ok (t, go)) :
    ∃ t', fwPass mem' fuel' dtb' hdr.offStrings req s' = .ok (t', go) ∧ Sim t t' := by
  unfold pass at h
  split at h
  · cases h
  obtain ⟨token, htoken, h⟩ := bind_ok h
  unfold fwPass
  rw [hsim.p, fdt32_mono hmem htoken, ok_bind]
  dsimp only at h ⊢
  have hsim₁ := hsim.withP (s.p + 4)
  -- each kind of token is repeated by the lemma of its branch
  have hlift {m : Run Scan} {m' : Run Scan} (h : (·, true) <$> m = .ok (t, go))
      (hagree : ∀ u, m = .ok u → ∃ u', m' = .ok u' ∧ Sim u u') :
      ∃ t', (·, true) <$> m' = .ok (t', go) ∧ Sim t t' := by
    obtain ⟨u, hu, heq⟩ := map_ok h
    obtain ⟨rfl, rfl⟩ := Prod.mk.inj heq
    obtain ⟨u', hu', hsim'⟩ := hagree u hu
    exact ⟨u', by rw [hu']; rfl, hsim'⟩
  by_cases hbegin : token = 1
  · rw [if_pos hbegin] at h ⊢
    exact hlift h fun u hu =>
      beginNode_agree hmem hbound hlarge halign halign' hsim₁ hu
  rw [if_neg hbegin] at h ⊢
  by_cases hend : token = 2
  · rw [if_pos hend] at h ⊢
    exact hlift h fun u hu => popNode_agree hsim₁ hu
  rw [if_neg hend] at h ⊢
  by_cases hprop : token = 3
  · rw [if_pos hprop] at h ⊢
    exact hlift h fun u hu => prop_agree hmem htotal hfuel halign halign' hsim₁ hu
  rw [if_neg hprop] at h ⊢
  by_cases hnop : token = 4
  · rw [if_pos hnop] at h ⊢
    obtain ⟨rfl, rfl⟩ := Prod.mk.inj (Except.ok.inj h)
    exact ⟨_, rfl, hsim₁⟩
  rw [if_neg hnop] at h ⊢
  by_cases hstop : token = 9
  · rw [if_pos hstop] at h ⊢
    obtain ⟨rfl, rfl⟩ := Prod.mk.inj (Except.ok.inj h)
    exact ⟨_, rfl, hsim₁⟩
  rw [if_neg hstop] at h
  cases h

/-- Induction on the passes of the kernel's loop. -/
theorem scanLoop_agree {bound passes passes' : Nat} {req : Request} (hbound : mem.Below bound)
    (hlarge : bound < fuel') (hfuel : fuel ≤ fuel') (halign : dtb % 4 = 0)
    (halign' : dtb' % 4 = 0) (hsim : Sim s s') (hle : passes ≤ passes')
    (h : scanLoop (pass mem fuel dtb hdr req) passes s = .ok t) :
    ∃ t', scanLoop (fwPass mem' fuel' dtb' hdr.offStrings req) passes' s' = .ok t' ∧ Sim t t' := by
  induction passes generalizing s s' passes' with
  | zero => cases h
  | succ passes ih =>
      obtain ⟨more, rfl⟩ := Nat.exists_eq_add_of_le' hle
      obtain ⟨⟨u, go⟩, hu, h⟩ := bind_ok h
      obtain ⟨u', hu', hsim'⟩ :=
        pass_agree hmem htotal hbound hlarge hfuel halign halign' hsim hu
      rw [← Nat.add_assoc, scanLoop, hu', ok_bind]
      cases go with
      | true => exact ih hsim' (Nat.le_add_left _ _) h
      | false =>
          obtain rfl := Except.ok.inj h
          exact ⟨u', rfl, hsim'⟩

end Passes

section Blob

theorem blobMem_below (blob : Nat → UInt8) (total : Nat) : (blobMem blob total).Below total := by
  intro a b h
  unfold blobMem at h
  split at h
  · assumption
  · cases h

/-- Memory that holds the bytes of the blob. -/
theorem blobMem_within {blob bytes : Nat → UInt8} {total : Nat}
    (h : ∀ a, a < total → bytes a = blob a) :
    (blobMem blob total).Within fun a => some (bytes a) := by
  intro a b hb
  unfold blobMem at hb
  split at hb
  next hlt =>
    rw [← h a hlt] at hb
    exact hb
  next => cases hb

variable {blob bytes : Nat → UInt8} {total fuel fuel' dtb dtb' : Nat} {req : Request}
  {junk junk' : Nat → NodeState} {found : Found}

theorem Sim.start (offStruct : Nat) (req : Request) (junk junk' : Nat → NodeState) :
    Sim (Scan.start offStruct req junk) (Scan.start offStruct req junk') where
  p := rfl
  depth := rfl
  addrCells := rfl
  sizeCells := rfl
  memBase := rfl
  memSize := rfl
  bases := rfl
  stack := fun i _ hi => by
    simp only [Scan.start] at hi
    omega

theorem Sim.found_eq {s s' : Scan} (hsim : Sim s s') : s'.found = s.found := by
  rw [Scan.found, Scan.found, hsim.memBase, hsim.memSize, hsim.bases]

/-- The scan of the firmware delivers what the kernel's delivers. -/
theorem fwFdtScan_of_fdtScan (hbytes : ∀ a, a < total → bytes a = blob a)
    (halign : dtb % 4 = 0) (halign' : dtb' % 4 = 0) (hfuel : fuel ≤ fuel') (hlarge : total < fuel')
    (h : fdtScan (blobMem blob total) fuel dtb req junk = .ok found) :
    fwFdtScan (fun a => some (bytes a)) fuel' dtb' req junk' = .ok found := by
  have hmem := blobMem_within hbytes
  have htotal : Mem.Total fun a => some (bytes a) := fun a => ⟨bytes a, rfl⟩
  unfold fdtScan readHeader at h
  obtain ⟨hdr, hhdr, hscan⟩ := bind_ok h
  obtain ⟨t, ht, hfound⟩ := bind_ok hscan
  obtain ⟨magic, hmagic, hhdr⟩ := bind_ok hhdr
  split at hhdr
  · cases hhdr
  next hok =>
    obtain ⟨size, _, hhdr⟩ := bind_ok hhdr
    split at hhdr
    · cases hhdr
    obtain ⟨offStruct, hstruct, hhdr⟩ := bind_ok hhdr
    obtain ⟨offStrings, hstrings, hhdr⟩ := bind_ok hhdr
    obtain ⟨sizeStruct, _, hhdr⟩ := bind_ok hhdr
    obtain ⟨sizeStrings, _, hhdr⟩ := bind_ok hhdr
    split at hhdr
    · cases hhdr
    obtain rfl := Except.ok.inj hhdr
    obtain ⟨t', ht', hsim⟩ := scanLoop_agree hmem htotal (blobMem_below blob total) hlarge hfuel
      halign halign' (Sim.start offStruct req junk junk') hfuel ht
    unfold fwFdtScan
    rw [fdt32_mono hmem hmagic, ok_bind, if_neg hok, fdt32_mono hmem hstruct, ok_bind,
      fdt32_mono hmem hstrings, ok_bind, ht', ok_bind, ← hfound]
    exact congrArg Except.ok hsim.found_eq

/-- Wherever the two images of the blob lie, aligned, and whatever lies behind the
firmware's: what the kernel's scanner finds while it reads only the blob, the
firmware's finds as well, and so do the two functions that call it. -/
theorem firmware_agrees (hbytes : ∀ a, a < total → bytes a = blob a)
    (halign : dtb % 4 = 0) (halign' : dtb' % 4 = 0) (hfuel : fuel ≤ fuel')
    (hlarge : total < fuel') :
    let kernel := blobMem blob total
    let firmware : Mem := fun a => some (bytes a)
    (∀ req found, fdtScan kernel fuel dtb req junk = .ok found →
      fwFdtScan firmware fuel' dtb' req junk' = .ok found) ∧
    (∀ found, fdtScan kernel fuel dtb ⟨true, 0, 0, true, 0⟩ junk = .ok found →
      fwFdtGetMemory firmware fuel' dtb' junk' = fdtGetMemory kernel fuel dtb junk) ∧
    (∀ maxBases bases, fdtFindVirtioMmio kernel fuel dtb maxBases junk = .ok bases →
      fwFdtFindVirtioMmio firmware fuel' dtb' maxBases junk' = .ok bases) := by
  intro kernel firmware
  have hscan (req : Request) (found : Found) (h : fdtScan kernel fuel dtb req junk = .ok found) :
      fwFdtScan firmware fuel' dtb' req junk' = .ok found :=
    fwFdtScan_of_fdtScan hbytes halign halign' hfuel hlarge h
  refine ⟨hscan, fun found h => ?_, fun maxBases bases h => ?_⟩
  · rw [fwFdtGetMemory, fdtGetMemory, hscan _ _ h, h]
  · obtain ⟨found, hfound, rfl⟩ := map_ok h
    rw [fwFdtFindVirtioMmio, hscan _ _ hfound]
    rfl

/-- A blob with one memory node of 128 MiB. -/
def memoryBlob : List UInt8 :=
  [0xd0, 0x0d, 0xfe, 0xed, 0, 0, 0, 132, 0, 0, 0, 40, 0, 0, 0, 116, 0, 0, 0, 0,
    0, 0, 0, 17, 0, 0, 0, 16, 0, 0, 0, 0, 0, 0, 0, 16, 0, 0, 0, 76,
    0, 0, 0, 1, 0, 0, 0, 0, 0, 0, 0, 1, 109, 0, 0, 0,
    0, 0, 0, 3, 0, 0, 0, 7, 0, 0, 0, 0, 109, 101, 109, 111, 114, 121, 0, 0,
    0, 0, 0, 3, 0, 0, 0, 16, 0, 0, 0, 12, 0, 0, 0, 0, 0x80, 0, 0, 0, 0, 0, 0, 0, 8, 0, 0, 0,
    0, 0, 0, 2, 0, 0, 0, 2, 0, 0, 0, 9,
    100, 101, 118, 105, 99, 101, 95, 116, 121, 112, 101, 0, 114, 101, 103, 0]

theorem firmware_agrees_memory :
    fwFdtScan (fun a => some (memoryBlob.getD a 0)) 200 0x82200000 ⟨true, 0, 0, true, 8⟩
      (fun _ => .zero) = .ok ⟨0x80000000, 0x8000000, []⟩ := by
  have hkernel : fdtScan (blobMem (fun a => memoryBlob.getD a 0) 132) 20 0x88000000
      ⟨true, 0, 0, true, 8⟩ (fun _ => .zero) = .ok ⟨0x80000000, 0x8000000, []⟩ := by
    decide +kernel
  exact (firmware_agrees (fun _ _ => rfl) (by decide) (by decide) (by decide) (by decide)).1 _ _
    hkernel

end Blob

end Fdt

end OsAgentLab
