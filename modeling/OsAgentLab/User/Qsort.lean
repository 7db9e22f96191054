/-
`qsort` of the C library, `stdlib.c`: a quicksort by exchanges of bytes that
names the pivot by its address.
-/
import Mathlib.Data.List.Perm.Basic
import OsAgentLab.Program
import OsAgentLab.Quicksort
import OsAgentLab.Memory

namespace OsAgentLab

/-- The array that was given to `qsort`: `nmemb` elements of `size` bytes. -/
structure SortArray where
  base : Nat
  nmemb : Nat
  size : Nat

/-- The bytes of the element at `x`. -/
def elementAt (size : Nat) (m : Nat → UInt8) (x : Nat) : List UInt8 :=
  (List.range size).map fun k => m (x + k)

/-- The elements from the address `base` on. -/
def elementsAt (size : Nat) (m : Nat → UInt8) (base k : Nat) : List UInt8 :=
  elementAt size m (base + k * size)

/-- All of the element at `x` lies in the array. -/
def SortArray.Has (arr : SortArray) (x : Nat) : Prop :=
  arr.base ≤ x ∧ x + arr.size ≤ arr.base + arr.nmemb * arr.size

instance (arr : SortArray) (x : Nat) : Decidable (arr.Has x) := inferInstanceAs (Decidable (_ ∧ _))

/-- Programs over the memory of the process. -/
abbrev SortProg (α : Type) : Type := Prog (Nat → UInt8) Unit α

/-- `compar(x, y)`, which looks at the elements behind its arguments; an address
outside of the array is a fault. -/
def compar (arr : SortArray) (cmp : List UInt8 → List UInt8 → Int) (x y : Nat) : SortProg Int :=
  fun m =>
    if arr.Has x ∧ arr.Has y then
      (.ok (cmp (elementAt arr.size m x) (elementAt arr.size m y)), m)
    else (.fault, m)

/-- `tmp = a[i]; a[i] = b[i]; b[i] = tmp`. -/
def swapByte (a b : Nat) (m : Nat → UInt8) : Nat → UInt8 :=
  Function.update (Function.update m a (m b)) b (m a)

/-- `swap_bytes`. -/
def swapBytes (a b size : Nat) (m : Nat → UInt8) : Nat → UInt8 :=
  (List.range size).foldl (fun m k => swapByte (a + k) (b + k) m) m

section Model

variable (arr : SortArray) (cmp : List UInt8 → List UInt8 → Int)

/-- `while (compar(base + i * size, pivot_elem) < 0) i++`. -/
def qsortUp (base pivot : Nat) : Nat → Nat → SortProg Nat
  | 0, _ => Prog.hang
  | fuel + 1, i => do
      let c ← compar arr cmp (base + i * arr.size) pivot
      if c < 0 then qsortUp base pivot fuel (i + 1) else pure i

/-- `while (compar(base + j * size, pivot_elem) > 0) { if (j == 0) break; j--; }`. -/
def qsortDown (base pivot : Nat) : Nat → Nat → SortProg Nat
  | 0, _ => Prog.hang
  | fuel + 1, j => do
      let c ← compar arr cmp (base + j * arr.size) pivot
      if 0 < c then
        if j = 0 then pure j else qsortDown base pivot fuel (j - 1)
      else pure j

/-- The loop `while (i <= j)` of `qsort_impl`, which ends with `i` and `j`; no index
leaves the array, so that no sum wraps. -/
def qsortPartition (base nmemb pivot : Nat) : Nat → Nat → Nat → SortProg (Nat × Nat)
  | 0, _, _ => Prog.hang
  | fuel + 1, i, j =>
      if i ≤ j then do
        let i ← qsortUp arr cmp base pivot (nmemb + 1) i
        let j ← qsortDown arr cmp base pivot (nmemb + 1) j
        if i ≤ j then do
          Prog.modify (swapBytes (base + i * arr.size) (base + j * arr.size) arr.size)
          if j = 0 then pure (i + 1, j)
          else qsortPartition base nmemb pivot fuel (i + 1) (j - 1)
        else qsortPartition base nmemb pivot fuel i j
      else pure (i, j)

/-- `qsort_impl`. -/
def qsortImpl : Nat → Nat → Nat → SortProg Unit
  | 0, _, _ => Prog.hang
  | fuel + 1, base, nmemb =>
      if nmemb < 2 then pure ()
      else do
        let pivot := nmemb / 2
        let (i, j) ← qsortPartition arr cmp base nmemb (base + pivot * arr.size) (nmemb + 2) 0
          (nmemb - 1)
        (if 1 < j + 1 then qsortImpl fuel base (j + 1) else pure ())
        (if i < nmemb then qsortImpl fuel (base + i * arr.size) (nmemb - i) else pure ())

/-- `qsort`. -/
def qsort : SortProg Unit :=
  if arr.base = 0 ∨ arr.size = 0 then pure ()
  else qsortImpl arr cmp (arr.nmemb + 1) arr.base arr.nmemb

end Model

variable {arr : SortArray} {cmp : List UInt8 → List UInt8 → Int} {S : List UInt8 → Prop}
  {m m' : Nat → UInt8} {a b base i j n p x : Nat}

section Swap

/-- Exchanging the bytes of two places that do not overlap, or are the same. -/
theorem swapBytes_apply (h : a = b ∨ a + n ≤ b ∨ b + n ≤ a) :
    swapBytes a b n m x =
      if a ≤ x ∧ x < a + n then m (b + (x - a))
      else if b ≤ x ∧ x < b + n then m (a + (x - b)) else m x := by
  induction n generalizing x with
  | zero =>
      rw [if_neg (by omega), if_neg (by omega)]
      rfl
  | succ n ih =>
      have hfold : swapBytes a b (n + 1) m = swapByte (a + n) (b + n) (swapBytes a b n m) := by
        rw [swapBytes, List.range_succ, List.foldl_append]
        rfl
      have hlow : swapBytes a b n m (a + n) = m (a + n) := by
        rw [ih (by omega), if_neg (by omega), if_neg (by omega)]
      have hhigh : swapBytes a b n m (b + n) = m (b + n) := by
        rw [ih (by omega), if_neg (by omega), if_neg (by omega)]
      rw [hfold, swapByte, hlow, hhigh]
      by_cases hxb : x = b + n
      · rw [hxb, Function.update_self]
        by_cases hab : a = b
        · rw [if_pos (by omega), hab]
          congr 1
          omega
        · rw [if_neg (by omega), if_pos (by omega), Nat.add_sub_cancel_left]
      rw [Function.update_of_ne hxb]
      by_cases hxa : x = a + n
      · rw [hxa, Function.update_self, if_pos (by omega), Nat.add_sub_cancel_left]
      have hina : (a ≤ x ∧ x < a + (n + 1)) ↔ a ≤ x ∧ x < a + n := by omega
      have hinb : (b ≤ x ∧ x < b + (n + 1)) ↔ b ≤ x ∧ x < b + n := by omega
      simp only [Function.update_of_ne hxa, ih (show a = b ∨ _ by omega), hina, hinb]

/-- Different elements lie apart. -/
theorem slots_apart (size : Nat) {k : Nat} (h : k ≠ i) :
    k * size + size ≤ i * size ∨ i * size + size ≤ k * size := by
  rcases Nat.lt_or_gt_of_ne h with hlt | hlt
  · have hle := Nat.mul_le_mul_right size (Nat.succ_le_of_lt hlt)
    rw [Nat.succ_mul] at hle
    exact Or.inl hle
  · have hle := Nat.mul_le_mul_right size (Nat.succ_le_of_lt hlt)
    rw [Nat.succ_mul] at hle
    exact Or.inr hle

/-- `swap_bytes` exchanges two elements. -/
theorem elementsAt_swapBytes (size : Nat) (m : Nat → UInt8) (base i j : Nat) :
    elementsAt size (swapBytes (base + i * size) (base + j * size) size m) base =
      exchange (elementsAt size m base) i j := by
  have hapart : base + i * size = base + j * size ∨ base + i * size + size ≤ base + j * size ∨
      base + j * size + size ≤ base + i * size := by
    by_cases hij : i = j
    · exact Or.inl (by rw [hij])
    · have := slots_apart size hij
      omega
  funext k
  simp only [exchange, Function.comp_apply, elementsAt, elementAt]
  apply List.map_congr_left
  intro t ht
  have ht := List.mem_range.mp ht
  rw [swapBytes_apply hapart]
  by_cases hki : k = i
  · rw [hki, Equiv.swap_apply_left, if_pos (by omega)]
    congr 1
    omega
  have hi := slots_apart size hki
  rw [if_neg (by omega)]
  by_cases hkj : k = j
  · rw [hkj, Equiv.swap_apply_right, if_pos (by omega)]
    congr 1
    omega
  have hj := slots_apart size hkj
  rw [if_neg (by omega), Equiv.swap_apply_of_ne_of_ne hki hkj]

/-- `swap_bytes` leaves the memory around the array alone. -/
theorem swapBytes_frame {size : Nat} (hi : i < n) (hj : j < n)
    (hx : ¬ (base ≤ x ∧ x < base + n * size)) :
    swapBytes (base + i * size) (base + j * size) size m x = m x := by
  have hapart : base + i * size = base + j * size ∨ base + i * size + size ≤ base + j * size ∨
      base + j * size + size ≤ base + i * size := by
    by_cases hij : i = j
    · exact Or.inl (by rw [hij])
    · have := slots_apart size hij
      omega
  have hle := Nat.mul_le_mul_right size hi
  have hle' := Nat.mul_le_mul_right size hj
  rw [Nat.succ_mul] at hle hle'
  rw [swapBytes_apply hapart, if_neg (by omega), if_neg (by omega)]

end Swap

section Loops

/-- The `n` elements from `base` on belong to the array. -/
def SortArray.HasPart (arr : SortArray) (base n : Nat) : Prop :=
  arr.base ≤ base ∧ base + n * arr.size ≤ arr.base + arr.nmemb * arr.size

theorem SortArray.HasPart.has (h : arr.HasPart base n) (hi : i < n) :
    arr.Has (base + i * arr.size) := by
  have hle := Nat.mul_le_mul_right arr.size (Nat.succ_le_of_lt hi)
  rw [Nat.succ_mul] at hle
  exact ⟨Nat.le_trans h.1 (Nat.le_add_right ..), by
    have := h.2
    omega⟩

/-- A part of a part. -/
theorem SortArray.HasPart.sub (h : arr.HasPart base n) {k : Nat} (hk : i + k ≤ n) :
    arr.HasPart (base + i * arr.size) k := by
  have hle := Nat.mul_le_mul_right arr.size hk
  rw [Nat.add_mul] at hle
  exact ⟨Nat.le_trans h.1 (Nat.le_add_right ..), by
    have := h.2
    omega⟩

theorem compar_run (h : arr.HasPart base n) (hi : i < n) (hp : p < n) :
    compar arr cmp (base + i * arr.size) (base + p * arr.size) m =
      (.ok (cmp (elementsAt arr.size m base i) (elementsAt arr.size m base p)), m) := by
  rw [compar, if_pos ⟨h.has hi, h.has hp⟩]
  rfl

/-- An element that does not compare less than the pivot ends the scan upwards. -/
theorem qsortUp_run (h : arr.HasPart base n) (hp : p < n) {s : Nat} (hsn : s < n)
    (hs : ¬ cmp (elementsAt arr.size m base s) (elementsAt arr.size m base p) < 0) :
    ∀ (fuel i : Nat), i ≤ s → s < fuel + i →
      ∃ i', qsortUp arr cmp base (base + p * arr.size) fuel i m = (.ok i', m) ∧ i' ≤ s ∧
        ScansUp cmp p (elementsAt arr.size m base) i i' := by
  intro fuel
  induction fuel with
  | zero => exact fun i hi hfuel => by omega
  | succ fuel ih =>
      intro i hi hfuel
      rw [qsortUp, Prog.bind_ok (compar_run h (by omega) hp)]
      by_cases hlt : cmp (elementsAt arr.size m base i) (elementsAt arr.size m base p) < 0
      · have hne : i ≠ s := fun heq => hs (heq ▸ hlt)
        obtain ⟨i', hrun, hle, hscan⟩ := ih (i + 1) (by omega) (by omega)
        refine ⟨i', by rw [if_pos hlt, hrun], hle, ?_, fun k hk hki => ?_, hscan.stop⟩
        · have := hscan.le
          omega
        · by_cases heq : k = i
          · exact heq ▸ hlt
          · exact hscan.below k (by omega) hki
      · refine ⟨i, by rw [if_neg hlt]; rfl, hi, Nat.le_refl i, fun k hk hki => ?_, hlt⟩
        omega

/-- The scan downwards ends at the latest at the first element. -/
theorem qsortDown_run (h : arr.HasPart base n) (hp : p < n) :
    ∀ (fuel j : Nat), j < n → j < fuel →
      ∃ j', qsortDown arr cmp base (base + p * arr.size) fuel j m = (.ok j', m) ∧
        ScansDown cmp p (elementsAt arr.size m base) j j' := by
  intro fuel
  induction fuel with
  | zero => exact fun j _ hfuel => by omega
  | succ fuel ih =>
      intro j hj hfuel
      rw [qsortDown, Prog.bind_ok (compar_run h hj hp)]
      by_cases hgt : 0 < cmp (elementsAt arr.size m base j) (elementsAt arr.size m base p)
      · rw [if_pos hgt]
        by_cases hzero : j = 0
        · refine ⟨j, by rw [if_pos hzero]; rfl, Nat.le_refl j, fun k hk hkj => ?_, Or.inl hzero⟩
          omega
        · obtain ⟨j', hrun, hscan⟩ := ih (j - 1) (by omega) (by omega)
          have hle := hscan.le
          refine ⟨j', by rw [if_neg hzero, hrun], by omega, fun k hk hkj => ?_, hscan.stop⟩
          by_cases heq : k = j
          · exact heq ▸ hgt
          · exact hscan.above k hk (by omega)
      · rw [if_neg hgt]
        refine ⟨j, rfl, Nat.le_refl j, fun k hk hkj => ?_, Or.inr hgt⟩
        omega

/-- What an exchange has put at the upper place does not compare less than the pivot,
also when the pivot itself was moved. -/
theorem exchange_stops {f : Nat → List UInt8} (hpre : Preordered cmp S)
    (hS : ∀ k, k < n → S (f k)) (hi : i < n) (hj : j < n) {i₀ j₀ : Nat}
    (hup : ScansUp cmp p f i₀ i) (hdown : ScansDown cmp p f j₀ j) (hne : j ≠ 0) :
    ¬ cmp (exchange f i j j) (exchange f i j p) < 0 := by
  have hhigh : exchange f i j j = f i := by
    rw [exchange, Function.comp_apply, Equiv.swap_apply_right]
  rw [hhigh]
  by_cases hpj : p = j
  · have hself := hpre.cmp_self (hS i hi)
    rw [hpj, hhigh]
    omega
  by_cases hpi : p = i
  · have hstop := hdown.stop.resolve_left hne
    have hlow : exchange f i j i = f j := by
      rw [exchange, Function.comp_apply, Equiv.swap_apply_left]
    rw [hpi, hlow]
    rw [hpi] at hstop
    exact hpre.not_lt_of_le (hS j hj) (hS i hi) (by omega)
  · rw [exchange, Function.comp_apply, Equiv.swap_apply_of_ne_of_ne hpi hpj]
    exact hup.stop

/-- The loop is a partition.  The scan upwards always has an element in front of it
that stops it: the pivot at first, and later what the exchange before has put at the
upper place. -/
theorem qsortPartition_run (hpre : Preordered cmp S) (h : arr.HasPart base n) (hp : p < n) :
    ∀ (fuel i j : Nat) (m : Nat → UInt8), (∀ k, k < n → S (elementsAt arr.size m base k)) →
      j < n → (i ≤ j → ∃ s, i ≤ s ∧ s < n ∧
        ¬ cmp (elementsAt arr.size m base s) (elementsAt arr.size m base p) < 0) →
      j + 2 ≤ fuel + i → 0 < fuel →
      ∃ i' j' m', qsortPartition arr cmp base n (base + p * arr.size) fuel i j m =
          (.ok (i', j'), m') ∧
        Partition cmp p (elementsAt arr.size m base) i j (elementsAt arr.size m' base) i' j' ∧
        ∀ x, ¬ (base ≤ x ∧ x < base + n * arr.size) → m' x = m x := by
  intro fuel
  induction fuel with
  | zero => exact fun i j m _ _ _ _ hfuel => by omega
  | succ fuel ih =>
      intro i j m hS hj hsentinel hfuel _
      rw [qsortPartition]
      by_cases hij : i ≤ j
      · rw [if_pos hij]
        obtain ⟨s, his, hsn, hs⟩ := hsentinel hij
        obtain ⟨i', hup, hi's, hscan⟩ := qsortUp_run h hp hsn hs (n + 1) i his (by omega)
        obtain ⟨j', hdown, hscan'⟩ :=
          @qsortDown_run arr cmp m base n p h hp (n + 1) j hj (by omega)
        have hle := hscan.le
        have hle' := hscan'.le
        rw [Prog.bind_ok hup, Prog.bind_ok hdown]
        by_cases hcross : i' ≤ j'
        · rw [if_pos hcross, Prog.modify_bind]
          have hswap := elementsAt_swapBytes arr.size m base i' j'
          have hframe : ∀ x, ¬ (base ≤ x ∧ x < base + n * arr.size) →
              swapBytes (base + i' * arr.size) (base + j' * arr.size) arr.size m x = m x :=
            fun x hx => swapBytes_frame (by omega) (by omega) hx
          by_cases hzero : j' = 0
          · rw [if_pos hzero]
            subst hzero
            refine ⟨i' + 1, 0, _, rfl, ?_, hframe⟩
            rw [hswap]
            exact .bottom hij hscan hscan' (by omega)
          · rw [if_neg hzero]
            have hrearr : Rearranged n (elementsAt arr.size m base)
                (exchange (elementsAt arr.size m base) i' j') := .exchange _ (by omega) (by omega)
            obtain ⟨i'', j'', m'', hrun, hpart, hframe'⟩ := ih (i' + 1) (j' - 1)
              (swapBytes (base + i' * arr.size) (base + j' * arr.size) arr.size m)
              (fun k hk => by
                rw [hswap]
                exact hrearr.admits hS hk)
              (by omega)
              (fun hle => ⟨j', by omega, by omega, by
                rw [hswap]
                exact exchange_stops hpre hS (by omega) (by omega) hscan hscan' hzero⟩)
              (by omega) (by omega)
            rw [hswap] at hpart
            exact ⟨i'', j'', m'', hrun, .step hij hscan hscan' hcross hzero hpart,
              fun x hx => (hframe' x hx).trans (hframe x hx)⟩
        · rw [if_neg hcross]
          obtain ⟨fuel, rfl⟩ : ∃ f, fuel = f + 1 := ⟨fuel - 1, by omega⟩
          rw [qsortPartition, if_neg hcross]
          exact ⟨i', j', m, rfl, .passed hij hscan hscan' (by omega), fun _ _ => rfl⟩
      · rw [if_neg hij]
        exact ⟨i, j, m, rfl, .crossed (by omega), fun _ _ => rfl⟩

end Loops

section Runs

theorem elementsAt_add (size : Nat) (m : Nat → UInt8) (base i : Nat) :
    elementsAt size m (base + i * size) = fun k => elementsAt size m base (i + k) := by
  funext k
  rw [elementsAt, elementsAt, Nat.add_mul, Nat.add_assoc]

/-- Elements lie where their bytes are. -/
theorem elementsAt_congr {size k : Nat}
    (h : ∀ x, base + k * size ≤ x → x < base + k * size + size → m' x = m x) :
    elementsAt size m' base k = elementsAt size m base k := by
  apply List.map_congr_left
  intro t ht
  have ht := List.mem_range.mp ht
  exact h _ (by omega) (by omega)

/-- `qsort_impl` comes back with a run of the sort. -/
theorem qsortImpl_run (hpre : Preordered cmp S) :
    ∀ (fuel base n : Nat) (m : Nat → UInt8), n < fuel → arr.HasPart base n →
      (∀ k, k < n → S (elementsAt arr.size m base k)) →
      ∃ m', qsortImpl arr cmp fuel base n m = (.ok (), m') ∧
        Sorts cmp n (elementsAt arr.size m base) (elementsAt arr.size m' base) ∧
        ∀ x, ¬ (base ≤ x ∧ x < base + n * arr.size) → m' x = m x := by
  intro fuel
  induction fuel with
  | zero => exact fun base n m hfuel _ _ => by omega
  | succ fuel ih =>
      intro base n m hfuel h hS
      rw [qsortImpl]
      by_cases hshort : n < 2
      · rw [if_pos hshort]
        exact ⟨m, rfl, .short hshort, fun _ _ => rfl⟩
      rw [if_neg hshort]
      have hp : n / 2 < n := by omega
      have hself := hpre.cmp_self (hS _ hp)
      obtain ⟨i, j, m₁, hrun, hpart, hframe₁⟩ := qsortPartition_run hpre h hp (n + 2) 0 (n - 1) m
        hS (by omega) (fun _ => ⟨n / 2, by omega, hp, by omega⟩) (by omega) (by omega)
      rw [Prog.bind_ok hrun]
      obtain ⟨hji, _, _, hrearr⟩ := hpart.ends
      obtain ⟨hi, hjn⟩ := hpart.proper hself (by omega) hp
      have hS₁ : ∀ k, k < n → S (elementsAt arr.size m₁ base k) :=
        fun k hk => (hrearr n (by omega)).admits hS hk
      have hjle := Nat.mul_le_mul_right arr.size (Nat.le_of_lt hjn)
      have hile := Nat.mul_le_mul_right arr.size (Nat.succ_le_of_lt hji)
      -- the part up to `j`, which is sorted already when it is a single element
      obtain ⟨m₂, hleft, hsorts, hframe₂⟩ : ∃ m₂,
          (if 1 < j + 1 then qsortImpl arr cmp fuel base (j + 1) else pure ()) m₁ = (.ok (), m₂) ∧
          Sorts cmp (j + 1) (elementsAt arr.size m₁ base) (elementsAt arr.size m₂ base) ∧
          ∀ x, ¬ (base ≤ x ∧ x < base + (j + 1) * arr.size) → m₂ x = m₁ x := by
        by_cases hone : 1 < j + 1
        · rw [if_pos hone]
          exact ih base (j + 1) m₁ (by omega) ⟨h.1, by
            have := h.2
            omega⟩ fun k hk => hS₁ k (by omega)
        · rw [if_neg hone]
          exact ⟨m₁, rfl, .short (by omega), fun _ _ => rfl⟩
      have hleft' := hsorts.rearranged.mono (Nat.le_of_lt hjn)
      -- the part from `i` on
      obtain ⟨m₃, hright, hsorts', hframe₃⟩ : ∃ m₃,
          (if i < n then qsortImpl arr cmp fuel (base + i * arr.size) (n - i) else pure ()) m₂ =
            (.ok (), m₃) ∧
          Sorts cmp (n - i) (elementsAt arr.size m₂ (base + i * arr.size))
            (elementsAt arr.size m₃ (base + i * arr.size)) ∧
          ∀ x, ¬ (base + i * arr.size ≤ x ∧
            x < base + i * arr.size + (n - i) * arr.size) → m₃ x = m₂ x := by
        by_cases hrest : i < n
        · rw [if_pos hrest]
          refine ih (base + i * arr.size) (n - i) m₂ (by omega) (h.sub (by omega)) fun k hk => ?_
          rw [elementsAt_add]
          exact hleft'.admits hS₁ (show i + k < n by omega)
        · rw [if_neg hrest]
          exact ⟨m₂, rfl, .short (by omega), fun _ _ => rfl⟩
      dsimp only
      rw [Prog.bind_ok hleft]
      refine ⟨m₃, hright, ?_, fun x hx => ?_⟩
      · rw [elementsAt_add, elementsAt_add] at hsorts'
        refine .parts (by omega) hpart hsorts hsorts' fun k hk => ?_
        apply elementsAt_congr
        intro x hle hlt
        have hk := Nat.mul_le_mul_right arr.size (Nat.succ_le_of_lt hk)
        rw [Nat.succ_mul] at hk
        exact hframe₃ x (by omega)
      · have hsum : i < n → i * arr.size + (n - i) * arr.size = n * arr.size := by
          intro hin
          rw [← Nat.add_mul, Nat.add_sub_cancel' (Nat.le_of_lt hin)]
        rw [hframe₃ x, hframe₂ x, hframe₁ x hx]
        · omega
        · by_cases hin : i < n
          · have := hsum hin
            omega
          · rw [Nat.sub_eq_zero_of_le (by omega), Nat.zero_mul]
            omega

end Runs

section Claim

/-- Bytes in the order of their values. -/
def compareBytes (x y : List UInt8) : Int := (x.headD 0).toNat - (y.headD 0).toNat

theorem compareBytes_preordered : Preordered compareBytes fun _ => True where
  swap _ _ := by
    simp only [compareBytes]
    omega
  trans _ _ _ hxy hyz := by
    simp only [compareBytes] at hxy hyz ⊢
    omega

/-- Memory that holds the given bytes at the address 4096. -/
def bytesAt4096 (bytes : List UInt8) : Nat → UInt8 := fun x => bytes.getD (x - 4096) 0

end Claim

end OsAgentLab
