/-
Quicksort by exchanges, where the pivot is named by its place: the partition of
a sequence, the runs of the sort, and when a run leaves the sequence sorted.
-/
import Mathlib.Logic.Equiv.Basic

namespace OsAgentLab

universe u

variable {α : Type u}

/-- The comparator orders the elements that `S` admits as a total preorder. -/
structure Preordered (cmp : α → α → Int) (S : α → Prop) : Prop where
  swap : ∀ {x y}, S x → S y → (cmp x y < 0 ↔ 0 < cmp y x)
  trans : ∀ {x y z}, S x → S y → S z → cmp x y ≤ 0 → cmp y z ≤ 0 → cmp x z ≤ 0

/-- No element of the first `n` compares greater than a later one. -/
def SortedUpTo (cmp : α → α → Int) (n : Nat) (f : Nat → α) : Prop :=
  ∀ x y, x < y → y < n → cmp (f x) (f y) ≤ 0

/-- `g` is `f` with the first `n` places exchanged among each other. -/
def Rearranged (n : Nat) (f g : Nat → α) : Prop :=
  ∃ σ : Equiv.Perm Nat, (∀ k, n ≤ k → σ k = k) ∧ g = f ∘ σ

/-- The first place from `i` on whose element does not compare less than the
one at `p`. -/
structure ScansUp (cmp : α → α → Int) (p : Nat) (f : Nat → α) (i i' : Nat) : Prop where
  le : i ≤ i'
  below : ∀ k, i ≤ k → k < i' → cmp (f k) (f p) < 0
  stop : ¬ cmp (f i') (f p) < 0

/-- The last place up to `j` whose element does not compare greater than the one
at `p`, or zero. -/
structure ScansDown (cmp : α → α → Int) (p : Nat) (f : Nat → α) (j j' : Nat) : Prop where
  le : j' ≤ j
  above : ∀ k, j' < k → k ≤ j → 0 < cmp (f k) (f p)
  stop : j' = 0 ∨ ¬ 0 < cmp (f j') (f p)

/-- The exchange of two places. -/
def exchange (f : Nat → α) (i j : Nat) : Nat → α := f ∘ Equiv.swap i j

/-- The partition between `i` and `j` with the pivot at the place `p`, whatever
element lies there at the time. -/
inductive Partition (cmp : α → α → Int) (p : Nat) :
    (Nat → α) → Nat → Nat → (Nat → α) → Nat → Nat → Prop
  | crossed {f : Nat → α} {i j : Nat} : j < i → Partition cmp p f i j f i j
  | passed {f : Nat → α} {i j i' j' : Nat} : i ≤ j → ScansUp cmp p f i i' →
      ScansDown cmp p f j j' → j' < i' → Partition cmp p f i j f i' j'
  | bottom {f : Nat → α} {i j i' : Nat} : i ≤ j → ScansUp cmp p f i i' →
      ScansDown cmp p f j 0 → i' = 0 → Partition cmp p f i j (exchange f i' 0) (i' + 1) 0
  | step {f g : Nat → α} {i j i' j' a b : Nat} : i ≤ j → ScansUp cmp p f i i' →
      ScansDown cmp p f j j' → i' ≤ j' → j' ≠ 0 →
      Partition cmp p (exchange f i' j') (i' + 1) (j' - 1) g a b → Partition cmp p f i j g a b

/-- A run of the sort on the first `n` elements. -/
inductive Sorts (cmp : α → α → Int) : Nat → (Nat → α) → (Nat → α) → Prop
  | short {n : Nat} {f : Nat → α} : n < 2 → Sorts cmp n f f
  | parts {n i j : Nat} {f f' g r : Nat → α} : 2 ≤ n →
      Partition cmp (n / 2) f 0 (n - 1) f' i j → Sorts cmp (j + 1) f' g →
      Sorts cmp (n - i) (fun k => g (i + k)) (fun k => r (i + k)) → (∀ k, k < i → r k = g k) →
      Sorts cmp n f r

/-- No element compares greater than one behind it, unless both lie in the part up
to `j` or both in the part from `i` on. -/
def KeepsApart (cmp : α → α → Int) (n i j : Nat) (f : Nat → α) : Prop :=
  ∀ x y, x < y → y < n → y ≤ j ∨ i ≤ x ∨ cmp (f x) (f y) ≤ 0

/-- Every partition of the run keeps its parts apart. -/
inductive Splits (cmp : α → α → Int) : Nat → (Nat → α) → Prop
  | short {n : Nat} {f : Nat → α} : n < 2 → Splits cmp n f
  | parts {n i j : Nat} {f f' : Nat → α} : 2 ≤ n →
      Partition cmp (n / 2) f 0 (n - 1) f' i j → KeepsApart cmp n i j f' →
      Splits cmp (j + 1) f' → Splits cmp (n - i) (fun k => f' (i + k)) → Splits cmp n f

/-- Every partition of the run leaves in the pivot's place an element that compares
equal to the pivot. -/
inductive Steady (cmp : α → α → Int) : Nat → (Nat → α) → Prop
  | short {n : Nat} {f : Nat → α} : n < 2 → Steady cmp n f
  | parts {n i j : Nat} {f f' : Nat → α} : 2 ≤ n →
      Partition cmp (n / 2) f 0 (n - 1) f' i j → cmp (f' (n / 2)) (f (n / 2)) = 0 →
      Steady cmp (j + 1) f' → Steady cmp (n - i) (fun k => f' (i + k)) → Steady cmp n f

variable {cmp : α → α → Int} {S : α → Prop} {n p i j i' j' a b a' b' : Nat}
  {f g f' g' r : Nat → α}

namespace Preordered

variable {x y z : α}

theorem cmp_self (h : Preordered cmp S) (hx : S x) : cmp x x = 0 := by
  have hiff := h.swap hx hx
  omega

theorem le_of_not_lt (h : Preordered cmp S) (hx : S x) (hy : S y) (hxy : ¬ cmp x y < 0) :
    cmp y x ≤ 0 := by
  have hiff := h.swap hx hy
  omega

theorem not_lt_of_le (h : Preordered cmp S) (hx : S x) (hy : S y) (hxy : cmp x y ≤ 0) :
    ¬ cmp y x < 0 := by
  have hiff := h.swap hy hx
  omega

end Preordered

namespace Rearranged

theorem refl (n : Nat) (f : Nat → α) : Rearranged n f f :=
  ⟨Equiv.refl Nat, fun _ _ => rfl, rfl⟩

theorem trans (h : Rearranged n f g) (h' : Rearranged n g r) : Rearranged n f r := by
  obtain ⟨σ, hσ, rfl⟩ := h
  obtain ⟨τ, hτ, rfl⟩ := h'
  refine ⟨τ.trans σ, fun k hk => ?_, rfl⟩
  rw [Equiv.trans_apply, hτ k hk, hσ k hk]

theorem mono (h : Rearranged n f g) {m : Nat} (hnm : n ≤ m) : Rearranged m f g := by
  obtain ⟨σ, hσ, rfl⟩ := h
  exact ⟨σ, fun k hk => hσ k (Nat.le_trans hnm hk), rfl⟩

theorem exchange (f : Nat → α) (hi : i < n) (hj : j < n) :
    Rearranged n f (exchange f i j) := by
  refine ⟨Equiv.swap i j, fun k hk => ?_, rfl⟩
  exact Equiv.swap_apply_of_ne_of_ne (by omega) (by omega)

/-- The places behind the first `n` keep their elements. -/
theorem outside (h : Rearranged n f g) {k : Nat} (hk : n ≤ k) : g k = f k := by
  obtain ⟨σ, hσ, rfl⟩ := h
  rw [Function.comp_apply, hσ k hk]

/-- Every one of the first `n` elements comes from one of the first `n` places. -/
theorem source (h : Rearranged n f g) {k : Nat} (hk : k < n) : ∃ x, x < n ∧ g k = f x := by
  obtain ⟨σ, hσ, rfl⟩ := h
  refine ⟨σ k, ?_, rfl⟩
  by_contra hout
  have hsame := σ.injective (hσ (σ k) (Nat.le_of_not_lt hout))
  omega

theorem symm (h : Rearranged n f g) : Rearranged n g f := by
  obtain ⟨σ, hσ, rfl⟩ := h
  refine ⟨σ.symm, fun k hk => ?_, ?_⟩
  · rw [Equiv.symm_apply_eq, hσ k hk]
  · funext k
    simp

theorem admits (h : Rearranged n f g) (hS : ∀ k, k < n → S (f k)) {k : Nat} (hk : k < n) :
    S (g k) := by
  obtain ⟨x, hx, hsame⟩ := h.source hk
  exact hsame ▸ hS x hx

/-- A rearrangement of the places from `i` on. -/
theorem shift (h : Rearranged n (fun k => f (i + k)) fun k => g (i + k))
    (hlow : ∀ k, k < i → g k = f k) : Rearranged (i + n) f g := by
  obtain ⟨σ, hσ, hsame⟩ := h
  have hvalue : ∀ k, g (i + k) = f (i + σ k) := fun k => congrFun hsame k
  have hinv : ∀ k, n ≤ k → σ.symm k = k := fun k hk => by rw [Equiv.symm_apply_eq, hσ k hk]
  let τ : Equiv.Perm Nat :=
    { toFun := fun k => if k < i then k else i + σ (k - i)
      invFun := fun k => if k < i then k else i + σ.symm (k - i)
      left_inv := fun k => by
        by_cases hk : k < i
        · simp [hk]
        · simp only [hk, ↓reduceIte]
          rw [if_neg (by omega), Nat.add_sub_cancel_left, Equiv.symm_apply_apply]
          omega
      right_inv := fun k => by
        by_cases hk : k < i
        · simp [hk]
        · simp only [hk, ↓reduceIte]
          rw [if_neg (by omega), Nat.add_sub_cancel_left, Equiv.apply_symm_apply]
          omega }
  refine ⟨τ, fun k hk => ?_, funext fun k => ?_⟩
  · have hlow : ¬ k < i := by omega
    change (if k < i then k else i + σ (k - i)) = k
    rw [if_neg hlow, hσ (k - i) (by omega)]
    omega
  · change g k = f (if k < i then k else i + σ (k - i))
    by_cases hk : k < i
    · rw [if_pos hk, hlow k hk]
    · rw [if_neg hk, ← hvalue]
      congr 1
      omega

end Rearranged

namespace ScansUp

theorem unique (h : ScansUp cmp p f i a) (h' : ScansUp cmp p f i b) : a = b := by
  by_contra hne
  rcases Nat.lt_or_gt_of_ne hne with hlt | hlt
  · exact h.stop (h'.below a h.le hlt)
  · exact h'.stop (h.below b h'.le hlt)

end ScansUp

namespace ScansDown

theorem unique (h : ScansDown cmp p f j a) (h' : ScansDown cmp p f j b) : a = b := by
  by_contra hne
  rcases Nat.lt_or_gt_of_ne hne with hlt | hlt
  · exact h'.stop.elim (fun hzero => by omega) fun hstop => hstop (h.above b hlt h'.le)
  · exact h.stop.elim (fun hzero => by omega) fun hstop => hstop (h'.above a hlt h.le)

end ScansDown

namespace Partition

/-- A partition has one result. -/
theorem unique (h : Partition cmp p f i j g a b) (h' : Partition cmp p f i j g' a' b') :
    g = g' ∧ a = a' ∧ b = b' := by
  induction h with
  | crossed hlt =>
      cases h' with
      | crossed _ => exact ⟨rfl, rfl, rfl⟩
      | passed hle _ _ _ => omega
      | bottom hle _ _ _ => omega
      | step hle _ _ _ _ _ => omega
  | passed hle hup hdown hlt =>
      cases h' with
      | crossed _ => omega
      | passed _ hup' hdown' _ => exact ⟨rfl, hup.unique hup', hdown.unique hdown'⟩
      | bottom _ hup' hdown' hzero =>
          have := hup.unique hup'
          have := hdown.unique hdown'
          omega
      | step _ hup' hdown' hle' _ _ =>
          have := hup.unique hup'
          have := hdown.unique hdown'
          omega
  | bottom hle hup hdown hzero =>
      cases h' with
      | crossed _ => omega
      | passed _ hup' hdown' hlt =>
          have := hup.unique hup'
          have := hdown.unique hdown'
          omega
      | bottom _ hup' _ _ =>
          obtain rfl := hup.unique hup'
          exact ⟨rfl, rfl, rfl⟩
      | step _ _ hdown' _ hne _ => exact absurd (hdown.unique hdown').symm hne
  | step hle hup hdown hle' hne _ ih =>
      cases h' with
      | crossed _ => omega
      | passed _ hup' hdown' hlt =>
          have := hup.unique hup'
          have := hdown.unique hdown'
          omega
      | bottom _ _ hdown' _ => exact absurd (hdown.unique hdown') hne
      | step _ hup' hdown' _ _ hrest =>
          obtain rfl := hup.unique hup'
          obtain rfl := hdown.unique hdown'
          exact ih hrest

/-- Where a partition ends, and that it only exchanges places from `i` to `j`. -/
theorem ends (h : Partition cmp p f i j g a b) :
    b < a ∧ i ≤ a ∧ b ≤ j ∧ ∀ n, j < n → Rearranged n f g := by
  induction h with
  | crossed hlt => exact ⟨hlt, Nat.le_refl _, Nat.le_refl _, fun n _ => .refl n _⟩
  | passed hle hup hdown hlt => exact ⟨hlt, hup.le, hdown.le, fun n _ => .refl n _⟩
  | bottom hle hup hdown hzero =>
      have := hup.le
      exact ⟨by omega, by omega, Nat.zero_le _, fun n hn => .exchange _ (by omega) (by omega)⟩
  | step hle hup hdown hle' hne _ ih =>
      obtain ⟨hba, hia, hbj, hrearr⟩ := ih
      have := hup.le
      have := hdown.le
      exact ⟨hba, by omega, by omega, fun n hn =>
        (Rearranged.exchange _ (by omega) (by omega)).trans (hrearr n (by omega))⟩

/-- The first pass of a partition of at least two elements exchanges. -/
theorem proper (hself : cmp (f p) (f p) = 0) (hp : 0 < p) (hpn : p < n)
    (h : Partition cmp p f 0 (n - 1) g a b) : 0 < a ∧ b + 1 < n := by
  have hup : ∀ {x}, ScansUp cmp p f 0 x → x ≤ p := by
    intro x hx
    by_contra hlt
    have hbelow := hx.below p (Nat.zero_le p) (Nat.lt_of_not_le hlt)
    omega
  have hdown : ∀ {x}, ScansDown cmp p f (n - 1) x → p ≤ x := by
    intro x hx
    by_contra hlt
    have habove := hx.above p (Nat.lt_of_not_le hlt) (by omega)
    omega
  cases h with
  | crossed hlt => omega
  | passed _ hu hd hlt =>
      have := hup hu
      have := hdown hd
      omega
  | bottom _ _ hd _ =>
      have := hdown hd
      omega
  | step _ hu hd _ hne hrest =>
      have hends := hrest.ends
      have := hd.le
      omega

/-- A place that lies outside of what is still to be partitioned keeps its
element. -/
theorem frame (h : Partition cmp p f i j g a b) {k : Nat} (hk : k < i ∨ j < k) : g k = f k := by
  induction h with
  | crossed _ => rfl
  | passed _ _ _ _ => rfl
  | bottom hle hup hdown hzero =>
      have := hup.le
      rw [exchange, Function.comp_apply, Equiv.swap_apply_of_ne_of_ne (by omega) (by omega)]
  | step hle hup hdown hle' hne _ ih =>
      have := hup.le
      have := hdown.le
      rw [ih (by omega), exchange, Function.comp_apply,
        Equiv.swap_apply_of_ne_of_ne (by omega) (by omega)]

/-- When the pivot's place ends with an element that compares equal to the pivot,
nothing that compares greater is left of `a`, and nothing that compares less right
of `b`. -/
theorem around_pivot (hpre : Preordered cmp S) {v : α} (hv : S v) (hp : 0 < p) (hpn : p < n)
    (h : Partition cmp p f i j g a b) (hjn : j < n) (hfirst : i = 0 → p ≤ j)
    (hS : ∀ k, k < n → S (f k)) (hpivot : cmp (f p) v = 0) (hend : cmp (g p) v = 0)
    (hleft : ∀ k, k < i → k < n → cmp (f k) v ≤ 0)
    (hright : ∀ k, j < k → k < n → cmp v (f k) ≤ 0) :
    (∀ k, k < a → k < n → cmp (g k) v ≤ 0) ∧ ∀ k, b < k → k < n → cmp v (g k) ≤ 0 := by
  -- comparing with the pivot is comparing with `v`
  have hbelow : ∀ {f : Nat → α}, (∀ k, k < n → S (f k)) → cmp (f p) v = 0 →
      ∀ k, k < n → cmp (f k) (f p) ≤ 0 → cmp (f k) v ≤ 0 := by
    intro f hS hpivot k hk hle
    exact hpre.trans (hS k hk) (hS p hpn) hv hle (Int.le_of_eq hpivot)
  have habove : ∀ {f : Nat → α}, (∀ k, k < n → S (f k)) → cmp (f p) v = 0 →
      ∀ k, k < n → ¬ cmp (f k) (f p) < 0 → cmp v (f k) ≤ 0 := by
    intro f hS hpivot k hk hle
    have hvp : cmp v (f p) ≤ 0 := hpre.le_of_not_lt (hS p hpn) hv (by omega)
    exact hpre.trans hv (hS p hpn) (hS k hk) hvp (hpre.le_of_not_lt (hS k hk) (hS p hpn) hle)
  induction h with
  | crossed _ => exact ⟨hleft, hright⟩
  | @passed f i j i' j' hle hup hdown hlt =>
      constructor
      · intro k hk hkn
        by_cases hki : k < i
        · exact hleft k hki hkn
        · exact hbelow hS hpivot k hkn (Int.le_of_lt (hup.below k (by omega) hk))
      · intro k hk hkn
        by_cases hkj : j < k
        · exact hright k hkj hkn
        · have hgt := hdown.above k hk (by omega)
          exact habove hS hpivot k hkn (by omega)
  | @bottom f i j i' hle hup hdown hzero =>
      have hi := hup.le
      have hgt := hdown.above p hp (hfirst (by omega))
      have hself := hpre.cmp_self (hS p hpn)
      omega
  | @step f g i j i' j' a b hle hup hdown hle' hne hrest ih =>
      have hi := hup.le
      have hj := hdown.le
      have hstop : cmp (f j') (f p) ≤ 0 := by
        have hnot := hdown.stop.resolve_left hne
        omega
      have hrearr : Rearranged n f (exchange f i' j') := .exchange f (by omega) (by omega)
      have hother : ∀ k, k ≠ i' → k ≠ j' → exchange f i' j' k = f k := fun k hki hkj => by
        rw [exchange, Function.comp_apply, Equiv.swap_apply_of_ne_of_ne hki hkj]
      have hlow : exchange f i' j' i' = f j' := by
        rw [exchange, Function.comp_apply, Equiv.swap_apply_left]
      have hhigh : exchange f i' j' j' = f i' := by
        rw [exchange, Function.comp_apply, Equiv.swap_apply_right]
      apply ih (by omega) (by omega) (fun k hk => hrearr.admits hS hk)
      · -- the pivot's place, which is not reached again when it takes part
        by_cases hpart : p = i' ∨ p = j'
        · rw [← hrest.frame (by omega)]
          exact hend
        · rw [hother p (fun h => hpart (Or.inl h)) fun h => hpart (Or.inr h)]
          exact hpivot
      · exact hend
      · intro k hk hkn
        by_cases hki : k = i'
        · rw [hki, hlow]
          exact hbelow hS hpivot j' (by omega) hstop
        · rw [hother k hki (by omega)]
          by_cases hki' : k < i
          · exact hleft k hki' hkn
          · exact hbelow hS hpivot k hkn (Int.le_of_lt (hup.below k (by omega) (by omega)))
      · intro k hk hkn
        by_cases hkj : k = j'
        · rw [hkj, hhigh]
          exact habove hS hpivot i' (by omega) hup.stop
        · rw [hother k (by omega) hkj]
          by_cases hkj' : j < k
          · exact hright k hkj' hkn
          · have hgt := hdown.above k (by omega) (by omega)
            exact habove hS hpivot k hkn (by omega)

end Partition

/-- Exchanges within the parts do not matter. -/
theorem KeepsApart.of_parts (h : KeepsApart cmp n i j f) (hji : j < i)
    (hleft : ∀ x, x ≤ j → ∃ y, y ≤ j ∧ r x = f y) (hmiddle : ∀ x, j < x → x < i → r x = f x)
    (hright : ∀ x, i ≤ x → x < n → ∃ y, i ≤ y ∧ y < n ∧ r x = f y) (hjn : j < n) :
    KeepsApart cmp n i j r := by
  -- where an element comes from, in terms of the parts
  have hfrom : ∀ x, x < n → ∃ y, y < n ∧ r x = f y ∧ (x ≤ j → y ≤ j) ∧ (i ≤ x → i ≤ y) ∧
      (j < x → x < i → y = x) := by
    intro x hx
    by_cases hxj : x ≤ j
    · obtain ⟨y, hy, hsame⟩ := hleft x hxj
      exact ⟨y, by omega, hsame, fun _ => hy, fun _ => by omega, fun _ _ => by omega⟩
    by_cases hxi : x < i
    · exact ⟨x, hx, hmiddle x (by omega) hxi, fun _ => by omega, fun _ => by omega, fun _ _ => rfl⟩
    · obtain ⟨y, hy, hyn, hsame⟩ := hright x (by omega) hx
      exact ⟨y, hyn, hsame, fun _ => by omega, fun _ => hy, fun _ _ => by omega⟩
  intro x y hxy hy
  by_cases hyj : y ≤ j
  · exact Or.inl hyj
  by_cases hxi : i ≤ x
  · exact Or.inr (Or.inl hxi)
  obtain ⟨x', hx', hsamex, hx1, hx2, hx3⟩ := hfrom x (by omega)
  obtain ⟨y', hy', hsamey, hy1, hy2, hy3⟩ := hfrom y hy
  have hcmp := h x' y' (by omega) hy'
  rw [← hsamex, ← hsamey] at hcmp
  exact hcmp.imp (fun _ => by omega) fun hcmp => hcmp.imp (fun _ => by omega) id

namespace Sorts

/-- The part from `i` on is rearranged within the sequence. -/
theorem rearranged_right (h : Rearranged (n - i) (fun k => g (i + k)) fun k => r (i + k))
    (hlow : ∀ k, k < i → r k = g k) : Rearranged n g r := by
  by_cases hin : i ≤ n
  · have hshift := h.shift hlow
    rwa [Nat.add_sub_cancel' hin] at hshift
  · have hsame : r = g := by
      funext k
      by_cases hk : k < i
      · exact hlow k hk
      · have hout := h.outside (show n - i ≤ k - i by omega)
        simp only [show i + (k - i) = k by omega] at hout
        exact hout
    exact hsame ▸ .refl n g

/-- A run only rearranges. -/
theorem rearranged (h : Sorts cmp n f r) : Rearranged n f r := by
  induction h with
  | short _ => exact .refl _ _
  | @parts n i j f f' g r hn hpart _ _ hlow ihleft ihright =>
      obtain ⟨_, _, hjn, hrearr⟩ := hpart.ends
      have hleft : Rearranged n f' g := ihleft.mono (by omega)
      exact (hrearr n (by omega)).trans (hleft.trans (rearranged_right ihright hlow))

theorem sortedUpTo_parts : SortedUpTo cmp n r ↔ KeepsApart cmp n i j r ∧
    (∀ x y, x < y → y < n → y ≤ j → cmp (r x) (r y) ≤ 0) ∧
      SortedUpTo cmp (n - i) fun k => r (i + k) := by
  constructor
  · intro h
    refine ⟨fun x y hxy hy => Or.inr (Or.inr (h x y hxy hy)), fun x y hxy hy _ => h x y hxy hy, ?_⟩
    exact fun x y hxy hy => h (i + x) (i + y) (by omega) (by omega)
  · rintro ⟨hapart, hleft, hright⟩ x y hxy hy
    rcases hapart x y hxy hy with hyj | hxi | hle
    · exact hleft x y hxy hy hyj
    · have hle := hright (x - i) (y - i) (by omega) (by omega)
      simp only [show i + (x - i) = x by omega, show i + (y - i) = y by omega] at hle
      exact hle
    · exact hle

/-- A run sorts exactly when all of its partitions keep their parts apart. -/
theorem sorted_iff (h : Sorts cmp n f r) : SortedUpTo cmp n r ↔ Splits cmp n f := by
  induction h with
  | short hn => exact ⟨fun _ => .short hn, fun _ x y _ _ => by omega⟩
  | @parts n i j f f' g r hn hpart hl hr hlow ihleft ihright =>
      obtain ⟨hji, _, hjn, _⟩ := hpart.ends
      have hleft := hl.rearranged
      have hright := hr.rearranged
      have hsame : ∀ k, j < k → g k = f' k := fun k hk => hleft.outside hk
      have hbehind : (fun k => g (i + k)) = fun k => f' (i + k) :=
        funext fun k => hsame _ (by omega)
      -- the elements of a part are the same before and after it was sorted
      have hapart : KeepsApart cmp n i j r ↔ KeepsApart cmp n i j f' := by
        constructor
        · intro h
          apply h.of_parts hji
          · intro x hx
            obtain ⟨y, hy, heq⟩ := hleft.symm.source (Nat.lt_succ_of_le hx)
            exact ⟨y, by omega, by rw [heq, hlow y (by omega)]⟩
          · intro x hx hxi
            rw [hlow x hxi, hsame x hx]
          · intro x hx hxn
            obtain ⟨y, hy, heq⟩ := hright.symm.source (show x - i < n - i by omega)
            rw [show i + (x - i) = x by omega, hsame x (by omega)] at heq
            exact ⟨i + y, by omega, by omega, heq⟩
          · omega
        · intro h
          apply h.of_parts hji
          · intro x hx
            obtain ⟨y, hy, heq⟩ := hleft.source (Nat.lt_succ_of_le hx)
            exact ⟨y, by omega, by rw [hlow x (by omega), heq]⟩
          · intro x hx hxi
            rw [hlow x hxi, hsame x hx]
          · intro x hx hxn
            obtain ⟨y, hy, heq⟩ := hright.source (show x - i < n - i by omega)
            rw [show i + (x - i) = x by omega, hsame _ (by omega)] at heq
            exact ⟨i + y, by omega, by omega, heq⟩
          · omega
      have hlower : (∀ x y, x < y → y < n → y ≤ j → cmp (r x) (r y) ≤ 0) ↔
          SortedUpTo cmp (j + 1) g := by
        constructor
        · intro h x y hxy hy
          rw [← hlow x (by omega), ← hlow y (by omega)]
          exact h x y hxy (by omega) (by omega)
        · intro h x y hxy _ hy
          rw [hlow x (by omega), hlow y (by omega)]
          exact h x y hxy (by omega)
      rw [sortedUpTo_parts (i := i) (j := j), hapart, hlower, ihleft, ihright, hbehind]
      constructor
      · rintro ⟨hkeeps, hsplitl, hsplitr⟩
        exact .parts hn hpart hkeeps hsplitl hsplitr
      · intro h
        cases h with
        | short hlt => omega
        | parts _ hpart' hkeeps hsplitl hsplitr =>
            obtain ⟨rfl, rfl, rfl⟩ := hpart.unique hpart'
            exact ⟨hkeeps, hsplitl, hsplitr⟩

end Sorts

/-- Pivots that stay in their places, up to elements that compare equal, are enough. -/
theorem Steady.splits (hpre : Preordered cmp S) (h : Steady cmp n f) (hS : ∀ k, k < n → S (f k)) :
    Splits cmp n f := by
  induction h with
  | short hn => exact .short hn
  | @parts n i j f f' hn hpart hpivot _ _ ihleft ihright =>
      obtain ⟨_, _, hjn, hrearr⟩ := hpart.ends
      have hS' : ∀ k, k < n → S (f' k) := fun k hk => (hrearr n (by omega)).admits hS hk
      have hv : S (f (n / 2)) := hS _ (by omega)
      obtain ⟨hleft, hright⟩ := hpart.around_pivot hpre hv (by omega) (show n / 2 < n by omega)
        (by omega) (fun _ => by omega) hS (hpre.cmp_self hv) hpivot (fun k hk _ => by omega)
        fun k hk _ => by omega
      refine .parts hn hpart ?_ (ihleft fun k hk => hS' k (by omega))
        (ihright fun k hk => hS' _ (by omega))
      intro x y hxy hy
      by_cases hyj : y ≤ j
      · exact Or.inl hyj
      by_cases hxi : i ≤ x
      · exact Or.inr (Or.inl hxi)
      · have hx := hleft x (by omega) (by omega)
        have hy' := hright y (by omega) hy
        exact Or.inr (Or.inr (hpre.trans (hS' x (by omega)) hv (hS' y hy) hx hy'))

/-- Under a preorder it is enough to compare neighbours. -/
theorem sortedUpTo_iff (hpre : Preordered cmp S) (hS : ∀ k, k < n → S (f k)) :
    SortedUpTo cmp n f ↔ ∀ k, k + 1 < n → ¬ 0 < cmp (f k) (f (k + 1)) := by
  constructor
  · intro h k hk
    have hle := h k (k + 1) (Nat.lt_succ_self k) hk
    omega
  · intro h x y hxy
    induction hxy with
    | refl =>
        intro hy
        exact Int.not_lt.mp (h x hy)
    | @step y hxy ih =>
        intro hy
        have hlt : x < y := hxy
        exact hpre.trans (hS x (by omega)) (hS y (by omega)) (hS (y + 1) hy) (ih (by omega))
          (Int.not_lt.mp (h y hy))

end OsAgentLab
