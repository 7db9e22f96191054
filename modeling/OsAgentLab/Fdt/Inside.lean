/-
When the kernel's scanner stays inside of the blob and of its stack.  The tokens
that it walks over are described by the bytes alone; for each of them a condition
says what has to hold of the bytes behind it.
-/
import OsAgentLab.Fdt.Scan
import Mathlib.Data.List.Basic

namespace OsAgentLab

namespace Fdt

variable {α β : Type}

section Settles

/-- The run ends with `r` when `p` holds, and leaves the blob when not. -/
def Settles (m : Run α) (p : Prop) (r : Run α) : Prop :=
  (p → m = r) ∧ (¬ p → m = .error .outside)

variable {m : Run α} {p q : Prop} {r : Run α}

theorem Settles.done (r : Run α) : Settles r True r := ⟨fun _ => rfl, fun h => absurd trivial h⟩

theorem Settles.congr (h : Settles m p r) (hpq : q ↔ p) : Settles m q r :=
  ⟨fun hq => h.1 (hpq.mp hq), fun hq => h.2 fun hp => hq (hpq.mpr hp)⟩

theorem Settles.bind {v : α} {f : α → Run β} {r : Run β} (hm : Settles m p (.ok v))
    (hf : Settles (f v) q r) : Settles (m >>= f) (p ∧ q) r := by
  constructor
  · rintro ⟨hp, hq⟩
    rw [hm.1 hp]
    exact hf.1 hq
  · intro hnot
    by_cases hp : p
    · rw [hm.1 hp]
      exact hf.2 fun hq => hnot ⟨hp, hq⟩
    · rw [hm.2 hp]
      rfl

/-- The rest of the run matters only when the first part stays inside. -/
theorem Settles.bind_of {v : α} {f : α → Run β} {r : Run β} (hm : Settles m p (.ok v))
    (hf : p → Settles (f v) q r) : Settles (m >>= f) (p ∧ q) r := by
  by_cases hp : p
  · exact hm.bind (hf hp)
  · refine ⟨fun h => absurd h.1 hp, fun _ => ?_⟩
    rw [hm.2 hp]
    rfl

theorem Settles.map {v : α} (f : α → β) (hm : Settles m p (.ok v)) :
    Settles (f <$> m) p (.ok (f v)) :=
  ⟨fun hp => by rw [hm.1 hp]; rfl, fun hp => by rw [hm.2 hp]; rfl⟩

end Settles

section Strings

variable (b : Nat → UInt8) (total : Nat)

/-- The 32-bit number at `a`. -/
def be32 (a : Nat) : Nat :=
  (b a).toNat * 16777216 + (b (a + 1)).toNat * 65536 + (b (a + 2)).toNat * 256 +
    (b (a + 3)).toNat

/-- The number of bytes before the first zero, at most `count`. -/
def nameLen : Nat → Nat → Nat
  | 0, _ => 0
  | count + 1, a => if b a = 0 then 0 else nameLen count (a + 1) + 1

/-- The string at `a` is `lit`. -/
def isStr : Nat → Lit → Bool
  | a, [] => b a == 0
  | a, c :: lit => b a == c && isStr (a + 1) lit

/-- The bytes at `a` begin with `lit`. -/
def isPrefix : Nat → Lit → Bool
  | _, [] => true
  | a, c :: lit => b a == c && isPrefix (a + 1) lit

/-- A string that is bounded by `count` ends before the blob does, or its bound
lies inside. -/
def NameInside (count a : Nat) : Prop :=
  ∀ i, i < count → (∀ j, j < i → b (a + j) ≠ 0) → a + i < total

/-- The blob ends at a place where the string at `a` has not differed from `lit`. -/
def Cut (a : Nat) (lit : Lit) : Prop :=
  total ≤ a + lit.length ∧ ∀ k, a + k < total → lit[k]? = some (b (a + k))

/-- The same, for a comparison of so many bytes. -/
def CutShort (a : Nat) (lit : Lit) : Prop :=
  total < a + lit.length ∧ ∀ k, a + k < total → lit[k]? = some (b (a + k))

variable {b total}

theorem rd8_settles (a : Nat) : Settles (rd8 (blobMem b total) a) (a < total) (.ok (b a)) := by
  constructor
  · intro h
    rw [rd8, blobMem, if_pos h]
    rfl
  · intro h
    rw [rd8, blobMem, if_neg h]
    rfl

theorem fdt32_settles (a : Nat) :
    Settles (fdt32 (blobMem b total) a) (a + 4 ≤ total) (.ok (be32 b a)) := by
  unfold fdt32
  refine Settles.congr (Settles.bind (rd8_settles a) (Settles.bind (rd8_settles (a + 1))
    (Settles.bind (rd8_settles (a + 2)) (Settles.bind (rd8_settles (a + 3)) (Settles.done _))))) ?_
  simp only [and_true]
  omega

theorem NameInside.succ {count a : Nat} :
    NameInside b total (count + 1) a ↔
      a < total ∧ (b a ≠ 0 → NameInside b total count (a + 1)) := by
  constructor
  · intro h
    refine ⟨h 0 (Nat.succ_pos _) fun j hj => absurd hj (Nat.not_lt_zero _), fun hne i hi hall => ?_⟩
    have hlt := h (i + 1) (Nat.succ_lt_succ hi) fun j hj => ?_
    · omega
    · cases j with
      | zero => exact hne
      | succ j =>
          rw [show a + (j + 1) = a + 1 + j by omega]
          exact hall j (Nat.lt_of_succ_lt_succ hj)
  · rintro ⟨hlt, hrest⟩ i hi hall
    cases i with
    | zero => exact hlt
    | succ i =>
        have hne := hall 0 (Nat.succ_pos _)
        have hin := hrest hne i (Nat.lt_of_succ_lt_succ hi) fun j hj => by
          rw [show a + 1 + j = a + (j + 1) by omega]
          exact hall (j + 1) (Nat.succ_lt_succ hj)
        omega

theorem fdtStrnlen_settles (count a : Nat) :
    Settles (fdtStrnlen (blobMem b total) count a) (NameInside b total count a)
      (.ok (nameLen b count a)) := by
  induction count generalizing a with
  | zero => exact (Settles.done _).congr ⟨fun _ => trivial, fun _ i hi => absurd hi (Nat.not_lt_zero _)⟩
  | succ count ih =>
      unfold fdtStrnlen nameLen
      by_cases hzero : b a = 0
      · refine Settles.congr (Settles.bind (rd8_settles a) (q := True) ?_) ?_
        · rw [if_pos hzero, if_pos hzero]
          exact Settles.done _
        · rw [NameInside.succ]
          simp [hzero]
      · refine Settles.congr (Settles.bind (rd8_settles a) (q := NameInside b total count (a + 1)) ?_) ?_
        · rw [if_neg hzero, if_neg hzero]
          exact (ih (a + 1)).map (· + 1)
        · rw [NameInside.succ]
          simp [hzero]

theorem Cut.nil {a : Nat} : Cut b total a [] ↔ total ≤ a := by
  constructor
  · rintro ⟨hle, _⟩
    exact hle
  · intro hle
    exact ⟨hle, fun k hk => absurd hk (by omega)⟩

/-- The comparison goes on behind an equal byte. -/
theorem Cut.cons {a : Nat} {c : UInt8} {lit : Lit} :
    Cut b total a (c :: lit) ↔ total ≤ a ∨ b a = c ∧ Cut b total (a + 1) lit := by
  constructor
  · rintro ⟨hle, hall⟩
    rcases Nat.lt_or_ge a total with hlt | hge
    · refine Or.inr ⟨?_, ?_, fun k hk => ?_⟩
      · have hhead := hall 0 hlt
        exact (Option.some.inj hhead).symm
      · rw [List.length_cons] at hle
        omega
      · have hnext := hall (k + 1) (by omega)
        rw [show a + (k + 1) = a + 1 + k by omega] at hnext
        exact hnext
    · exact Or.inl hge
  · rintro (hge | ⟨hhead, hle, hall⟩)
    · exact ⟨by omega, fun k hk => absurd hk (by omega)⟩
    · refine ⟨by rw [List.length_cons]; omega, fun k hk => ?_⟩
      cases k with
      | zero => rw [← hhead]; rfl
      | succ k =>
          rw [show a + (k + 1) = a + 1 + k by omega] at hk ⊢
          exact hall k hk

/-- `strcmp` stays inside unless the blob ends during the comparison. -/
theorem strcmp_settles (a : Nat) {lit : Lit} (hlit : 0 ∉ lit) :
    ∃ v, Settles (strcmp (blobMem b total) a lit) (¬ Cut b total a lit) (.ok v) ∧
      (v = 0 ↔ isStr b a lit = true) := by
  induction lit generalizing a with
  | nil =>
      refine ⟨((b a).toNat : Int), ?_, ?_⟩
      · refine Settles.congr (Settles.bind (rd8_settles a) (Settles.done _)) ?_
        rw [Cut.nil, and_true, Nat.not_le]
      · rw [isStr, beq_iff_eq, ← UInt8.toNat_inj]
        simp
  | cons c lit ih =>
      obtain ⟨hc, hrest⟩ := not_or.mp (List.mem_cons.not.mp hlit)
      by_cases heq : b a = c
      · obtain ⟨v, hv, hiff⟩ := ih (a + 1) hrest
        refine ⟨v, ?_, ?_⟩
        · refine Settles.congr (Settles.bind (rd8_settles a) (q := ¬ Cut b total (a + 1) lit) ?_) ?_
          · rw [if_pos ⟨fun hzero => hc (heq ▸ hzero.symm), heq⟩]
            exact hv
          · rw [Cut.cons]
            simp [heq]
        · rw [hiff, isStr, heq]
          simp
      · refine ⟨((b a).toNat : Int) - c.toNat, ?_, ?_⟩
        · refine Settles.congr (Settles.bind (rd8_settles a) (q := True) ?_) ?_
          · rw [if_neg fun hand => heq hand.2]
            exact Settles.done _
          · rw [Cut.cons]
            simp [heq]
        · have hne : (b a).toNat ≠ c.toNat := fun hnat => heq (UInt8.toNat_inj.mp hnat)
          rw [isStr]
          simp only [heq, beq_iff_eq, Bool.and_eq_true, false_and, iff_false]
          omega

theorem CutShort.cons {a : Nat} {c : UInt8} {lit : Lit} (hin : a ≤ total) :
    CutShort b total a (c :: lit) ↔ total ≤ a ∨ b a = c ∧ CutShort b total (a + 1) lit := by
  constructor
  · rintro ⟨hlt, hall⟩
    rcases Nat.lt_or_ge a total with hin | hge
    · refine Or.inr ⟨(Option.some.inj (hall 0 hin)).symm, ?_, fun k hk => ?_⟩
      · rw [List.length_cons] at hlt
        omega
      · have hnext := hall (k + 1) (by omega)
        rw [show a + (k + 1) = a + 1 + k by omega] at hnext
        exact hnext
    · exact Or.inl hge
  · rintro (hge | ⟨hhead, hlt, hall⟩)
    · exact ⟨by rw [List.length_cons]; omega, fun k hk => absurd hk (by omega)⟩
    · refine ⟨by rw [List.length_cons]; omega, fun k hk => ?_⟩
      cases k with
      | zero => rw [← hhead]; rfl
      | succ k =>
          rw [show a + (k + 1) = a + 1 + k by omega] at hk ⊢
          exact hall k hk

/-- `memcmp` stays inside unless the blob ends during the comparison. -/
theorem memcmp_settles (a : Nat) (lit : Lit) (hin : a ≤ total) :
    ∃ v, Settles (memcmp (blobMem b total) a lit) (¬ CutShort b total a lit) (.ok v) ∧
      (v = 0 ↔ isPrefix b a lit = true) := by
  induction lit generalizing a with
  | nil =>
      refine ⟨0, (Settles.done _).congr ?_, by simp [isPrefix]⟩
      simp only [iff_true]
      rintro ⟨hlt, _⟩
      exact absurd hlt (Nat.not_lt.mpr hin)
  | cons c lit ih =>
      by_cases heq : b a = c
      · rcases Nat.lt_or_ge a total with hlt | hge
        · obtain ⟨v, hv, hiff⟩ := ih (a + 1) hlt
          refine ⟨v, ?_, ?_⟩
          · refine Settles.congr
              (Settles.bind (rd8_settles a) (q := ¬ CutShort b total (a + 1) lit) ?_) ?_
            · rw [if_neg fun hne => hne heq]
              exact hv
            · rw [CutShort.cons hin]
              simp [heq]
          · rw [hiff, isPrefix, heq]
            simp
        · refine ⟨if isPrefix b a (c :: lit) then 0 else 1, ?_, ?_⟩
          · refine ⟨fun hnot => absurd ?_ hnot, fun _ => ?_⟩
            · exact (CutShort.cons hin).mpr (Or.inl hge)
            · rw [memcmp, (rd8_settles a).2 (Nat.not_lt.mpr hge)]
              rfl
          · split <;> simp [*]
      · refine ⟨((b a).toNat : Int) - c.toNat, ?_, ?_⟩
        · refine Settles.congr (Settles.bind (rd8_settles a) (q := True) ?_) ?_
          · rw [if_pos heq]
            exact Settles.done _
          · rw [CutShort.cons hin]
            simp [heq]
        · have hne : (b a).toNat ≠ c.toNat := fun hnat => heq (UInt8.toNat_inj.mp hnat)
          rw [isPrefix]
          simp only [heq, beq_iff_eq, Bool.and_eq_true, false_and, iff_false]
          omega

theorem isStr_iff {a : Nat} {lit : Lit} :
    isStr b a lit = true ↔ isPrefix b a lit = true ∧ b (a + lit.length) = 0 := by
  induction lit generalizing a with
  | nil => simp [isStr, isPrefix]
  | cons c lit ih =>
      rw [isStr, isPrefix, Bool.and_eq_true, Bool.and_eq_true, ih, List.length_cons,
        show a + (lit.length + 1) = a + 1 + lit.length by omega, and_assoc]

/-- The bytes of a string that is `lit`. -/
theorem isPrefix_get {a k : Nat} {lit : Lit} (h : isPrefix b a lit = true) (hk : k < lit.length) :
    lit[k]? = some (b (a + k)) := by
  induction lit generalizing a k with
  | nil => exact absurd hk (Nat.not_lt_zero _)
  | cons c lit ih =>
      rw [isPrefix, Bool.and_eq_true, beq_iff_eq] at h
      cases k with
      | zero => rw [← h.1]; rfl
      | succ k =>
          rw [show a + (k + 1) = a + 1 + k by omega]
          exact ih h.2 (Nat.lt_of_succ_lt_succ hk)

/-- A string that is `lit` is not cut, and no other comparison is. -/
theorem not_cut_of_isStr {a : Nat} {lit lit' : Lit} (hlit' : 0 ∉ lit')
    (h : isStr b a lit = true) (hcut : ¬ Cut b total a lit) : ¬ Cut b total a lit' := by
  obtain ⟨hchars, hzero⟩ := isStr_iff.mp h
  have hlt : a + lit.length < total := by
    by_contra hge
    refine hcut ⟨Nat.le_of_not_lt hge, fun k hk => isPrefix_get hchars (by omega)⟩
  rintro ⟨_, hall⟩
  have hmem := hall lit.length hlt
  rw [hzero] at hmem
  exact hlit' (List.mem_of_getElem? hmem)

end Strings

section Lists

variable (b : Nat → UInt8) (total : Nat)

/-- The string at `a` ends inside of the blob. -/
def Terminated (a : Nat) : Prop := ∃ k, a + k < total ∧ b (a + k) = 0

/-- A string of the list begins at its byte `i`. -/
def StartsAt (list i : Nat) : Prop := ∀ j, i = j + 1 → b (list + j) = 0

/-- From `i` on, one of the strings of the list is `needle`. -/
def ListHas (list len : Nat) (needle : Lit) (i : Nat) : Prop :=
  ∃ j, i ≤ j ∧ j < len ∧ StartsAt b list j ∧ isStr b (list + j) needle = true

/-- From `i` on, each string that begins in the list ends inside of the blob, as far
as the list is searched for `needle`. -/
def ListInside (list len : Nat) (needle : Lit) (i : Nat) : Prop :=
  ∀ j, i ≤ j → j < len → StartsAt b list j →
    (∀ k, i ≤ k → k < j → StartsAt b list k → isStr b (list + k) needle = false) →
    Terminated b total (list + j)

variable {b total}

theorem strlen_ok {passes a : Nat} (hin : Terminated b total a) (hpasses : total < a + passes) :
    ∃ n, strlen (blobMem b total) passes a = .ok n ∧ (∀ j, j < n → b (a + j) ≠ 0) ∧
      b (a + n) = 0 ∧ a + n < total := by
  obtain ⟨k, hlt, hzero⟩ := hin
  induction k generalizing passes a with
  | zero =>
      obtain ⟨passes, rfl⟩ := Nat.exists_eq_add_one_of_ne_zero (show passes ≠ 0 by omega)
      refine ⟨0, ?_, fun j hj => absurd hj (Nat.not_lt_zero _), hzero, hlt⟩
      rw [strlen, (rd8_settles a).1 hlt]
      exact if_pos hzero
  | succ k ih =>
      obtain ⟨passes, rfl⟩ := Nat.exists_eq_add_one_of_ne_zero (show passes ≠ 0 by omega)
      rw [strlen, (rd8_settles a).1 (by omega)]
      by_cases hhead : b a = 0
      · exact ⟨0, if_pos hhead, fun j hj => absurd hj (Nat.not_lt_zero _), hhead, by omega⟩
      · rw [show a + (k + 1) = a + 1 + k by omega] at hlt hzero
        obtain ⟨n, hrun, hnz, hz, hin⟩ := @ih passes (a + 1) (by omega) hlt hzero
        refine ⟨n + 1, ?_, fun j hj => ?_, ?_, by omega⟩
        · show (if b a = 0 then pure 0 else (· + 1) <$> strlen (blobMem b total) passes (a + 1)) = _
          rw [if_neg hhead, hrun]
          rfl
        · cases j with
          | zero => exact hhead
          | succ j =>
              rw [show a + (j + 1) = a + 1 + j by omega]
              exact hnz j (Nat.lt_of_succ_lt_succ hj)
        · rw [show a + (n + 1) = a + 1 + n by omega]
          exact hz

theorem strlen_outside {passes a : Nat} (hout : ¬ Terminated b total a)
    (hpasses : total < a + passes) (hpos : 0 < passes) :
    strlen (blobMem b total) passes a = .error .outside := by
  induction passes generalizing a with
  | zero => exact absurd hpos (Nat.lt_irrefl 0)
  | succ passes ih =>
      rcases Nat.lt_or_ge a total with hlt | hge
      · have hhead : b a ≠ 0 := fun hzero => hout ⟨0, hlt, hzero⟩
        have hnext : ¬ Terminated b total (a + 1) := by
          rintro ⟨k, hk, hzero⟩
          rw [show a + 1 + k = a + (k + 1) by omega] at hk hzero
          exact hout ⟨k + 1, hk, hzero⟩
        rw [strlen, (rd8_settles a).1 hlt]
        show (if b a = 0 then pure 0 else (· + 1) <$> strlen (blobMem b total) passes (a + 1)) = _
        rw [if_neg hhead, ih hnext (by omega) (by omega)]
        rfl
      · rw [strlen, (rd8_settles a).2 (Nat.not_lt.mpr hge)]
        rfl

/-- The test of one string of the list. -/
theorem strlistHit_ok {a n : Nat} {needle : Lit} (hneedle : 0 ∉ needle) (hlt : a + n < total)
    (hnz : ∀ j, j < n → b (a + j) ≠ 0) (hzero : b (a + n) = 0) :
    strlistHit kernelOps (blobMem b total) a n needle = .ok (isStr b a needle) := by
  unfold strlistHit
  by_cases hlen : n = needle.length
  · obtain ⟨v, hv, hiff⟩ := @memcmp_settles b total a needle (by omega)
    have hnot : ¬ CutShort b total a needle := fun hcut => absurd hcut.1 (by omega)
    rw [if_pos hlen, show kernelOps.memcmp (blobMem b total) a needle = .ok v from hv.1 hnot]
    refine congrArg Except.ok ?_
    rw [Bool.eq_iff_iff, decide_eq_true_eq, hiff, isStr_iff, ← hlen, hzero]
    simp
  · rw [if_neg hlen]
    refine congrArg Except.ok (Eq.symm ?_)
    rw [Bool.eq_false_iff]
    intro hstr
    obtain ⟨hchars, hend⟩ := isStr_iff.mp hstr
    rcases Nat.lt_or_gt_of_ne hlen with hshort | hlong
    · have hget := isPrefix_get hchars hshort
      rw [hzero] at hget
      exact hneedle (List.mem_of_getElem? hget)
    · exact hnz _ hlong hend

/-- The strings behind the one that ends at `i + n` are those from the next byte on. -/
theorem StartsAt.next {list i n j : Nat} (hnz : ∀ k, k < n → b (list + i + k) ≠ 0) (hij : i < j)
    (hstart : StartsAt b list j) : i + n + 1 ≤ j := by
  by_contra hlt
  obtain ⟨k, rfl⟩ := Nat.exists_eq_add_of_le' (show 1 ≤ j by omega)
  have hzero := hstart k rfl
  have hne := hnz (k - i) (by omega)
  rw [show list + i + (k - i) = list + k by omega] at hne
  exact hne hzero

/-- The loop of `fdt_strlist_contains`; induction on its passes. -/
theorem fdtStrlistLoop_settles {fuel list len passes i : Nat} {needle : Lit} (hneedle : 0 ∉ needle)
    (hsmall : total ≤ 16777216) (hfuel : total < fuel) (hpasses : total < list + i + passes)
    (hpos : 0 < passes) (hstart : StartsAt b list i) :
    ∃ hit, Settles (fdtStrlistLoop kernelOps (blobMem b total) fuel list len needle passes i)
      (ListInside b total list len needle i) (.ok hit) ∧
      (hit = true ↔ ListHas b list len needle i) := by
  induction passes generalizing i with
  | zero => exact absurd hpos (Nat.lt_irrefl 0)
  | succ passes ih =>
      unfold fdtStrlistLoop
      by_cases hlt : i < len
      · rw [if_pos hlt]
        by_cases hterm : Terminated b total (list + i)
        · obtain ⟨n, hlen, hnz, hzero, hin⟩ := @strlen_ok b total fuel (list + i) hterm (by omega)
          have hhit := @strlistHit_ok b total (list + i) n needle hneedle hin hnz hzero
          rw [hlen]
          cases hstr : isStr b (list + i) needle with
          | true =>
              rw [hstr] at hhit
              refine ⟨true, ⟨fun _ => ?_, fun hnot => absurd ?_ hnot⟩, ?_⟩
              · rw [ok_bind, hhit, ok_bind, if_pos rfl]
                rfl
              · intro j hij hjlen hj hprev
                rcases Nat.lt_or_eq_of_le hij with hij | rfl
                · have hmiss := hprev i (Nat.le_refl i) hij hstart
                  rw [hstr] at hmiss
                  cases hmiss
                · exact hterm
              · exact ⟨fun _ => ⟨i, Nat.le_refl i, hlt, hstart, hstr⟩, fun _ => rfl⟩
          | false =>
              rw [hstr] at hhit
              have hi : u32 (i + u32 (u32 n + 1)) = i + n + 1 := by
                rw [u32_of_lt (show n < 4294967296 by omega),
                  u32_of_lt (show n + 1 < 4294967296 by omega), u32_of_lt (by omega)]
                omega
              have hnext : StartsAt b list (i + n + 1) := by
                intro j hj
                rw [show list + j = list + i + n by omega]
                exact hzero
              obtain ⟨hit, hsettles, hiff⟩ := @ih (i + n + 1) (by omega) (by omega) hnext
              rw [ok_bind, hhit, ok_bind, hi, if_neg Bool.false_ne_true]
              refine ⟨hit, hsettles.congr ⟨fun hall j hij hjlen hj hprev => ?_,
                fun hall j hij hjlen hj hprev => ?_⟩, hiff.trans ⟨?_, ?_⟩⟩
              · refine hall j (by omega) hjlen hj fun k hik hkj hk => ?_
                rcases Nat.lt_or_eq_of_le hik with hik | rfl
                · exact hprev k (StartsAt.next hnz hik hk) hkj hk
                · exact hstr
              · rcases Nat.lt_or_eq_of_le hij with hij | rfl
                · exact hall j (StartsAt.next hnz hij hj) hjlen hj fun k hik hkj hk =>
                    hprev k (by omega) hkj hk
                · exact hterm
              · rintro ⟨j, hij, hjlen, hj, hjstr⟩
                exact ⟨j, by omega, hjlen, hj, hjstr⟩
              · rintro ⟨j, hij, hjlen, hj, hjstr⟩
                rcases Nat.lt_or_eq_of_le hij with hij | rfl
                · exact ⟨j, StartsAt.next hnz hij hj, hjlen, hj, hjstr⟩
                · rw [hstr] at hjstr
                  cases hjstr
        · rw [@strlen_outside b total fuel (list + i) hterm (by omega) (by omega)]
          have hnot : ¬ ListInside b total list len needle i := fun hall =>
            hterm (hall i (Nat.le_refl i) hlt hstart fun k hik hki => absurd hki (by omega))
          by_cases hhas : ListHas b list len needle i
          · exact ⟨true, ⟨fun hall => absurd hall hnot, fun _ => rfl⟩, by simp [hhas]⟩
          · exact ⟨false, ⟨fun hall => absurd hall hnot, fun _ => rfl⟩, by simp [hhas]⟩
      · rw [if_neg hlt]
        refine ⟨false, (Settles.done _).congr ⟨fun _ => trivial, fun _ j hij hjlen => ?_⟩, ?_⟩
        · exact absurd hjlen (by omega)
        · simp only [Bool.false_eq_true, false_iff]
          rintro ⟨j, hij, hjlen, _⟩
          omega

theorem fdtReadNumLoop_settles (count cells val : Nat) :
    ∃ v, Settles (fdtReadNumLoop (blobMem b total) count cells val)
      (count = 0 ∨ cells + 4 * count ≤ total) (.ok v) := by
  induction count generalizing cells val with
  | zero => exact ⟨val, (Settles.done _).congr (by simp)⟩
  | succ count ih =>
      obtain ⟨v, hv⟩ := ih (cells + 4) (u64 (val * 4294967296) + be32 b cells)
      refine ⟨v, Settles.congr (Settles.bind (fdt32_settles cells) hv) ?_⟩
      omega

end Lists

end Fdt

end OsAgentLab
