/-
`uvm_free`: every page of an address space goes back to the free list, and the
kernel tables that the root table shares stay.
-/
import OsAgentLab.Vm.CopySpec

namespace OsAgentLab

variable {kt pt p t va n i : Nat} {s s' : Mm} {sp : Space} {l : List Nat}

section Entry

theorem vaSignExtend_of_lt (h : va < 0x4000000000) : vaSignExtend va = va := by
  have hbit : va &&& 0x4000000000 = 0 := by
    rw [show (0x4000000000 : Nat) = 2 ^ 38 by decide, Nat.and_two_pow,
      Nat.testBit_lt_two_pow (by omega)]
    rfl
  rw [vaSignExtend, if_neg (not_not.mpr hbit)]

variable {descend : Nat → Nat → Vm Unit} {shift vaBase pte : Nat}

theorem freeEntry_empty (leafLevel : Bool) (hword : le64 s.mem (pt + 8 * i) = 0) :
    freeEntry descend pt leafLevel shift vaBase i s = (.ok (), s) := by
  rw [freeEntry, load64_bind, hword, if_pos (Nat.zero_and _), Prog.pure_apply]

/-- The last-level entry of a user page. -/
theorem freeEntry_user (hva : u64 (vaBase + i <<< shift) < 0x4000000000)
    {u : UserPage} (hpage : IsPage u.pa) (hperm : IsUserPerm u.perm)
    (hword : le64 s.mem (pt + 8 * i) = leafWord u.pa u.perm)
    (hfree : kfree u.pa s = (.ok (), s')) :
    freeEntry descend pt true shift vaBase i s =
      (.ok (), { s' with mem := put64 s'.mem (pt + 8 * i) 0 }) := by
  have hlow : vaSignExtend (u64 (vaBase + i <<< shift)) < kernelVirtBase := by
    rw [vaSignExtend_of_lt hva]
    exact Nat.lt_trans hva (by decide)
  rw [freeEntry, load64_bind, hword, if_neg (leafWord_valid hpage hperm), if_pos (Or.inl rfl),
    if_pos ⟨leafWord_user hpage hperm, hlow⟩, pte2pa_leafWord hpage hperm, Prog.bind_ok hfree]
  rfl

/-- A leaf that user code cannot use is cleared, and its page is not freed. -/
theorem freeEntry_device (hword : le64 s.mem (pt + 8 * i) = pte) (hvalid : pte &&& pteV ≠ 0)
    (hleaf : pte &&& (pteR ||| pteW ||| pteX) ≠ 0) (huser : pte &&& pteU = 0) :
    freeEntry descend pt false shift vaBase i s =
      (.ok (), { s with mem := put64 s.mem (pt + 8 * i) 0 }) := by
  rw [freeEntry, load64_bind, hword, if_neg hvalid, if_pos (Or.inr hleaf),
    if_neg fun h => h.1 huser]
  rfl

/-- A table of the user part is freed behind its contents. -/
theorem freeEntry_table (hva : u64 (vaBase + i <<< shift) < 0x4000000000) (ht : IsPage t)
    (hword : le64 s.mem (pt + 8 * i) = tableWord t) {s₁ : Mm}
    (hdescend : descend t (u64 (vaBase + i <<< shift)) s = (.ok (), s₁))
    (hfree : kfree t s₁ = (.ok (), s')) :
    freeEntry descend pt false shift vaBase i s =
      (.ok (), { s' with mem := put64 s'.mem (pt + 8 * i) 0 }) := by
  have hlow : ¬ kernelVirtBase ≤ vaSignExtend (u64 (vaBase + i <<< shift)) := by
    rw [vaSignExtend_of_lt hva]
    exact Nat.not_le_of_lt (Nat.lt_trans hva (by decide))
  have hnoleaf : ¬ (false = true ∨ tableWord t &&& (pteR ||| pteW ||| pteX) ≠ 0) := by
    rintro (h | h)
    · cases h
    · exact h (tableWord_not_leaf ht)
  rw [freeEntry, load64_bind, hword, if_neg (tableWord_valid ht), if_neg hnoleaf, if_neg hlow,
    pte2pa_tableWord ht, Prog.bind_ok hdescend, Prog.bind_ok hfree]
  rfl

/-- A kernel table is left alone. -/
theorem freeEntry_kernel (hva : kernelVirtBase ≤ vaSignExtend (u64 (vaBase + i <<< shift)))
    (ht : IsPage t) (hword : le64 s.mem (pt + 8 * i) = tableWord t) :
    freeEntry descend pt false shift vaBase i s = (.ok (), s) := by
  have hnoleaf : ¬ (false = true ∨ tableWord t &&& (pteR ||| pteW ||| pteX) ≠ 0) := by
    rintro (h | h)
    · cases h
    · exact h (tableWord_not_leaf ht)
  rw [freeEntry, load64_bind, hword, if_neg (tableWord_valid ht), if_neg hnoleaf, if_pos hva,
    Prog.pure_apply]

end Entry

section Walks

/-- `x` is the physical page of a user page with a number from `lo` up to `hi`. -/
def Space.PageIn (sp : Space) (lo hi x : Nat) : Prop :=
  ∃ n u, lo ≤ n ∧ n < hi ∧ sp.page n = some u ∧ u.pa = x

theorem Space.PageIn.has (pt : Nat) {lo hi x : Nat} (h : sp.PageIn lo hi x) :
    ∃ n, lo ≤ n ∧ n < hi ∧ sp.Has pt (.page n) x := by
  obtain ⟨n, u, hlo, hhi, hu, rfl⟩ := h
  exact ⟨n, hlo, hhi, u, hu, rfl⟩

theorem Space.pageIn_succ {lo hi x : Nat} (hle : lo ≤ hi) :
    sp.PageIn lo (hi + 1) x ↔ sp.PageIn lo hi x ∨ ∃ u, sp.page hi = some u ∧ u.pa = x := by
  constructor
  · rintro ⟨n, u, hlo, hhi, hu, rfl⟩
    by_cases hn : n = hi
    · subst hn
      exact Or.inr ⟨u, hu, rfl⟩
    · exact Or.inl ⟨n, u, hlo, by omega, hu, rfl⟩
  · rintro (⟨n, u, hlo, hhi, hu, rfl⟩ | ⟨u, hu, rfl⟩)
    · exact ⟨n, u, hlo, by omega, hu, rfl⟩
    · exact ⟨hi, u, hle, Nat.lt_succ_self hi, hu, rfl⟩

/-- What a part of `freewalk` leaves behind that frees the pages `gone` and
clears entries in the table at `t`. -/
structure Freed (s : Mm) (l : List Nat) (t : Nat) (gone : Nat → Prop) (s' : Mm)
    (l' : List Nat) : Prop where
  free : FreePages s' l'
  mem : ∀ x, x ∈ l' ↔ x ∈ l ∨ gone x
  frame : ∀ x, ¬ InPage t x → (∀ p, gone p → ¬ InPage p x) → s'.mem x = s.mem x
  satp : s'.satp = s.satp

theorem Freed.refl (h : FreePages s l) : Freed s l t (fun _ => False) s l :=
  ⟨h, fun _ => (or_iff_left id).symm, fun _ _ _ => rfl, rfl⟩

theorem Freed.congr {gone gone' : Nat → Prop} {l' : List Nat} (h : Freed s l t gone s' l')
    (hiff : ∀ x, gone x ↔ gone' x) : Freed s l t gone' s' l' where
  free := h.free
  mem x := (h.mem x).trans (or_congr Iff.rfl (hiff x))
  frame x hx hgone := h.frame x hx fun p hp => hgone p ((hiff p).mp hp)
  satp := h.satp

/-- An entry of the table is cleared. -/
theorem Freed.clear {gone : Nat → Prop} {l' : List Nat} (h : Freed s l t gone s' l')
    (ht : IsPage t) (hnot : t ∉ l') (hi : i < 512) :
    Freed s l t gone { s' with mem := put64 s'.mem (t + 8 * i) 0 } l' where
  free := by
    refine h.free.frame rfl fun q hq x hx => put64_of_not_inPage hi ?_
    exact ht.not_inPage (h.free.page q hq) (fun heq => hnot (heq ▸ hq)) hx
  mem := h.mem
  frame x hx hgone := by
    change put64 s'.mem (t + 8 * i) 0 x = s.mem x
    rw [put64_of_not_inPage hi hx]
    exact h.frame x hx hgone
  satp := h.satp

/-- One more page is freed. -/
theorem Freed.kfree {gone : Nat → Prop} {l' : List Nat} (h : Freed s l t gone s' l')
    (hp : IsPage p) (hnot : p ∉ l') :
    ∃ s₂, OsAgentLab.kfree p s' = (.ok (), s₂) ∧
      Freed s l t (fun x => gone x ∨ x = p) s₂ (p :: l') ∧
      ∀ x, ¬ InPage p x → s₂.mem x = s'.mem x := by
  obtain ⟨s₂, hrun, hfree, hframe, hsatp⟩ := kfree_spec h.free hp hnot
  refine ⟨s₂, hrun, ⟨hfree, ?_, ?_, hsatp.trans h.satp⟩, hframe⟩
  · intro x
    rw [List.mem_cons, h.mem]
    constructor
    · rintro (hx | hx | hx)
      · exact Or.inr (Or.inr hx)
      · exact Or.inl hx
      · exact Or.inr (Or.inl hx)
    · rintro (hx | hx | hx)
      · exact Or.inr (Or.inl hx)
      · exact Or.inr (Or.inr hx)
      · exact Or.inl hx
  · intro x hx hgone
    rw [hframe x (hgone p (Or.inr rfl))]
    exact h.frame x hx fun q hq => hgone q (Or.inl hq)

/-- `freewalk` of a last-level table frees the user pages that it maps. -/
theorem freewalk_leaf (hwf : sp.WellFormed pt) (hfree : FreePages s l)
    (htable : sp.table i = some t) (htl : t ∉ l)
    (hpages : ∀ x, sp.PageIn (512 * i) (512 * i + 512) x → x ∉ l)
    (hwords : ∀ r, r < 512 → le64 s.mem (t + 8 * r) = sp.entry (512 * i + r)) :
    ∃ s' l', freewalk 0 t (2097152 * i) s = (.ok (), s') ∧
      Freed s l t (sp.PageIn (512 * i) (512 * i + 512)) s' l' := by
  have ht : IsPage t := hwf.isPage (.table i) t htable
  have hi := hwf.table_lt i t htable
  have hnotT : ∀ lo hi, ¬ sp.PageIn lo hi t := by
    intro lo hi h
    obtain ⟨n, _, _, hn⟩ := h.has pt
    exact Part.noConfusion (hwf.apart (a := .table i) htable hn)
  let inv := fun j s' => (∃ l', Freed s l t (sp.PageIn (512 * i) (512 * i + j)) s' l') ∧
    ∀ r, j ≤ r → r < 512 → le64 s'.mem (t + 8 * r) = sp.entry (512 * i + r)
  have hstart : inv 0 s := by
    refine ⟨⟨l, (Freed.refl hfree).congr fun x => ?_⟩, fun r _ hr => hwords r hr⟩
    constructor
    · exact False.elim
    · rintro ⟨n, _, hlo, hhi, _⟩
      omega
  obtain ⟨s', hrun, ⟨l', hfreed⟩, _⟩ := Prog.forCount_inv
    (fun j => freeEntry (fun _ _ => pure ()) t true 12 (2097152 * i) j) inv 512 0 s hstart (by
      rintro j s₁ _ hj ⟨⟨l₁, hfreed⟩, hrest⟩
      have hj : j < 512 := by omega
      cases hu : sp.page (512 * i + j) with
      | none =>
          have hword := (hrest j (Nat.le_refl j) hj).trans (sp.entry_none hu)
          refine ⟨s₁, freeEntry_empty true hword, ⟨l₁, hfreed.congr fun x => ?_⟩, ?_⟩
          · rw [Nat.add_succ, Space.pageIn_succ (Nat.le_add_right _ _), hu]
            simp
          · exact fun r hr => hrest r (Nat.le_of_succ_le hr)
      | some u =>
          have hhas : sp.Has pt (.page (512 * i + j)) u.pa := ⟨u, hu, rfl⟩
          have hpage : IsPage u.pa := hwf.isPage _ _ hhas
          have hnot : u.pa ∉ l₁ := by
            rw [hfreed.mem]
            rintro (hin | hin)
            · exact hpages _ ⟨_, u, Nat.le_add_right _ _, by omega, hu, rfl⟩ hin
            · obtain ⟨n, _, hlt, hn⟩ := hin.has pt
              have heq := hwf.apart hn hhas
              cases heq
              omega
          have htu : t ≠ u.pa := by
            rintro rfl
            exact Part.noConfusion (hwf.apart (a := .table i) htable hhas)
          obtain ⟨s₂, hkfree, hfreed₂, hframe₂⟩ := hfreed.kfree hpage hnot
          have hva : u64 (2097152 * i + j <<< 12) < 0x4000000000 := by
            rw [Nat.shiftLeft_eq, u64_of_lt (by omega)]
            omega
          have htnot : t ∉ u.pa :: l₁ := by
            intro hin
            rcases List.mem_cons.mp hin with heq | hin
            · exact htu heq
            · rcases (hfreed.mem t).mp hin with hin | hin
              · exact htl hin
              · exact hnotT _ _ hin
          refine ⟨_, freeEntry_user hva hpage (hwf.perm _ u hu)
            ((hrest j (Nat.le_refl j) hj).trans (sp.entry_some hu)) hkfree,
            ⟨u.pa :: l₁, (hfreed₂.clear ht htnot hj).congr fun x => ?_⟩, ?_⟩
          · rw [Nat.add_succ, Space.pageIn_succ (Nat.le_add_right _ _), hu]
            simp [eq_comm]
          · intro r hr hlt
            have hne : j ≠ r := by omega
            change le64 (put64 s₂.mem (t + 8 * j) 0) (t + 8 * r) = _
            rw [le64_put64_word hne, ← hrest r (Nat.le_of_succ_le hr) hlt]
            exact le64_page_congr hlt fun x hx => hframe₂ x (hpage.not_inPage ht htu.symm hx))
  exact ⟨s', l', hrun, hfreed⟩

/-- The pages of the last-level tables below index `i`, and those tables. -/
def Space.Below (sp : Space) (i x : Nat) : Prop :=
  (∃ r, r < i ∧ sp.table r = some x) ∨ sp.PageIn 0 (512 * i) x

theorem Space.Below.has (pt : Nat) {x : Nat} (h : sp.Below i x) :
    ∃ q, sp.Has pt q x ∧ ((∃ r, r < i ∧ q = .table r) ∨ ∃ n, n < 512 * i ∧ q = .page n) := by
  rcases h with ⟨r, hr, hx⟩ | h
  · exact ⟨.table r, hx, Or.inl ⟨r, hr, rfl⟩⟩
  · obtain ⟨n, _, hn, hx⟩ := h.has pt
    exact ⟨.page n, hx, Or.inr ⟨n, hn, rfl⟩⟩

theorem Space.below_succ {x : Nat} :
    sp.Below (i + 1) x ↔ (sp.Below i x ∨ sp.PageIn (512 * i) (512 * i + 512) x) ∨
      sp.table i = some x := by
  constructor
  · rintro (⟨r, hr, hx⟩ | ⟨n, u, hlo, hhi, hu, rfl⟩)
    · by_cases hri : r = i
      · subst hri
        exact Or.inr hx
      · exact Or.inl (Or.inl (Or.inl ⟨r, by omega, hx⟩))
    · by_cases hn : n < 512 * i
      · exact Or.inl (Or.inl (Or.inr ⟨n, u, hlo, hn, hu, rfl⟩))
      · exact Or.inl (Or.inr ⟨n, u, by omega, by omega, hu, rfl⟩)
  · rintro (((⟨r, hr, hx⟩ | ⟨n, u, hlo, hhi, hu, rfl⟩) | ⟨n, u, hlo, hhi, hu, rfl⟩) | hx)
    · exact Or.inl ⟨r, by omega, hx⟩
    · exact Or.inr ⟨n, u, hlo, by omega, hu, rfl⟩
    · exact Or.inr ⟨n, u, Nat.zero_le n, by omega, hu, rfl⟩
    · exact Or.inl ⟨i, Nat.lt_succ_self i, hx⟩

theorem Space.below_succ_none (hwf : sp.WellFormed pt) (hnone : sp.table i = none) {x : Nat} :
    sp.Below (i + 1) x ↔ sp.Below i x := by
  rw [Space.below_succ, hnone]
  constructor
  · rintro ((hx | ⟨n, u, hlo, hhi, hu, rfl⟩) | hx)
    · exact hx
    · obtain ⟨t, ht⟩ := hwf.page_table n u hu
      rw [show n / 512 = i by omega, hnone] at ht
      cases ht
    · cases hx
  · exact fun hx => Or.inl (Or.inl hx)

/-- Freeing a table behind its contents, as a part of freeing the table above. -/
theorem Freed.trans {a b : Nat} {gone gone' : Nat → Prop} {s'' : Mm} {l' l'' : List Nat}
    (h : Freed s l a gone s' l') (h' : Freed s' l' b gone' s'' l'') (hb : gone' b) :
    Freed s l a (fun x => gone x ∨ gone' x) s'' l'' where
  free := h'.free
  mem x := by
    rw [h'.mem, h.mem, or_assoc]
  frame x hx hgone := by
    rw [h'.frame x (hgone b (Or.inr hb)) fun p hp => hgone p (Or.inr hp)]
    exact h.frame x hx fun p hp => hgone p (Or.inl hp)
  satp := h'.satp.trans h.satp

theorem freewalk_succ (level t vaBase : Nat) :
    freewalk (level + 1) t vaBase = Prog.forCount
      (fun i => freeEntry (freewalk level) t false (12 + 9 * (level + 1)) vaBase i) 512 0 := rfl

/-- A word of the table of the low 1 GiB that points to no table is empty or maps
a device. -/
theorem Space.lowWord_none (hnone : sp.table i = none) :
    sp.lowWord i = 0 ∨ sp.lowWord i &&& pteV ≠ 0 ∧
      sp.lowWord i &&& (pteR ||| pteW ||| pteX) ≠ 0 ∧ sp.lowWord i &&& pteU = 0 := by
  rw [Space.lowWord]
  by_cases hclint : i = vpn1 clintBase
  · rw [if_pos hclint]
    exact Or.inr (by decide)
  rw [if_neg hclint]
  by_cases hplic : i = vpn1 plicBase
  · rw [if_pos hplic]
    exact Or.inr (by decide)
  rw [if_neg hplic]
  by_cases huart : i = vpn1 uart0Base
  · rw [if_pos huart]
    exact Or.inr (by decide)
  rw [if_neg huart, hnone]
  exact Or.inl rfl

theorem Space.not_below_low (hwf : sp.WellFormed pt) (j : Nat) : ¬ sp.Below j sp.low := by
  intro hj
  obtain ⟨q, hq, hcase⟩ := hj.has pt
  have heq := hwf.apart (a := .low) rfl hq
  rcases hcase with ⟨r, _, rfl⟩ | ⟨n, _, rfl⟩
  · cases heq
  · cases heq

/-- One last-level table is freed together with the pages that it maps. -/
theorem freeEntry_lowTable (hwf : sp.WellFormed pt) (hapart : ∀ q x, sp.Has pt q x → x ∉ l)
    {j : Nat} (htable : sp.table j = some t) {s₁ : Mm} {l₁ : List Nat}
    (hfreed : Freed s l sp.low (sp.Below j) s₁ l₁)
    (hwords : ∀ r, r < 512 → le64 s₁.mem (t + 8 * r) = sp.entry (512 * j + r))
    (hword : le64 s₁.mem (sp.low + 8 * j) = tableWord t) :
    ∃ s₂ l₂, freeEntry (freewalk 0) sp.low false (12 + 9 * (0 + 1)) 0 j s₁ = (.ok (), s₂) ∧
      Freed s l sp.low (sp.Below (j + 1)) s₂ l₂ ∧
      ∀ r, j ≠ r → r < 512 → le64 s₂.mem (sp.low + 8 * r) = le64 s₁.mem (sp.low + 8 * r) := by
  have hlow : IsPage sp.low := hwf.isPage .low _ rfl
  have ht : IsPage t := hwf.isPage (.table j) t htable
  have hj := hwf.table_lt j t htable
  have hva : u64 (0 + j <<< (12 + 9 * (0 + 1))) = 2097152 * j := by
    rw [Nat.shiftLeft_eq, u64_of_lt (by omega)]
    omega
  -- nothing of this table is free yet
  have htl₁ : t ∉ l₁ := by
    rw [hfreed.mem]
    rintro (hin | hin)
    · exact hapart (.table j) t htable hin
    · obtain ⟨q, hq, hcase⟩ := hin.has pt
      have heq := hwf.apart (a := .table j) htable hq
      rcases hcase with ⟨r, hr, rfl⟩ | ⟨n, _, rfl⟩
      · cases heq
        omega
      · cases heq
  have hpages : ∀ x, sp.PageIn (512 * j) (512 * j + 512) x → x ∉ l₁ := by
    intro x hx
    obtain ⟨n, hlo, _, hn⟩ := hx.has pt
    rw [hfreed.mem]
    rintro (hin | hin)
    · exact hapart _ _ hn hin
    · obtain ⟨q, hq, hcase⟩ := hin.has pt
      have heq := hwf.apart hn hq
      rcases hcase with ⟨r, _, rfl⟩ | ⟨k, hk, rfl⟩
      · cases heq
      · cases heq
        omega
  obtain ⟨s₂, l₂, hleaf, hfreed₂⟩ := freewalk_leaf hwf hfreed.free htable htl₁ hpages hwords
  have htl₂ : t ∉ l₂ := by
    rw [hfreed₂.mem]
    rintro (hin | hin)
    · exact htl₁ hin
    · obtain ⟨n, _, _, hn⟩ := hin.has pt
      exact Part.noConfusion (hwf.apart (a := .table j) htable hn)
  obtain ⟨s₃, hkfree, hfreed₃, _⟩ := hfreed₂.kfree ht htl₂
  have hall := hfreed.trans hfreed₃ (Or.inr rfl)
  have hlowl₃ : sp.low ∉ t :: l₂ := by
    intro hin
    rcases (hall.mem sp.low).mp hin with hin | hin | hin | hin
    · exact hapart .low _ rfl hin
    · exact sp.not_below_low hwf j hin
    · obtain ⟨n, _, _, hn⟩ := hin.has pt
      exact Part.noConfusion (hwf.apart (a := .low) rfl hn)
    · exact Part.noConfusion (hwf.apart (a := .table j) (b := .low) htable hin.symm)
  refine ⟨{ s₃ with mem := put64 s₃.mem (sp.low + 8 * j) 0 }, t :: l₂, ?_, ?_, ?_⟩
  · refine freeEntry_table ?_ ht hword ?_ hkfree
    · rw [hva]
      omega
    · rw [hva]
      exact hleaf
  · refine (hall.clear hlow hlowl₃ (by omega)).congr fun x => ?_
    rw [Space.below_succ, htable, Option.some.injEq, or_assoc, eq_comm]
  · intro r hne hr
    change le64 (put64 s₃.mem (sp.low + 8 * j) 0) (sp.low + 8 * r) = _
    rw [le64_put64_word hne]
    refine le64_page_congr hr fun x hx => hfreed₃.frame x ?_ fun q hq => ?_
    · refine ht.not_inPage hlow ?_ hx
      rintro rfl
      exact Part.noConfusion (hwf.apart (a := .table j) (b := .low) htable rfl)
    · rcases hq with hq | rfl
      · obtain ⟨n, _, _, hn⟩ := hq.has pt
        refine (hwf.isPage _ _ hn).not_inPage hlow ?_ hx
        rintro rfl
        exact Part.noConfusion (hwf.apart (a := .low) rfl hn)
      · refine ht.not_inPage hlow ?_ hx
        rintro rfl
        exact Part.noConfusion (hwf.apart (a := .table j) (b := .low) htable rfl)

/-- `freewalk` of the table of the low 1 GiB frees all tables and pages in it. -/
theorem freewalk_low (h : Held kt s pt sp l) :
    ∃ s' l', freewalk 1 sp.low 0 s = (.ok (), s') ∧ Freed s l sp.low (sp.Below 512) s' l' := by
  have hwf := h.wf
  have hlow : IsPage sp.low := hwf.isPage .low _ rfl
  let inv := fun j s' => (∃ l', Freed s l sp.low (sp.Below j) s' l') ∧
    ∀ r, j ≤ r → r < 512 → le64 s'.mem (sp.low + 8 * r) = sp.lowWord r
  have hstart : inv 0 s := by
    refine ⟨⟨l, (Freed.refl h.free).congr fun x => ?_⟩, fun r _ hr => h.space.lows r hr⟩
    constructor
    · exact False.elim
    · rintro (⟨r, hr, _⟩ | ⟨n, _, _, hn, _⟩)
      · omega
      · omega
  rw [freewalk_succ]
  obtain ⟨s', hrun, ⟨l', hfreed⟩, _⟩ := Prog.forCount_inv
    (fun j => freeEntry (freewalk 0) sp.low false (12 + 9 * (0 + 1)) 0 j) inv 512 0 s hstart (by
      rintro j s₁ _ hj ⟨⟨l₁, hfreed⟩, hrest⟩
      have hj : j < 512 := by omega
      have hword := hrest j (Nat.le_refl j) hj
      have hlowl₁ : sp.low ∉ l₁ := by
        rw [hfreed.mem]
        rintro (hin | hin)
        · exact h.apart .low _ rfl hin
        · exact sp.not_below_low hwf j hin
      cases htable : sp.table j with
      | none =>
          have hnext : ∀ x, sp.Below j x ↔ sp.Below (j + 1) x := fun x =>
            (Space.below_succ_none hwf htable).symm
          rcases sp.lowWord_none htable with hzero | ⟨hvalid, hleaf, huser⟩
          · exact ⟨s₁, freeEntry_empty false (hword.trans hzero), ⟨l₁, hfreed.congr hnext⟩,
              fun r hr => hrest r (Nat.le_of_succ_le hr)⟩
          · refine ⟨_, freeEntry_device hword hvalid hleaf huser,
              ⟨l₁, (hfreed.clear hlow hlowl₁ hj).congr hnext⟩, ?_⟩
            intro r hr hlt
            have hne : j ≠ r := by omega
            change le64 (put64 s₁.mem (sp.low + 8 * j) 0) (sp.low + 8 * r) = _
            rw [le64_put64_word hne]
            exact hrest r (Nat.le_of_succ_le hr) hlt
      | some t =>
          have ht : IsPage t := hwf.isPage (.table j) t htable
          have hj10 := hwf.table_lt j t htable
          have htlow : sp.low ≠ t := by
            rintro rfl
            exact Part.noConfusion (hwf.apart (a := .table j) (b := .low) htable rfl)
          -- what was freed so far lies outside of this table
          have hwords : ∀ r, r < 512 → le64 s₁.mem (t + 8 * r) = sp.entry (512 * j + r) := by
            intro r hr
            rw [← h.space.entries j t htable r hr]
            refine le64_page_congr hr fun x hx => hfreed.frame x (hlow.not_inPage ht htlow hx) ?_
            intro q hq
            obtain ⟨part, hpart, hcase⟩ := hq.has pt
            refine (hwf.isPage _ _ hpart).not_inPage ht ?_ hx
            rintro rfl
            have heq := hwf.apart (a := .table j) htable hpart
            rcases hcase with ⟨k, hk, rfl⟩ | ⟨n, _, rfl⟩
            · cases heq
              omega
            · cases heq
          have htword : le64 s₁.mem (sp.low + 8 * j) = tableWord t := by
            rw [hword, Space.lowWord_of_lt (by omega), htable]
          obtain ⟨s₂, l₂, hrun, hfreed₂, hkeep⟩ :=
            freeEntry_lowTable hwf h.apart htable hfreed hwords htword
          refine ⟨s₂, hrun, ⟨l₂, hfreed₂⟩, fun r hr hlt => ?_⟩
          rw [hkeep r (by omega) hlt]
          exact hrest r (Nat.le_of_succ_le hr) hlt)
  exact ⟨s', l', hrun, hfreed⟩

/-- A word of the root table behind the first one is empty, maps kernel memory,
or points to the kernel table. -/
theorem bootRoot_cases (hi : 0 < i) :
    bootRoot kt i = 0 ∨ (bootRoot kt i &&& pteV ≠ 0 ∧
      bootRoot kt i &&& (pteR ||| pteW ||| pteX) ≠ 0 ∧ bootRoot kt i &&& pteU = 0) ∨
      i = vpn2 kernelVirtBase ∧ bootRoot kt i = tableWord kt := by
  have hzero : ¬ i = vpn2 0 := Nat.ne_of_gt hi
  rw [bootRoot, if_neg hzero]
  by_cases hdram : i = vpn2 0x80000000
  · rw [if_pos hdram]
    exact Or.inr (Or.inl (by decide))
  rw [if_neg hdram]
  by_cases hoffset : i = vpn2 0xffffffc000000000
  · rw [if_pos hoffset]
    exact Or.inr (Or.inl (by decide))
  rw [if_neg hoffset]
  by_cases hkernel : i = vpn2 kernelVirtBase
  · rw [if_pos hkernel]
    exact Or.inr (Or.inr ⟨hkernel, rfl⟩)
  rw [if_neg hkernel]
  exact Or.inl rfl

/-- Everything in an address space but its root table. -/
def Space.Inner (sp : Space) (x : Nat) : Prop := sp.Below 512 x ∨ x = sp.low

theorem Space.inner_iff (hwf : sp.WellFormed pt) {x : Nat} :
    sp.Inner x ↔ ∃ q, q ≠ .root ∧ sp.Has pt q x := by
  constructor
  · rintro (hx | rfl)
    · obtain ⟨q, hq, hcase⟩ := hx.has pt
      refine ⟨q, ?_, hq⟩
      rcases hcase with ⟨r, _, rfl⟩ | ⟨n, _, rfl⟩
      · exact Part.noConfusion
      · exact Part.noConfusion
    · exact ⟨.low, Part.noConfusion, rfl⟩
  · rintro ⟨q, hq, hx⟩
    cases q with
    | root => exact absurd rfl hq
    | low => exact Or.inr hx
    | table r =>
        have hr := hwf.table_lt r x hx
        exact Or.inl (Or.inl ⟨r, by omega, hx⟩)
    | page n =>
        obtain ⟨u, hu, rfl⟩ := hx
        obtain ⟨t, ht⟩ := hwf.page_table n u hu
        have hn := hwf.table_lt _ t ht
        exact Or.inl (Or.inr ⟨n, u, Nat.zero_le n, by omega, hu, rfl⟩)

/-- `freewalk` of the root table frees everything but that table. -/
theorem freewalk_root (h : Held kt s pt sp l) (hkt : IsPage kt) :
    ∃ s' l', freewalk 2 pt 0 s = (.ok (), s') ∧ Freed s l pt sp.Inner s' l' := by
  have hwf := h.wf
  have hroot : IsPage pt := hwf.isPage .root _ rfl
  have hlow : IsPage sp.low := hwf.isPage .low _ rfl
  have hptInner : ¬ sp.Inner pt := by
    rw [Space.inner_iff hwf]
    rintro ⟨q, hq, hx⟩
    exact hq (hwf.apart (b := .root) hx rfl)
  let body := fun i => freeEntry (freewalk 1) pt false (12 + 9 * (1 + 1)) 0 i
  -- the first entry leads to the table of the low 1 GiB
  obtain ⟨s₁, l₁, hdescend, hfreed₁⟩ := freewalk_low h
  have hlowl₁ : sp.low ∉ l₁ := by
    rw [hfreed₁.mem]
    rintro (hin | hin)
    · exact h.apart .low _ rfl hin
    · exact sp.not_below_low hwf 512 hin
  obtain ⟨s₂, hkfree, hfreed₂, _⟩ := hfreed₁.kfree hlow hlowl₁
  have hinner₂ : Freed s l pt sp.Inner s₂ (sp.low :: l₁) :=
    ⟨hfreed₂.free, hfreed₂.mem, fun x _ hgone => hfreed₂.frame x (hgone sp.low (Or.inr rfl)) hgone,
      hfreed₂.satp⟩
  have hwords₂ : ∀ r, 0 < r → r < 512 → le64 s₂.mem (pt + 8 * r) = bootRoot kt r := by
    intro r hpos hr
    rw [← h.space.root r hpos hr]
    refine le64_page_congr hr fun x hx => hfreed₂.frame x ?_ fun q hq => ?_
    · refine hlow.not_inPage hroot ?_ hx
      rintro heq
      exact hptInner (Or.inr heq.symm)
    · obtain ⟨part, _, hpart⟩ := (Space.inner_iff hwf).mp hq
      refine (hwf.isPage _ _ hpart).not_inPage hroot ?_ hx
      rintro rfl
      exact hptInner hq
  have hnotl₂ : pt ∉ sp.low :: l₁ := by
    rw [hinner₂.mem]
    rintro (hin | hin)
    · exact h.apart .root _ rfl hin
    · exact hptInner hin
  have hfirst : body 0 s = (.ok (), { s₂ with mem := put64 s₂.mem (pt + 8 * 0) 0 }) := by
    have hva : u64 (0 + 0 <<< (12 + 9 * (1 + 1))) = 0 := by decide
    refine freeEntry_table ?_ hlow h.space.rootLow ?_ hkfree
    · rw [hva]
      decide
    · rw [hva]
      exact hdescend
  -- the other entries hold no user pages
  let inv := fun j s' => (∃ l', Freed s l pt sp.Inner s' l') ∧
    ∀ r, j ≤ r → r < 512 → le64 s'.mem (pt + 8 * r) = bootRoot kt r
  have hstart : inv 1 { s₂ with mem := put64 s₂.mem (pt + 8 * 0) 0 } := by
    refine ⟨⟨_, hinner₂.clear hroot hnotl₂ (by decide)⟩, fun r hpos hr => ?_⟩
    change le64 (put64 s₂.mem (pt + 8 * 0) 0) (pt + 8 * r) = _
    rw [le64_put64_word (Nat.ne_of_lt hpos)]
    exact hwords₂ r hpos hr
  obtain ⟨s', hrest, ⟨l', hfreed⟩, _⟩ := Prog.forCount_inv body inv 511 1 _ hstart (by
    rintro j s₃ hpos hj ⟨⟨l₃, hfreed⟩, hrest⟩
    have hj : j < 512 := by omega
    have hword := hrest j (Nat.le_refl j) hj
    have hptl₃ : pt ∉ l₃ := by
      rw [hfreed.mem]
      rintro (hin | hin)
      · exact h.apart .root _ rfl hin
      · exact hptInner hin
    rcases @bootRoot_cases kt _ hpos with hzero | ⟨hvalid, hleaf, huser⟩ | ⟨rfl, htable⟩
    · exact ⟨s₃, freeEntry_empty false (hword.trans hzero), ⟨l₃, hfreed⟩,
        fun r hr => hrest r (Nat.le_of_succ_le hr)⟩
    · refine ⟨_, freeEntry_device hword hvalid hleaf huser, ⟨l₃, hfreed.clear hroot hptl₃ hj⟩, ?_⟩
      intro r hr hlt
      have hne : j ≠ r := by omega
      change le64 (put64 s₃.mem (pt + 8 * j) 0) (pt + 8 * r) = _
      rw [le64_put64_word hne]
      exact hrest r (Nat.le_of_succ_le hr) hlt
    · exact ⟨s₃, freeEntry_kernel (by decide) hkt (hword.trans htable), ⟨l₃, hfreed⟩,
        fun r hr => hrest r (Nat.le_of_succ_le hr)⟩)
  refine ⟨s', l', ?_, hfreed⟩
  rw [freewalk_succ]
  exact Prog.forCount_ok body hfirst hrest

/-- `uvm_free` gives back exactly the pages of the address space. -/
theorem uvmFree_spec (h : Held kt s pt sp l) (hkt : IsPage kt) :
    ∃ s' l', uvmFree pt s = (.ok (), s') ∧ FreePages s' l' ∧
      (∀ x, x ∈ l' ↔ LocalPage pt sp l x) ∧
      (∀ x, (∀ p, LocalPage pt sp l p → ¬ InPage p x) → s'.mem x = s.mem x) ∧
      s'.satp = s.satp := by
  have hwf := h.wf
  have hroot : IsPage pt := hwf.isPage .root _ rfl
  have hptInner : ¬ sp.Inner pt := by
    rw [Space.inner_iff hwf]
    rintro ⟨q, hq, hx⟩
    exact hq (hwf.apart (b := .root) hx rfl)
  obtain ⟨s₁, l₁, hwalk, hfreed⟩ := freewalk_root h hkt
  have hnot : pt ∉ l₁ := by
    rw [hfreed.mem]
    rintro (hin | hin)
    · exact h.apart .root _ rfl hin
    · exact hptInner hin
  obtain ⟨s', hkfree, hfreed', _⟩ := hfreed.kfree hroot hnot
  have hlocal : ∀ x, LocalPage pt sp l x ↔ x ∈ l ∨ sp.Inner x ∨ x = pt := by
    intro x
    rw [Space.inner_iff hwf]
    constructor
    · rintro (hx | ⟨q, hx⟩)
      · exact Or.inl hx
      · by_cases hq : q = .root
        · subst hq
          exact Or.inr (Or.inr hx)
        · exact Or.inr (Or.inl ⟨q, hq, hx⟩)
    · rintro (hx | ⟨q, _, hx⟩ | hx)
      · exact Or.inl hx
      · exact Or.inr ⟨q, hx⟩
      · exact Or.inr ⟨.root, hx⟩
  refine ⟨s', pt :: l₁, ?_, hfreed'.free, ?_, ?_, hfreed'.satp⟩
  · rw [uvmFree, if_neg (Nat.ne_of_gt hroot.pos), Prog.bind_ok hwalk]
    exact hkfree
  · intro x
    rw [hfreed'.mem, hlocal]
  · intro x hx
    refine hfreed'.frame x (hx pt (Or.inr ⟨.root, rfl⟩)) fun p hp => hx p ?_
    rw [hlocal]
    exact Or.inr hp

end Walks

end OsAgentLab
