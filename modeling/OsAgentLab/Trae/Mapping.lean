/-
The walk through the tables of a caller, and the tables that it makes on its way.
-/
import OsAgentLab.Trae.Pages

namespace OsAgentLab

namespace Trae

variable {s s₁ : Ram} {c : Caller} {ly : Layout} {part : Part} {l : List Nat} {alloc : Bool}
  {p q t pt va v level j m : Nat}

section Indices

theorem vaVpn_eq (level va : Nat) : vaVpn level va = va / 2 ^ (12 + 9 * level) % 512 := by
  rw [vaVpn, Nat.shiftRight_eq_div_pow]
  exact Nat.and_two_pow_sub_one_eq_mod _ 9

theorem vaVpn_lt (level va : Nat) : vaVpn level va < 512 := by
  rw [vaVpn_eq]
  exact Nat.mod_lt _ (by decide)

theorem vaVpn_zero (va : Nat) : vaVpn 0 va = va / pageSize % 512 := vaVpn_eq 0 va

theorem vaVpn_one (va : Nat) : vaVpn 1 va = va / pageSize / 512 % 512 := by
  rw [vaVpn_eq, pageSize, Nat.div_div_eq_div_mul]
  rfl

theorem vaVpn_two (hva : va < 549755813888) : vaVpn 2 va = va / pageSize / 262144 := by
  rw [vaVpn_eq, pageSize, Nat.div_div_eq_div_mul]
  omega

/-- The indices of a page number. -/
theorem page_index (v : Nat) : (v / 262144 * 512 + v / 512 % 512) * 512 + v % 512 = v := by
  omega

theorem index_div {i j k : Nat} (hj : j < 512) (hk : k < 512) :
    ((i * 512 + j) * 512 + k) / 262144 = i ∧ ((i * 512 + j) * 512 + k) / 512 % 512 = j := by
  omega

end Indices

section Steps

theorem walkFrom_down (hvalid : s.mem (p + 8 * vaVpn (level + 1) va) &&& pteV ≠ 0)
    (hsmall : s.mem (p + 8 * vaVpn (level + 1) va) &&& ptePs = 0) :
    walkFrom va alloc (level + 1) p s =
      walkFrom va alloc level (ppnPa (ptePpn (s.mem (p + 8 * vaVpn (level + 1) va)))) s := by
  have hleaf : ¬(level + 1 = 1 ∧ s.mem (p + 8 * vaVpn (level + 1) va) &&& ptePs ≠ 0) :=
    fun h => h.2 hsmall
  rw [walkFrom, Prog.get_bind, if_pos hvalid, if_neg hleaf]

theorem walkFrom_found (hvalid : s.mem (p + 8 * vaVpn 0 va) &&& pteV ≠ 0) :
    walkFrom va alloc 0 p s = (.ok (p + 8 * vaVpn 0 va), s) := by
  rw [walkFrom, Prog.get_bind, if_pos hvalid]
  rfl

theorem walkFrom_absent (hnone : s.mem (p + 8 * vaVpn level va) &&& pteV = 0) :
    walkFrom va false level p s = (.ok 0, s) := by
  cases level with
  | zero =>
      rw [walkFrom, Prog.get_bind, if_neg (not_not_intro hnone), if_pos rfl]
      rfl
  | succ level =>
      rw [walkFrom, Prog.get_bind, if_neg (not_not_intro hnone), if_pos rfl]
      rfl

theorem walkFrom_full (hnone : s.mem (p + 8 * vaVpn level va) &&& pteV = 0)
    (hfull : kalloc s = (.ok 0, s)) : walkFrom va true level p s = (.ok 0, s) := by
  cases level with
  | zero =>
      rw [walkFrom, Prog.get_bind, if_neg (not_not_intro hnone), if_neg Bool.noConfusion,
        Prog.bind_ok hfull, if_pos rfl]
      rfl
  | succ level =>
      rw [walkFrom, Prog.get_bind, if_neg (not_not_intro hnone), if_neg Bool.noConfusion,
        Prog.bind_ok hfull, if_pos rfl]
      rfl

theorem walkFrom_new (hnone : s.mem (p + 8 * vaVpn (level + 1) va) &&& pteV = 0)
    (htake : kalloc s = (.ok t, s₁)) (ht : t ≠ 0) :
    walkFrom va true (level + 1) p s = walkFrom va true level t { s₁ with
      mem := Function.update s₁.mem (p + 8 * vaVpn (level + 1) va) (tableEntry t) } := by
  rw [walkFrom, Prog.get_bind, if_neg (not_not_intro hnone), if_neg Bool.noConfusion,
    Prog.bind_ok htake, if_neg ht]
  rfl

theorem walkFrom_leaf (hnone : s.mem (p + 8 * vaVpn 0 va) &&& pteV = 0)
    (htake : kalloc s = (.ok t, s₁)) (ht : t ≠ 0) :
    walkFrom va true 0 p s = (.ok (p + 8 * vaVpn 0 va), { s₁ with
      mem := Function.update s₁.mem (p + 8 * vaVpn 0 va) (tableEntry t) }) := by
  rw [walkFrom, Prog.get_bind, if_neg (not_not_intro hnone), if_neg Bool.noConfusion,
    Prog.bind_ok htake, if_neg ht]
  rfl

end Steps

section Below

/-- The part behind an entry of a root or of a second-level table. -/
def Part.child : Part → Nat → Part
  | .root pt, i => .mid pt i
  | .mid pt i, j => .low pt i j
  | part, _ => part

/-- The parts whose entries lead to tables. -/
def Part.Inner : Part → Prop
  | .root _ => True
  | .mid _ _ => True
  | _ => False

theorem Part.Inner.isTable (h : part.Inner) : part.IsTable := by
  cases part with
  | free => exact h
  | held => exact h
  | root pt => exact h
  | mid pt i => exact h
  | low pt i j => exact h.elim

/-- One more table below another one. -/
def Layout.put (ly : Layout) : Part → Nat → Nat → Layout
  | .root pt, i, t => { ly with
      mid := Function.update ly.mid pt (Function.update (ly.mid pt) i (some t)) }
  | .mid pt i, j, t => { ly with
      low := Function.update ly.low pt
        (Function.update (ly.low pt) i (Function.update (ly.low pt i) j (some t))) }
  | _, _, _ => ly

/-- An entry that leads to a table holds its address, and one that does not is not valid. -/
theorem Laid.below (h : Laid s c ly) (hp : Has c ly part p) (hinner : part.Inner) (hj : j < 512) :
    (∃ t, Has c ly (part.child j) t ∧ s.mem (p + 8 * j) = tableEntry t) ∨
      entryAt c ly part j = none ∧ s.mem (p + 8 * j) &&& pteV = 0 := by
  have hword := h.words part p hp hinner.isTable j hj
  cases part with
  | free => exact hinner.elim
  | held => exact hinner.elim
  | root pt =>
      rw [entryAt] at hword ⊢
      cases hmid : ly.mid pt j with
      | none =>
          rw [hmid] at hword
          exact Or.inr ⟨rfl, hword⟩
      | some t =>
          rw [hmid] at hword
          exact Or.inl ⟨t, ⟨hp.1, hmid⟩, hword⟩
  | mid pt i =>
      rw [entryAt] at hword ⊢
      cases hlow : ly.low pt i j with
      | none =>
          rw [hlow] at hword
          exact Or.inr ⟨rfl, hword⟩
      | some t =>
          rw [hlow] at hword
          exact Or.inl ⟨t, ⟨hp.1, hlow⟩, hword⟩
  | low pt i k => exact hinner.elim

end Below

section NewTable

theorem put_free (part : Part) (j t : Nat) : (ly.put part j t).free = ly.free := by
  cases part <;> rfl

theorem put_mid (pt i t r i' : Nat) :
    (ly.put (.root pt) i t).mid r i' = if r = pt ∧ i' = i then some t else ly.mid r i' := by
  rw [Layout.put]
  dsimp only
  by_cases hr : r = pt
  · subst hr
    rw [Function.update_self]
    by_cases hi : i' = i
    · rw [hi, Function.update_self, if_pos ⟨rfl, rfl⟩]
    · rw [Function.update_of_ne hi, if_neg fun h => hi h.2]
  · rw [Function.update_of_ne hr, if_neg fun h => hr h.1]

theorem put_low (pt i j t r i' j' : Nat) :
    (ly.put (.mid pt i) j t).low r i' j' =
      if r = pt ∧ i' = i ∧ j' = j then some t else ly.low r i' j' := by
  rw [Layout.put]
  dsimp only
  by_cases hr : r = pt
  · subst hr
    rw [Function.update_self]
    by_cases hi : i' = i
    · subst hi
      rw [Function.update_self]
      by_cases hj : j' = j
      · rw [hj, Function.update_self, if_pos ⟨rfl, rfl, rfl⟩]
      · rw [Function.update_of_ne hj, if_neg fun h => hj h.2.2]
    · rw [Function.update_of_ne hi, if_neg fun h => hi h.2.1]
  · rw [Function.update_of_ne hr, if_neg fun h => hr h.1]

theorem has_put {a : Part} (hinner : part.Inner) (h : Has c (ly.put part j t) a q) :
    Has c ly a q ∨ a = part.child j ∧ q = t := by
  cases part with
  | free => exact hinner.elim
  | held => exact hinner.elim
  | low pt i k => exact hinner.elim
  | root pt =>
      cases a with
      | mid r i =>
          obtain ⟨hr, hsome⟩ := h
          rw [put_mid] at hsome
          by_cases hhit : r = pt ∧ i = j
          · rw [if_pos hhit] at hsome
            obtain ⟨rfl, rfl⟩ := hhit
            exact Or.inr ⟨rfl, (Option.some.inj hsome).symm⟩
          · rw [if_neg hhit] at hsome
            exact Or.inl ⟨hr, hsome⟩
      | free => exact Or.inl h
      | held => exact Or.inl h
      | root r => exact Or.inl h
      | low r i k => exact Or.inl h
  | mid pt i =>
      cases a with
      | low r i' k =>
          obtain ⟨hr, hsome⟩ := h
          rw [put_low] at hsome
          by_cases hhit : r = pt ∧ i' = i ∧ k = j
          · rw [if_pos hhit] at hsome
            obtain ⟨rfl, rfl, rfl⟩ := hhit
            exact Or.inr ⟨rfl, (Option.some.inj hsome).symm⟩
          · rw [if_neg hhit] at hsome
            exact Or.inl ⟨hr, hsome⟩
      | free => exact Or.inl h
      | held => exact Or.inl h
      | root r => exact Or.inl h
      | mid r i' => exact Or.inl h

/-- The new table is behind the entry. -/
theorem has_child (hp : Has c ly part p) (hinner : part.Inner) :
    Has c (ly.put part j t) (part.child j) t := by
  cases part with
  | free => exact hinner.elim
  | held => exact hinner.elim
  | low pt i k => exact hinner.elim
  | root pt => exact ⟨hp.1, by rw [put_mid, if_pos ⟨rfl, rfl⟩]⟩
  | mid pt i => exact ⟨hp.1, by rw [put_low, if_pos ⟨rfl, rfl, rfl⟩]⟩

theorem entryAt_put {a : Part} {k : Nat} (hinner : part.Inner) (hne : a = part → k ≠ j) :
    entryAt c (ly.put part j t) a k = entryAt c ly a k := by
  cases part with
  | free => exact hinner.elim
  | held => exact hinner.elim
  | low pt i k => exact hinner.elim
  | root pt =>
      cases a with
      | root r =>
          rw [entryAt, entryAt, put_mid, if_neg fun h => hne (congrArg Part.root h.1) h.2]
      | free => rfl
      | held => rfl
      | mid r i => rfl
      | low r i k => rfl
  | mid pt i =>
      cases a with
      | mid r i' =>
          rw [entryAt, entryAt, put_low, if_neg fun h => hne (by rw [h.1, h.2.1]) h.2.2]
      | free => rfl
      | held => rfl
      | root r => rfl
      | low r i k => rfl

theorem entryAt_put_self (hinner : part.Inner) :
    entryAt c (ly.put part j t) part j = some (tableEntry t) := by
  cases part with
  | free => exact hinner.elim
  | held => exact hinner.elim
  | low pt i k => exact hinner.elim
  | root pt => rw [entryAt, put_mid, if_pos ⟨rfl, rfl⟩, Option.map_some]
  | mid pt i => rw [entryAt, put_low, if_pos ⟨rfl, rfl, rfl⟩, Option.map_some]

theorem Shape.put (h : Shape c ly) (hp : Has c ly part p) (hinner : part.Inner) (hj : j < 512) :
    Shape c (ly.put part j t) := by
  cases part with
  | free => exact hinner.elim
  | held => exact hinner.elim
  | low pt i k => exact hinner.elim
  | root pt =>
      refine ⟨fun r hr i k hlow => ⟨?_, (h.low r hr i k hlow).2⟩, h.maps⟩
      rw [put_mid]
      by_cases hhit : r = pt ∧ i = j
      · rw [if_pos hhit]
        exact Option.some_ne_none t
      · rw [if_neg hhit]
        exact (h.low r hr i k hlow).1
  | mid pt i =>
      constructor
      · intro r hr i' k hlow
        rw [put_low] at hlow
        by_cases hhit : r = pt ∧ i' = i ∧ k = j
        · obtain ⟨rfl, rfl, rfl⟩ := hhit
          exact ⟨fun hnone => Option.some_ne_none p (hp.2.symm.trans hnone), hj⟩
        · rw [if_neg hhit] at hlow
          exact h.low r hr i' k hlow
      · intro r hr v e he
        obtain ⟨hv, hvalid, hlow⟩ := h.maps r hr v e he
        refine ⟨hv, hvalid, ?_⟩
        rw [put_low]
        split
        · exact Option.some_ne_none t
        · exact hlow

/-- Nothing hangs below an entry that leads nowhere. -/
theorem Shape.childless (h : Shape c ly) (hp : Has c ly part p) (hinner : part.Inner)
    (hnone : entryAt c ly part j = none) (hj : j < 512) {k : Nat} (hk : k < 512) :
    entryAt c ly (part.child j) k = none := by
  cases part with
  | free => exact hinner.elim
  | held => exact hinner.elim
  | low pt i k => exact hinner.elim
  | root pt =>
      have hmid : ly.mid pt j = none := Option.map_eq_none_iff.1 hnone
      refine Option.map_eq_none_iff.2 (not_not.1 fun hlow => ?_)
      exact (h.low pt hp.1 j k hlow).1 hmid
  | mid pt i =>
      have hlow : ly.low pt i j = none := Option.map_eq_none_iff.1 hnone
      refine Option.map_eq_none_iff.2 ?_
      cases he : c.maps pt ((i * 512 + j) * 512 + k) with
      | none => rfl
      | some e =>
          have hne := (h.maps pt hp.1 _ e he).2.2
          rw [(index_div hj hk).1, (index_div hj hk).2] at hne
          exact absurd hlow hne

/-- A clean page becomes a table below another one. -/
theorem Laid.addTable (h : Laid s c ly) (hp : Has c ly part p) (hinner : part.Inner)
    (hj : j < 512) (hnone : entryAt c ly part j = none) (ht : InRange s t)
    (hclean : Clean s.mem t) (hunowned : Unowned c ly t) :
    Laid { s with mem := Function.update s.mem (p + 8 * j) (tableEntry t) } c
      (ly.put part j t) := by
  refine @Laid.write s c c ly _ part (part.child j) p t j _ h hp hinner.isTable hj
    (put_free part j t) (fun a q => has_put hinner) hunowned (fun _ => ⟨ht, hclean⟩)
    (fun k hk _ => ?_) (fun a q _ _ k _ hne => entryAt_put hinner hne) ?_ (h.shape.put hp hinner hj)
  · have hchild : part.child j = part → k ≠ j := by
      intro heq
      cases part <;> cases heq <;> exact hinner.elim
    rw [entryAt_put hinner hchild]
    exact h.shape.childless hp hinner hnone hj hk
  · rw [entryAt_put_self hinner]
    exact Function.update_self ..

end NewTable

section Walk

/-- Every page that a walk takes for a table from here on has no valid entry. -/
def WalkClean (va : Nat) : Nat → Nat → Ram → Prop
  | 0, _, _ => True
  | level + 1, pagetable, s =>
      let pte := pagetable + 8 * vaVpn (level + 1) va
      if s.mem pte &&& pteV ≠ 0 then WalkClean va level (ppnPa (ptePpn (s.mem pte))) s
      else s.freelist = 0 ∨ Clean s.mem s.freelist ∧
        WalkClean va level s.freelist { s with
          mem := Function.update s.mem pte (tableEntry s.freelist)
          freelist := s.mem s.freelist }

/-- One level down, to a table that was there or to a new one. -/
theorem Laid.down (h : Laid s c ly) (hp : Has c ly part p) (hinner : part.Inner)
    (hclean : WalkClean va (level + 1) p s) :
    walkFrom va true (level + 1) p s = (.ok 0, s) ∨
      ∃ t s' ly', walkFrom va true (level + 1) p s = walkFrom va true level t s' ∧
        Laid s' c ly' ∧ Has c ly' (part.child (vaVpn (level + 1) va)) t ∧
        WalkClean va level t s' ∧ ∀ x ∈ ly'.free, x ∈ ly.free := by
  rw [WalkClean] at hclean
  rcases h.below hp hinner (vaVpn_lt (level + 1) va) with ⟨t, hchild, hword⟩ | ⟨hnone, hinvalid⟩
  · have hlt := (h.page _ t hchild).lt h.stop
    have hvalid : s.mem (p + 8 * vaVpn (level + 1) va) &&& pteV ≠ 0 := by
      rw [hword]
      exact tableEntry_valid hlt
    have hsmall : s.mem (p + 8 * vaVpn (level + 1) va) &&& ptePs = 0 := by
      rw [hword]
      exact tableEntry_small hlt
    have hpage : ppnPa (ptePpn (s.mem (p + 8 * vaVpn (level + 1) va))) = t := by
      rw [hword]
      exact tableEntry_page (h.page _ t hchild).aligned hlt
    rw [if_pos hvalid, hpage] at hclean
    refine Or.inr ⟨t, s, ly, ?_, h, hchild, hclean, fun x hx => hx⟩
    rw [walkFrom_down hvalid hsmall, hpage]
  · rw [if_neg (not_not_intro hinvalid)] at hclean
    cases hfree : ly.free with
    | nil => exact Or.inl (walkFrom_full hinvalid (kalloc_nil h hfree))
    | cons t l =>
        have ht := h.head_page hfree
        have hpos := ht.pos h.start
        obtain ⟨htaken, hunowned⟩ := h.take hfree
        rw [h.freelist_eq hfree] at hclean
        obtain ⟨hcleanPage, hrest⟩ := hclean.resolve_left hpos
        have hp' : Has c { ly with free := l } part p := by
          cases part with
          | free => exact hinner.elim
          | held => exact hinner.elim
          | root pt => exact hp
          | mid pt i => exact hp
          | low pt i j => exact hp
        have hnone' : entryAt c { ly with free := l } part (vaVpn (level + 1) va) = none := by
          rw [entryAt_withFree]
          exact hnone
        have hadded := htaken.addTable hp' hinner (vaVpn_lt (level + 1) va) hnone'
          ⟨ht.aligned, ht.start, ht.stop⟩ hcleanPage hunowned
        refine Or.inr ⟨t, _, _, walkFrom_new hinvalid (kalloc_cons h hfree) hpos, hadded,
          has_child hp' hinner, hrest, fun x hx => ?_⟩
        rw [put_free] at hx
        exact List.mem_cons_of_mem t hx

/-- Without a table of the last level nothing is mapped below it. -/
theorem Shape.unmapped (h : Shape c ly) (hpt : pt ∈ c.roots)
    (hnone : ly.mid pt (v / 262144) = none ∨ ly.low pt (v / 262144) (v / 512 % 512) = none) :
    c.maps pt v = none := by
  cases he : c.maps pt v with
  | none => rfl
  | some e =>
      have hlow := (h.maps pt hpt v e he).2.2
      rcases hnone with hmid | hnone
      · exact absurd hmid (h.low pt hpt _ _ hlow).1
      · exact absurd hnone hlow

/-- A walk that does not make tables finds the entry of a mapping, or nothing. -/
theorem Laid.walk_read (h : Laid s c ly) (hpt : pt ∈ c.roots) (hva : va < 549755813888) :
    walk pt va false s = (.ok 0, s) ∧ c.maps pt (va / pageSize) = none ∨
      ∃ p e, walk pt va false s = (.ok (p + 8 * (va / pageSize % 512)), s) ∧
        Has c ly (.low pt (va / pageSize / 262144) (va / pageSize / 512 % 512)) p ∧
        c.maps pt (va / pageSize) = some e ∧
        s.mem (p + 8 * (va / pageSize % 512)) = e.entry := by
  have hroot : Has c ly (.root pt) pt := ⟨hpt, rfl⟩
  have hindex := page_index (va / pageSize)
  have hdown : ∀ {part : Part} {p t level : Nat}, Has c ly (part.child (vaVpn (level + 1) va)) t →
      s.mem (p + 8 * vaVpn (level + 1) va) = tableEntry t →
      walkFrom va false (level + 1) p s = walkFrom va false level t s := by
    intro part p t level hchild hword
    have hlt := (h.page _ t hchild).lt h.stop
    rw [walkFrom_down (by rw [hword]; exact tableEntry_valid hlt)
      (by rw [hword]; exact tableEntry_small hlt), hword,
      tableEntry_page (h.page _ t hchild).aligned hlt]
  rw [walk]
  rcases h.below hroot trivial (vaVpn_lt 2 va) with ⟨t, hmid, hword⟩ | ⟨hnone, hinvalid⟩
  · rw [hdown hmid hword]
    rcases h.below hmid trivial (vaVpn_lt 1 va) with ⟨p, hlow, hword'⟩ | ⟨hnone, hinvalid⟩
    · rw [hdown hlow hword']
      have hleaf := h.words _ p hlow trivial _ (vaVpn_lt 0 va)
      rw [Part.child, Part.child, vaVpn_two hva, vaVpn_one] at hlow
      rw [Part.child, Part.child, entryAt, vaVpn_two hva, vaVpn_one, vaVpn_zero, hindex] at hleaf
      cases he : c.maps pt (va / pageSize) with
      | none =>
          rw [he] at hleaf
          refine Or.inl ⟨walkFrom_absent ?_, rfl⟩
          rw [vaVpn_zero]
          exact hleaf
      | some e =>
          rw [he] at hleaf
          have hvalid := (h.shape.maps pt hpt _ e he).2.1.entry_valid
          refine Or.inr ⟨p, e, ?_, hlow, rfl, hleaf⟩
          rw [← vaVpn_zero]
          refine walkFrom_found ?_
          rw [vaVpn_zero, hleaf]
          exact hvalid
    · rw [Part.child, entryAt, vaVpn_two hva, vaVpn_one] at hnone
      exact Or.inl ⟨walkFrom_absent hinvalid,
        h.shape.unmapped hpt (Or.inr (Option.map_eq_none_iff.1 hnone))⟩
  · rw [entryAt, vaVpn_two hva] at hnone
    exact Or.inl ⟨walkFrom_absent hinvalid,
      h.shape.unmapped hpt (Or.inl (Option.map_eq_none_iff.1 hnone))⟩

end Walk

end Trae

end OsAgentLab
