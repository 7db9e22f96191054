/-
The entries that `map_pages` and `unmap_pages` write, one page after the other.
-/
import OsAgentLab.Trae.Mapping

namespace OsAgentLab

namespace Trae

variable {s : Ram} {c : Caller} {ly : Layout} {p q pt va v : Nat}

section Leaves

/-- The mapping of one page changes. -/
def Caller.set (c : Caller) (pt v : Nat) (o : Option Leaf) : Caller :=
  { c with maps := Function.update c.maps pt (Function.update (c.maps pt) v o) }

theorem set_maps_self (o : Option Leaf) : (c.set pt v o).maps pt v = o := by
  rw [Caller.set]
  dsimp only
  rw [Function.update_self, Function.update_self]

theorem set_maps_of_ne {r u : Nat} (o : Option Leaf) (h : r = pt → u ≠ v) :
    (c.set pt v o).maps r u = c.maps r u := by
  rw [Caller.set]
  dsimp only
  by_cases hr : r = pt
  · subst hr
    rw [Function.update_self, Function.update_of_ne (h rfl)]
  · rw [Function.update_of_ne hr]

theorem has_set {a : Part} (o : Option Leaf) : Has (c.set pt v o) ly a q ↔ Has c ly a q := by
  cases a <;> exact Iff.rfl

/-- An entry of a last table is written. -/
theorem Laid.setLeaf (h : Laid s c ly) (hv : v < 134217728)
    (hp : Has c ly (.low pt (v / 262144) (v / 512 % 512)) p) {o : Option Leaf}
    (ho : ∀ e, o = some e → e.Valid) {w : Nat} (hw : HoldsEntry (fun _ => w) 0 (o.map Leaf.entry)) :
    Laid { s with mem := Function.update s.mem (p + 8 * (v % 512)) w } (c.set pt v o) ly := by
  have hzero : ∀ a, ¬Has c ly a 0 := fun a ha => (h.page a 0 ha).pos h.start rfl
  have hself : entryAt (c.set pt v o) ly (.low pt (v / 262144) (v / 512 % 512)) (v % 512) =
      o.map Leaf.entry := by
    rw [entryAt, page_index, set_maps_self]
  have hother : ∀ a q, Has c ly a q → ∀ j, j < 512 →
      (a = .low pt (v / 262144) (v / 512 % 512) → j ≠ v % 512) →
      entryAt (c.set pt v o) ly a j = entryAt c ly a j := by
    intro a q hq j hj hne
    cases a with
    | low r i k =>
        rw [entryAt, entryAt, set_maps_of_ne]
        rintro rfl rfl
        have hk : k < 512 := (h.shape.low r hq.1 i k fun hnone =>
          Option.some_ne_none q (hq.2.symm.trans hnone)).2
        refine hne ?_ (by omega)
        rw [(index_div hk hj).1, (index_div hk hj).2]
    | free => rfl
    | held => rfl
    | root r => rfl
    | mid r i => rfl
  refine @Laid.write s c _ ly _ _ .free p 0 _ w h hp trivial (Nat.mod_lt _ (by decide)) rfl
    (fun a q hq => Or.inl ((has_set o).1 hq)) hzero
    (fun h0 => absurd ((has_set o).1 h0) (hzero _))
    (fun j _ h0 => absurd ((has_set o).1 h0) (hzero _))
    (fun a q hq _ => hother a q hq) ?_ ⟨h.shape.low, fun r hr u e he => ?_⟩
  · rw [hself]
    cases o with
    | none =>
        rw [Option.map_none, HoldsEntry, Function.update_self]
        exact hw
    | some e =>
        rw [Option.map_some, HoldsEntry, Function.update_self]
        exact hw
  · by_cases hhit : r = pt ∧ u = v
    · obtain ⟨rfl, rfl⟩ := hhit
      rw [set_maps_self] at he
      exact ⟨hv, ho e he, fun hnone => Option.some_ne_none p (hp.2.symm.trans hnone)⟩
    · rw [set_maps_of_ne o fun hr' hu => hhit ⟨hr', hu⟩] at he
      exact h.shape.maps r hr u e he

end Leaves

section Passes

/-- A walk that makes tables ends at an entry that is ready for a mapping, or finds no page.  For
an entry that was not valid it takes one page more than it makes tables. -/
theorem Laid.walk_new (h : Laid s c ly) (hpt : pt ∈ c.roots) (hva : va < 549755813888)
    (hclean : WalkClean va 2 pt s) :
    (∃ s', walk pt va true s = (.ok 0, s')) ∨
      ∃ p s' ly', walk pt va true s = (.ok (p + 8 * (va / pageSize % 512)), s') ∧ p ≠ 0 ∧
        (∀ w o, (∀ e, o = some e → e.Valid) → HoldsEntry (fun _ => w) 0 (o.map Leaf.entry) →
          Laid { s' with mem := Function.update s'.mem (p + 8 * (va / pageSize % 512)) w }
            (c.set pt (va / pageSize) o) ly') ∧
        (∀ x ∈ ly'.free, x ∈ ly.free) ∧
        (c.maps pt (va / pageSize) = none → ∃ x ∈ ly.free, Unowned c ly' x) := by
  have hroot : Has c ly (.root pt) pt := ⟨hpt, rfl⟩
  have hv : va / pageSize < 134217728 := by
    rw [pageSize]
    omega
  rw [walk]
  rcases h.down hroot trivial hclean with hfull | ⟨t, s₁, ly₁, hrun₁, h₁, hmid, hclean₁, hsub₁⟩
  · exact Or.inl ⟨s, hfull⟩
  rw [hrun₁]
  rcases h₁.down hmid trivial hclean₁ with hfull | ⟨p, s₂, ly₂, hrun₂, h₂, hlow, -, hsub₂⟩
  · exact Or.inl ⟨s₁, hfull⟩
  rw [hrun₂]
  have hleaf := h₂.words _ p hlow trivial _ (vaVpn_lt 0 va)
  rw [Part.child, Part.child, vaVpn_two hva, vaVpn_one] at hlow
  rw [Part.child, Part.child, entryAt, vaVpn_two hva, vaVpn_one, vaVpn_zero, page_index] at hleaf
  have hp := (h₂.page _ p hlow).pos h₂.start
  have hsub : ∀ x ∈ ly₂.free, x ∈ ly.free := fun x hx => hsub₁ x (hsub₂ x hx)
  cases he : c.maps pt (va / pageSize) with
  | some e =>
      rw [he] at hleaf
      have hvalid : s₂.mem (p + 8 * vaVpn 0 va) &&& pteV ≠ 0 := by
        rw [vaVpn_zero, hleaf]
        exact (h₂.shape.maps pt hpt _ e he).2.1.entry_valid
      refine Or.inr ⟨p, s₂, ly₂, ?_, hp, fun w o ho hw => h₂.setLeaf hv hlow ho hw, hsub,
        fun hnone => absurd hnone (Option.some_ne_none e)⟩
      rw [← vaVpn_zero]
      exact walkFrom_found hvalid
  | none =>
      rw [he] at hleaf
      have hinvalid : s₂.mem (p + 8 * vaVpn 0 va) &&& pteV = 0 := by
        rw [vaVpn_zero]
        exact hleaf
      cases hfree : ly₂.free with
      | nil => exact Or.inl ⟨s₂, walkFrom_full hinvalid (kalloc_nil h₂ hfree)⟩
      | cons x l =>
          obtain ⟨htaken, hunowned⟩ := h₂.take hfree
          have hlow' : Has c { ly₂ with free := l }
              (.low pt (va / pageSize / 262144) (va / pageSize / 512 % 512)) p := hlow
          have hrun := walkFrom_leaf hinvalid (kalloc_cons h₂ hfree)
            ((h₂.head_page hfree).pos h₂.start)
          rw [vaVpn_zero] at hrun
          refine Or.inr ⟨p, _, { ly₂ with free := l }, hrun, hp, fun w o ho hw => ?_,
            fun y hy => hsub y (hfree ▸ List.mem_cons_of_mem x hy),
            fun _ => ⟨x, hsub x (hfree ▸ List.mem_cons_self), hunowned⟩⟩
          have hset := htaken.setLeaf hv hlow' ho hw
          dsimp only at hset ⊢
          rw [Function.update_idem]
          exact hset

/-- One pass of `map_pages` sets one mapping, or no page is left. -/
theorem Laid.mapPage (h : Laid s c ly) (hpt : pt ∈ c.roots) (hva : va < 549755813888)
    (hclean : WalkClean va 2 pt s) {e : Leaf} (he : e.Valid) :
    (∃ s', mapPage pt va e.pa e.perm s = (.err .walkFailed, s')) ∨
      ∃ s' ly', mapPage pt va e.pa e.perm s = (.ok (), s') ∧
        Laid s' (c.set pt (va / pageSize) (some e)) ly' ∧ (∀ x ∈ ly'.free, x ∈ ly.free) ∧
        (c.maps pt (va / pageSize) = none → ∃ x ∈ ly.free, Unowned c ly' x) := by
  rcases h.walk_new hpt hva hclean with ⟨s', hrun⟩ | ⟨p, s', ly', hrun, hp, hset, hsub, hlost⟩
  · refine Or.inl ⟨s', ?_⟩
    rw [Trae.mapPage, Prog.bind_ok hrun, if_pos rfl]
    rfl
  · refine Or.inr ⟨_, ly', ?_, hset e.entry (some e) (fun e' h' => Option.some.inj h' ▸ he) rfl,
      hsub, hlost⟩
    rw [Trae.mapPage, Prog.bind_ok hrun, if_neg (by omega)]
    rfl

/-- What one pass of `unmap_pages` changes for the caller. -/
def Caller.unmap (c : Caller) (pt v : Nat) (doFree : Bool) : Caller :=
  match doFree, c.maps pt v with
  | true, some e => (c.drop e.pa).set pt v none
  | _, _ => c.set pt v none

/-- The page that a pass gives back is the caller's. -/
def Caller.MayUnmap (c : Caller) (pt v : Nat) (doFree : Bool) : Prop :=
  doFree = true → ∀ e, c.maps pt v = some e → e.pa ∈ c.held

/-- One pass of `unmap_pages` removes one mapping. -/
theorem Laid.unmapPage (h : Laid s c ly) (hpt : pt ∈ c.roots) (hva : va < 549755813888)
    {doFree : Bool} (hmay : c.MayUnmap pt (va / pageSize) doFree) :
    c.maps pt (va / pageSize) = none ∧ unmapPage pt va doFree s = (.err .notMapped, s) ∨
      ∃ e s' ly', c.maps pt (va / pageSize) = some e ∧ unmapPage pt va doFree s = (.ok (), s') ∧
        Laid s' (c.unmap pt (va / pageSize) doFree) ly' ∧
        ly'.free = if doFree = true then e.pa :: ly.free else ly.free := by
  have hv : va / pageSize < 134217728 := by
    rw [pageSize]
    omega
  rcases h.walk_read hpt hva with ⟨hrun, hnone⟩ | ⟨p, e, hrun, hlow, he, hword⟩
  · refine Or.inl ⟨hnone, ?_⟩
    rw [Trae.unmapPage, Prog.bind_ok hrun, Prog.get_bind, if_pos (Or.inl rfl)]
    rfl
  · have hp := (h.page _ p hlow).pos h.start
    have hvalid := (h.shape.maps pt hpt _ e he).2.1
    have hpte : ¬(p + 8 * (va / pageSize % 512) = 0 ∨
        s.mem (p + 8 * (va / pageSize % 512)) &&& pteV = 0) := by
      rw [hword]
      exact not_or.2 ⟨by omega, hvalid.entry_valid⟩
    have hclear : HoldsEntry (fun _ => 0) 0 ((none : Option Leaf).map Leaf.entry) :=
      Nat.zero_and _
    refine Or.inr ⟨e, ?_⟩
    cases doFree with
    | false =>
        refine ⟨{ s with mem := Function.update s.mem (p + 8 * (va / pageSize % 512)) 0 }, ly, he,
          ?_, ?_, rfl⟩
        · rw [Trae.unmapPage, Prog.bind_ok hrun, Prog.get_bind, if_neg hpte,
            if_neg Bool.noConfusion]
          rfl
        · have hunmap : c.unmap pt (va / pageSize) false = c.set pt (va / pageSize) none := rfl
          rw [hunmap]
          exact h.setLeaf hv hlow (fun _ h' => absurd h'.symm (Option.some_ne_none _)) hclear
    | true =>
        have hheld := hmay rfl e he
        have hrange := h.page .held e.pa hheld
        obtain ⟨hdropped, hunowned⟩ := h.drop hheld
        have hgiven := hdropped.giveBack hrange hunowned
        have hlow' : Has (c.drop e.pa) { ly with free := e.pa :: ly.free }
            (.low pt (va / pageSize / 262144) (va / pageSize / 512 % 512)) p := hlow
        let s₁ : Ram := { s with mem := Function.update s.mem e.pa s.freelist, freelist := e.pa }
        refine ⟨{ s₁ with mem := Function.update s₁.mem (p + 8 * (va / pageSize % 512)) 0 },
          { ly with free := e.pa :: ly.free }, he, ?_, ?_, rfl⟩
        · rw [Trae.unmapPage, Prog.bind_ok hrun, Prog.get_bind, if_neg hpte, if_pos rfl, hword,
            hvalid.entry_page, Prog.bind_ok (kfree_run hrange)]
          rfl
        · have hunmap : c.unmap pt (va / pageSize) true =
              (c.drop e.pa).set pt (va / pageSize) none := by
            simp only [Caller.unmap, he]
          rw [hunmap]
          exact hgiven.setLeaf hv hlow' (fun _ h' => absurd h'.symm (Option.some_ne_none _)) hclear

end Passes

section Loops

/-- A page that is in nobody's hands and not on the free list. -/
def Lost (c : Caller) (ly : Layout) (x : Nat) : Prop :=
  x ∉ ly.free ∧ x ∉ c.held ∧ x ∉ c.roots

theorem Unowned.lost {x : Nat} (h : Unowned c ly x) : Lost c ly x :=
  ⟨h .free, h .held, fun hin => h (.root x) ⟨hin, rfl⟩⟩

/-- The caller after mappings of `n` pages from `v` on. -/
def Caller.mapRange (c : Caller) (pt v pa perm : Nat) : Nat → Caller
  | 0 => c
  | n + 1 => (c.set pt v (some ⟨pa, perm⟩)).mapRange pt (v + 1) (u64 (pa + pageSize)) perm n

/-- Every page that `map_pages` takes for a table has no valid entry. -/
def MapClean (pt perm : Nat) : Nat → Nat → Nat → Ram → Prop
  | 0, _, _, _ => True
  | n + 1, va, pa, s => WalkClean va 2 pt s ∧
      MapClean pt perm n (va + pageSize) (u64 (pa + pageSize)) (mapPage pt va pa perm s).2

theorem mapRange_held (n pa perm : Nat) : (c.mapRange pt v pa perm n).held = c.held := by
  induction n generalizing c v pa with
  | zero => rfl
  | succ n ih => exact ih _

theorem mapRange_roots (n pa perm : Nat) : (c.mapRange pt v pa perm n).roots = c.roots := by
  induction n generalizing c v pa with
  | zero => rfl
  | succ n ih => exact ih _

theorem Leaf.Valid.next {pa perm : Nat} (h : Leaf.Valid ⟨pa, perm⟩) :
    Leaf.Valid ⟨u64 (pa + pageSize), perm⟩ := by
  have haligned := h.aligned
  refine ⟨?_, Nat.mod_lt _ (by decide), h.perm⟩
  dsimp only at haligned ⊢
  rw [u64, pageSize] at *
  omega

/-- The loop of `map_pages` sets its mappings in turn.  The first page of a range that was not
mapped costs the page that the walk takes for its entry. -/
theorem Laid.mapLoop {perm : Nat} (n : Nat) {fuel pa : Nat} (h : Laid s c ly) (hpt : pt ∈ c.roots)
    (haligned : va % pageSize = 0) (hva : va + n * pageSize ≤ 549755813888)
    (he : Leaf.Valid ⟨pa, perm⟩) (hclean : MapClean pt perm n va pa s) (hfuel : n ≤ fuel) :
    (∃ s', mapLoop pt (va + n * pageSize) perm fuel va pa s = (.err .walkFailed, s')) ∨
      ∃ s' ly', mapLoop pt (va + n * pageSize) perm fuel va pa s = (.ok (), s') ∧
        Laid s' (c.mapRange pt (va / pageSize) pa perm n) ly' ∧ (∀ x ∈ ly'.free, x ∈ ly.free) ∧
        (n ≠ 0 → c.maps pt (va / pageSize) = none → ∃ x ∈ ly.free, Lost c ly' x) := by
  induction n generalizing s c ly va pa fuel with
  | zero =>
      refine Or.inr ⟨s, ly, ?_, h, fun x hx => hx, fun hn => absurd rfl hn⟩
      have hend : ¬va < va + 0 * pageSize := by omega
      cases fuel with
      | zero =>
          rw [Trae.mapLoop, if_neg hend]
          rfl
      | succ fuel =>
          rw [Trae.mapLoop, if_neg hend]
          rfl
  | succ n ih =>
      obtain ⟨hfirst, hrest⟩ := hclean
      obtain ⟨fuel, rfl⟩ : ∃ k, fuel = k + 1 := ⟨fuel - 1, by omega⟩
      have hgo : va < va + (n + 1) * pageSize := by
        rw [pageSize]
        omega
      have hstop : va + (n + 1) * pageSize = va + pageSize + n * pageSize := by
        rw [pageSize]
        omega
      have hnext : u64 (va + pageSize) = va + pageSize := by
        refine u64_of_lt ?_
        rw [pageSize] at *
        omega
      have hpage : (va + pageSize) / pageSize = va / pageSize + 1 :=
        Nat.add_div_right va (by decide)
      have hlow : va < 549755813888 := by
        rw [pageSize] at hva
        omega
      rw [Trae.mapLoop, if_pos hgo, hnext]
      rcases h.mapPage hpt hlow hfirst he with ⟨s', hrun⟩ | ⟨s₁, ly₁, hrun, h₁, hsub₁, hlost₁⟩
      · exact Or.inl ⟨s', Prog.bind_err hrun _⟩
      · rw [Prog.bind_ok hrun, hstop]
        dsimp only at hrun
        rw [hrun] at hrest
        have haligned' : (va + pageSize) % pageSize = 0 := by
          rw [Nat.add_mod_right]
          exact haligned
        have hva' : va + pageSize + n * pageSize ≤ 549755813888 := hstop ▸ hva
        rcases ih h₁ hpt haligned' hva' he.next hrest (Nat.le_of_succ_le_succ hfuel) with
          hfull | ⟨s', ly', hrun', h', hsub', -⟩
        · exact Or.inl hfull
        · rw [hpage] at h'
          refine Or.inr ⟨s', ly', hrun', h', fun x hx => hsub₁ x (hsub' x hx), fun _ hnone => ?_⟩
          obtain ⟨x, hx, hunowned⟩ := hlost₁ hnone
          have hlost := hunowned.lost
          exact ⟨x, hx, fun hin => hlost.1 (hsub' x hin), hlost.2⟩

/-- `map_pages` for whole pages. -/
theorem Laid.mapPages {perm pa n : Nat} (h : Laid s c ly) (hpt : pt ∈ c.roots)
    (haligned : va % pageSize = 0) (hva : va + n * pageSize ≤ 549755813888)
    (he : Leaf.Valid ⟨pa, perm⟩) (hclean : MapClean pt perm n va pa s) :
    (∃ s', mapPages pt va pa (n * pageSize) perm s = (.err .walkFailed, s')) ∨
      ∃ s' ly', mapPages pt va pa (n * pageSize) perm s = (.ok (), s') ∧
        Laid s' (c.mapRange pt (va / pageSize) pa perm n) ly' ∧ (∀ x ∈ ly'.free, x ∈ ly.free) ∧
        (n ≠ 0 → c.maps pt (va / pageSize) = none → ∃ x ∈ ly.free, Lost c ly' x) := by
  have hstop : u64 (va + n * pageSize) = va + n * pageSize := u64_of_lt (by omega)
  have hcount : n * pageSize / pageSize = n := Nat.mul_div_cancel n (by decide)
  have hva' : va / pageSize * pageSize = va := Nat.div_mul_cancel (Nat.dvd_of_mod_eq_zero haligned)
  have hpa' : pa / pageSize * pageSize = pa :=
    Nat.div_mul_cancel (Nat.dvd_of_mod_eq_zero he.aligned)
  rw [Trae.mapPages, hstop, hcount, hva', hpa']
  exact h.mapLoop n hpt haligned hva he hclean (by omega)

/-- The caller after `n` pages from `v` on are unmapped. -/
def Caller.unmapRange (c : Caller) (pt : Nat) (doFree : Bool) : Nat → Nat → Caller
  | 0, _ => c
  | n + 1, v => (c.unmap pt v doFree).unmapRange pt doFree n (v + 1)

/-- Every page that the passes give back is the caller's at that time. -/
def Caller.MayUnmapRange (c : Caller) (pt : Nat) (doFree : Bool) : Nat → Nat → Prop
  | 0, _ => True
  | n + 1, v => c.MayUnmap pt v doFree ∧ (c.unmap pt v doFree).MayUnmapRange pt doFree n (v + 1)

theorem unmap_roots (doFree : Bool) : (c.unmap pt v doFree).roots = c.roots := by
  unfold Caller.unmap
  split <;> rfl

theorem drop_held {x : Nat} : x ∈ (c.drop p).held ↔ x ∈ c.held ∧ x ≠ p := by
  rw [Caller.drop, List.mem_filter, decide_eq_true_eq]

/-- What one pass of `unmap_pages` gives back was held. -/
theorem Lost.unmap {x : Nat} {doFree : Bool} {e : Leaf} {ly' : Layout} (h : Lost c ly x)
    (he : c.maps pt v = some e) (hmay : c.MayUnmap pt v doFree)
    (hfree : ly'.free = if doFree = true then e.pa :: ly.free else ly.free) :
    Lost (c.unmap pt v doFree) ly' x := by
  obtain ⟨hnot, hheld, hroot⟩ := h
  cases doFree with
  | false =>
      rw [if_neg Bool.noConfusion] at hfree
      exact ⟨hfree ▸ hnot, hheld, hroot⟩
  | true =>
      rw [if_pos rfl] at hfree
      have hunmap : c.unmap pt v true = (c.drop e.pa).set pt v none := by
        simp only [Caller.unmap, he]
      rw [hunmap]
      refine ⟨?_, fun hin => hheld (drop_held.1 hin).1, hroot⟩
      rw [hfree, List.mem_cons, not_or]
      exact ⟨fun heq => hheld (heq ▸ hmay rfl e he), hnot⟩

/-- The passes of `unmap_pages` from the `i`-th one on. -/
theorem Laid.unmapPasses {doFree : Bool} (n : Nat) {i : Nat} (h : Laid s c ly)
    (hpt : pt ∈ c.roots) (hva : va + (i + n) * pageSize ≤ 549755813888)
    (hmay : c.MayUnmapRange pt doFree n (va / pageSize + i)) :
    (∃ s', Prog.forCount (fun i => Trae.unmapPage pt (u64 (va + i * pageSize)) doFree) n i s =
        (.err .notMapped, s')) ∨
      ∃ s' ly', Prog.forCount (fun i => Trae.unmapPage pt (u64 (va + i * pageSize)) doFree) n i s =
          (.ok (), s') ∧
        Laid s' (c.unmapRange pt doFree n (va / pageSize + i)) ly' ∧
        (∀ x, Lost c ly x → Lost (c.unmapRange pt doFree n (va / pageSize + i)) ly' x) ∧
        (n ≠ 0 → c.maps pt (va / pageSize + i) ≠ none) := by
  induction n generalizing s c ly i with
  | zero => exact Or.inr ⟨s, ly, rfl, h, fun x hx => hx, fun hn => absurd rfl hn⟩
  | succ n ih =>
      obtain ⟨hfirst, hrest⟩ := hmay
      have hlow : va + i * pageSize < 549755813888 := by
        rw [pageSize] at *
        omega
      have hsame : u64 (va + i * pageSize) = va + i * pageSize := u64_of_lt (by omega)
      have hpage : (va + i * pageSize) / pageSize = va / pageSize + i :=
        Nat.add_mul_div_right va i (by decide)
      rw [← hpage] at hfirst
      have hpass := h.unmapPage hpt hlow hfirst
      rw [hpage] at hpass hfirst
      rcases hpass with ⟨-, hrun⟩ | ⟨e, s₁, ly₁, he, hrun, h₁, hfree⟩
      · refine Or.inl ⟨s, Prog.forCount_err _ ?_ n⟩
        rw [hsame]
        exact hrun
      · have hpt₁ : pt ∈ (c.unmap pt (va / pageSize + i) doFree).roots := by
          rw [unmap_roots]
          exact hpt
        have hva₁ : va + (i + 1 + n) * pageSize ≤ 549755813888 := by
          rw [Nat.add_assoc, Nat.add_comm 1 n]
          exact hva
        have hbody : Trae.unmapPage pt (u64 (va + i * pageSize)) doFree s = (.ok (), s₁) := by
          rw [hsame]
          exact hrun
        rcases ih h₁ hpt₁ hva₁ hrest with ⟨s', hrun'⟩ | ⟨s', ly', hrun', h', hlost, -⟩
        · exact Or.inl ⟨s', Prog.forCount_ok _ hbody hrun'⟩
        · exact Or.inr ⟨s', ly', Prog.forCount_ok _ hbody hrun', h',
            fun x hx => hlost x (hx.unmap he hfirst hfree),
            fun _ hnone => Option.some_ne_none e (he.symm.trans hnone)⟩

/-- `unmap_pages`. -/
theorem Laid.unmapPages {doFree : Bool} {n : Nat} (h : Laid s c ly) (hpt : pt ∈ c.roots)
    (hva : va + n * pageSize ≤ 549755813888)
    (hmay : c.MayUnmapRange pt doFree n (va / pageSize)) :
    (∃ s', Trae.unmapPages pt va n doFree s = (.err .notMapped, s')) ∨
      ∃ s' ly', Trae.unmapPages pt va n doFree s = (.ok (), s') ∧
        Laid s' (c.unmapRange pt doFree n (va / pageSize)) ly' ∧
        (∀ x, Lost c ly x → Lost (c.unmapRange pt doFree n (va / pageSize)) ly' x) ∧
        (n ≠ 0 → c.maps pt (va / pageSize) ≠ none) := by
  have hva₀ : va + (0 + n) * pageSize ≤ 549755813888 := by
    rw [Nat.zero_add]
    exact hva
  exact h.unmapPasses n hpt hva₀ hmay

end Loops

end Trae

end OsAgentLab
