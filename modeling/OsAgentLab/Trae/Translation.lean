/-
The tables of a run as finite maps: what a walk finds is the latest mapping, as long as no page
with an old entry becomes a table.
-/
import OsAgentLab.Trae.Runs

namespace OsAgentLab

namespace Trae

/-- What `walk` without `alloc` finds: the physical page and the low bits of a valid entry. -/
def translation (pt va : Nat) (s : Ram) : Option (Nat × Nat) :=
  match (walk pt va false s).1 with
  | .ok pte =>
      if pte ≠ 0 ∧ s.mem pte &&& pteV ≠ 0 then
        some (ppnPa (ptePpn (s.mem pte)), s.mem pte &&& 1023)
      else none
  | _ => none

/-- What a mapping asks for. -/
def Leaf.meaning (e : Leaf) : Nat × Nat := (e.pa, e.perm ||| pteV)

/-- The pages that a call maps or unmaps. -/
def Call.Changes : Call → Nat → Nat → Prop
  | .map pt va _ n _, r, v => r = pt ∧ va / pageSize ≤ v ∧ v < va / pageSize + n
  | .unmap pt va n _, r, v => r = pt ∧ va / pageSize ≤ v ∧ v < va / pageSize + n
  | _, _, _ => False

variable {s : Ram} {c : Caller} {ly : Layout} {x₀ x y : World} {call : Call} {calls : List Call}
  {pages : List Nat} {pt r va u v : Nat}

theorem Laid.translation (h : Laid s c ly) (hpt : pt ∈ c.roots) (hva : va < 549755813888) :
    translation pt va s = (c.maps pt (va / pageSize)).map Leaf.meaning := by
  rw [Trae.translation]
  rcases h.walk_read hpt hva with ⟨hrun, hnone⟩ | ⟨p, e, hrun, hlow, he, hword⟩
  · rw [hrun, hnone]
    rfl
  · have hp := (h.page _ p hlow).pos h.start
    have hvalid := (h.shape.maps pt hpt _ e he).2.1
    have hpte : p + 8 * (va / pageSize % 512) ≠ 0 ∧
        s.mem (p + 8 * (va / pageSize % 512)) &&& pteV ≠ 0 := by
      rw [hword]
      exact ⟨by omega, hvalid.entry_valid⟩
    rw [hrun, he, Option.map_some]
    dsimp only
    rw [if_pos hpte, hword, hvalid.entry_page, hvalid.entry_perm, Leaf.meaning]

section Frames

theorem mapRange_of_ne {pa perm : Nat} (n : Nat) (h : r = pt → u < v ∨ v + n ≤ u) :
    (c.mapRange pt v pa perm n).maps r u = c.maps r u := by
  induction n generalizing c v pa with
  | zero => rfl
  | succ n ih =>
      rw [Caller.mapRange, ih fun heq => by have hout := h heq; omega]
      exact set_maps_of_ne _ fun heq => by have hout := h heq; omega

theorem unmap_of_ne {doFree : Bool} (h : r = pt → u ≠ v) :
    (c.unmap pt v doFree).maps r u = c.maps r u := by
  unfold Caller.unmap
  split
  · exact set_maps_of_ne _ h
  · exact set_maps_of_ne _ h

theorem unmapRange_of_ne {doFree : Bool} (n : Nat) (h : r = pt → u < v ∨ v + n ≤ u) :
    (c.unmapRange pt doFree n v).maps r u = c.maps r u := by
  induction n generalizing c v with
  | zero => rfl
  | succ n ih =>
      rw [Caller.unmapRange, ih fun heq => by have hout := h heq; omega]
      exact unmap_of_ne fun heq => by have hout := h heq; omega

/-- A call changes the mappings of the pages that it maps or unmaps, and of a table that it
creates or destroys. -/
theorem step_maps (h : Laid x.ram x.caller ly) (hstep : Step x call y) (hx : r ∈ x.caller.roots)
    (hy : r ∈ y.caller.roots) (hnot : ¬call.Changes r v) :
    y.caller.maps r v = x.caller.maps r v := by
  obtain ⟨-, q, hrun, hafter⟩ := hstep
  obtain ⟨s', c'⟩ := y
  obtain rfl : c' = x.caller.after q call := hafter
  cases call with
  | kalloc =>
      rw [Caller.after]
      split <;> rfl
  | kfree p => rfl
  | create =>
      -- the page of the new table was free, so no table that was there before has it
      have hne : r ≠ q := by
        rintro rfl
        rw [Call.run, pagetableCreate] at hrun
        cases hfree : ly.free with
        | nil =>
            rw [Prog.bind_ok (kalloc_nil h hfree), if_pos rfl] at hrun
            cases hrun
        | cons t l =>
            rw [Prog.bind_ok (kalloc_cons h hfree),
              if_neg ((h.head_page hfree).pos h.start)] at hrun
            cases hrun
            have hhead : Has x.caller ly .free r := by
              rw [Has, hfree]
              exact List.mem_cons_self
            have hroot : Has x.caller ly (.root r) r := ⟨hx, rfl⟩
            exact Part.noConfusion (h.apart hhead hroot)
      exact congrFun (Function.update_of_ne hne _ _) v
  | map pt va pa n perm =>
      refine mapRange_of_ne n fun heq => ?_
      rw [Call.Changes] at hnot
      omega
  | unmap pt va n doFree =>
      refine unmapRange_of_ne n fun heq => ?_
      rw [Call.Changes] at hnot
      omega
  | destroy pt =>
      have hne : r ≠ pt := of_decide_eq_true (List.mem_filter.1 hy).2
      exact congrFun (Function.update_of_ne hne _ _) v
  | store a w => rfl

end Frames

/-- In every state of a run that takes clean pages for tables, a walk finds the latest mapping of
a page, or nothing when it is unmapped; and a call changes the pages it maps or unmaps only. -/
theorem tables_are_maps (hx : Initial x₀ pages)
    (hrun : Run (fun s call => call.Clean s) x₀ calls x) :
    (∀ pt ∈ x.caller.roots, ∀ va, va < 549755813888 →
      translation pt va x.ram = (x.caller.maps pt (va / pageSize)).map Leaf.meaning) ∧
    ∀ call y, call.Clean x.ram → Step x call y →
      ∀ pt, pt ∈ x.caller.roots → pt ∈ y.caller.roots → ∀ va, va < 549755813888 →
        ¬call.Changes pt (va / pageSize) → translation pt va y.ram = translation pt va x.ram := by
  obtain ⟨ly, h, -⟩ := hrun.laid hx.laid
  refine ⟨fun pt hpt va hva => h.translation hpt hva,
    fun call y hclean hstep pt hpt hpt' va hva hnot => ?_⟩
  obtain ⟨ly', h', -⟩ := step_laid h hstep hclean
  rw [h'.translation hpt' hva, h.translation hpt hva, step_maps h hstep hpt hpt' hnot]

section Example

/-- One free page, all zero. -/
def onePage : World where
  ram := { mem := fun _ => 0, freelist := 0x80400000, allocStart := 0x80400000,
           allocEnd := 0x80401000 }
  caller := { held := [], roots := [], maps := fun _ _ => none }

theorem onePage_initial : Initial onePage [0x80400000] where
  held := rfl
  roots := rfl
  maps _ _ := rfl
  start := by decide
  stop := by decide
  chain := ⟨rfl, rfl⟩
  nodup := by decide
  page p hp := by
    rw [List.mem_singleton.1 hp]
    exact ⟨by decide, by decide, by decide⟩

/-- The state after a call that returns `r`. -/
def World.next (x : World) (call : Call) (r : Nat) : World :=
  ⟨(call.run x.ram).2, x.caller.after r call⟩

/-- The page as an empty table. -/
theorem onePage_created :
    Run (fun s call => call.Clean s) onePage [.create] (onePage.next .create 0x80400000) :=
  .cons (fun _ _ _ => Nat.zero_and _) ⟨trivial, 0x80400000, rfl, rfl⟩ (.nil _)

theorem tables_are_maps_onePage :
    (∀ pt ∈ (onePage.next .create 0x80400000).caller.roots, ∀ va, va < 549755813888 →
      translation pt va (onePage.next .create 0x80400000).ram =
        ((onePage.next .create 0x80400000).caller.maps pt (va / pageSize)).map Leaf.meaning) ∧
    ∀ call y, call.Clean (onePage.next .create 0x80400000).ram →
      Step (onePage.next .create 0x80400000) call y →
      ∀ pt, pt ∈ (onePage.next .create 0x80400000).caller.roots → pt ∈ y.caller.roots →
        ∀ va, va < 549755813888 → ¬call.Changes pt (va / pageSize) →
          translation pt va y.ram = translation pt va (onePage.next .create 0x80400000).ram :=
  tables_are_maps onePage_initial onePage_created

/-- The page with an entry that leads to itself, freed again, and then the root of a table. -/
def staleCalls : List Call :=
  [.kalloc, .store 0x80400008 (tableEntry 0x80400000), .kfree 0x80400000, .create]

def heldWorld : World := onePage.next .kalloc 0x80400000

def writtenWorld : World := heldWorld.next (.store 0x80400008 (tableEntry 0x80400000)) 0

def freedWorld : World := writtenWorld.next (.kfree 0x80400000) 0

def staleWorld : World := freedWorld.next .create 0x80400000

theorem staleWorld_run : Run (fun _ _ => True) onePage staleCalls staleWorld := by
  have hheld : Step onePage .kalloc heldWorld := ⟨trivial, 0x80400000, rfl, rfl⟩
  have hwritten : Step heldWorld (.store 0x80400008 (tableEntry 0x80400000)) writtenWorld :=
    ⟨Or.inl ⟨0x80400000, by decide, 1, by decide, by decide⟩, 0, rfl, rfl⟩
  have hfreed : Step writtenWorld (.kfree 0x80400000) freedWorld :=
    ⟨List.mem_cons_self, 0, rfl, rfl⟩
  have hstale : Step freedWorld .create staleWorld := ⟨trivial, 0x80400000, rfl, rfl⟩
  exact .cons trivial hheld (.cons trivial hwritten (.cons trivial hfreed
    (.cons trivial hstale (.nil _))))

/-- A walk through the old entry finds a mapping that nobody made. -/
theorem tables_not_maps :
    ¬∀ x₀ pages calls x, Initial x₀ pages → Run (fun _ _ => True) x₀ calls x →
      ∀ pt ∈ x.caller.roots, ∀ va, va < 549755813888 →
        translation pt va x.ram = (x.caller.maps pt (va / pageSize)).map Leaf.meaning := by
  intro hall
  have hmap := hall _ _ _ _ onePage_initial staleWorld_run 0x80400000 (by decide) 0x40201000
    (by decide)
  have hwalk : translation 0x80400000 0x40201000 staleWorld.ram = some (0x80400000, 1) := by
    decide
  rw [hwalk] at hmap
  cases hmap

end Example

end Trae

end OsAgentLab
