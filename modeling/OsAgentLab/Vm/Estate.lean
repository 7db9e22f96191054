/-
All tenants of physical memory together: whom each page serves, and what a change of one
trapframe or of one page table leaves to the others.
-/
import Mathlib.Logic.Equiv.Basic
import OsAgentLab.Vm.CopySpec
import OsAgentLab.Vm.CreateSpec

namespace OsAgentLab

universe u

/-- The roles in which a tenant holds a page: as its trapframe, or as a part of its address
space. -/
inductive Role (κ : Type u) where
  | frame (k : κ)
  | part (k : κ) (q : Part)

/-- The trapframes of the tenants with the bytes in them, and their page tables with the
address spaces in them. -/
structure Tenants (κ : Type u) where
  frame : κ → Option (Nat × (Nat → UInt8))
  space : κ → Option (Nat × Space)

variable {κ : Type u}

namespace Tenants

/-- The page at `p` serves in the role `r`. -/
def Has (t : Tenants κ) : Role κ → Nat → Prop
  | .frame k, p => ∃ b, t.frame k = some (p, b)
  | .part k q, p => ∃ pt sp, t.space k = some (pt, sp) ∧ sp.Has pt q p

/-- The pages that are free or serve a tenant. -/
def Page (t : Tenants κ) (l : List Nat) (p : Nat) : Prop := p ∈ l ∨ ∃ r, t.Has r p

variable [DecidableEq κ]

/-- Another trapframe for the tenant `k`. -/
def withFrame (t : Tenants κ) (k : κ) (v : Option (Nat × (Nat → UInt8))) : Tenants κ :=
  { t with frame := Function.update t.frame k v }

/-- Another address space for the tenant `k`. -/
def withSpace (t : Tenants κ) (k : κ) (v : Option (Nat × Space)) : Tenants κ :=
  { t with space := Function.update t.space k v }

variable {t : Tenants κ} {k j : κ} {p : Nat} {q : Part}

@[simp] theorem withFrame_space (v : Option (Nat × (Nat → UInt8))) :
    (t.withFrame k v).space = t.space := rfl

@[simp] theorem withSpace_frame (v : Option (Nat × Space)) :
    (t.withSpace k v).frame = t.frame := rfl

@[simp] theorem withFrame_self (v : Option (Nat × (Nat → UInt8))) :
    (t.withFrame k v).frame k = v :=
  Function.update_self ..

@[simp] theorem withSpace_self (v : Option (Nat × Space)) : (t.withSpace k v).space k = v :=
  Function.update_self ..

theorem withFrame_of_ne (h : j ≠ k) (v : Option (Nat × (Nat → UInt8))) :
    (t.withFrame k v).frame j = t.frame j :=
  Function.update_of_ne h ..

theorem withSpace_of_ne (h : j ≠ k) (v : Option (Nat × Space)) :
    (t.withSpace k v).space j = t.space j :=
  Function.update_of_ne h ..

end Tenants

/-- Every page is free or serves one tenant in one role, trapframes and page tables hold what
they should, and the bytes in `own` lie in none of these pages. -/
structure Estate (kt : Nat) (own : Nat → Prop) (s : Mm) (t : Tenants κ) (l : List Nat) :
    Prop where
  free : FreePages s l
  isPage : ∀ r p, t.Has r p → IsPage p
  saved : ∀ k p b, t.frame k = some (p, b) → ∀ i, i < 4096 → s.mem (p + i) = b i
  wf : ∀ k pt sp, t.space k = some (pt, sp) → sp.WellFormed pt
  space : ∀ k pt sp, t.space k = some (pt, sp) → sp.At pt kt s.mem
  apart : Apart t.Has
  notFree : ∀ r p, t.Has r p → p ∉ l
  kept : ∀ p, t.Page l p → ∀ x, InPage p x → ¬ own x

/-- From one state of memory to another: no page gets lost or is taken from elsewhere, and
the bytes elsewhere stay. -/
structure EstateStep (kt : Nat) (own : Nat → Prop) (s : Mm) (t : Tenants κ) (l : List Nat)
    (s' : Mm) (t' : Tenants κ) (l' : List Nat) : Prop where
  estate : Estate kt own s' t' l'
  pages : ∀ p, t'.Page l' p ↔ t.Page l p
  frame : ∀ x, (∀ p, t.Page l p → ¬ InPage p x) → s'.mem x = s.mem x

variable {kt pt p : Nat} {own : Nat → Prop} {s s' s'' : Mm} {t t' t'' : Tenants κ}
  {l l' l'' : List Nat} {sp sp' : Space} {k : κ}

section Steps

theorem Estate.isPage_of_page (h : Estate kt own s t l) (hp : t.Page l p) : IsPage p := by
  rcases hp with hp | ⟨r, hp⟩
  · exact h.free.page p hp
  · exact h.isPage r p hp

theorem EstateStep.refl (h : Estate kt own s t l) : EstateStep kt own s t l s t l :=
  ⟨h, fun _ => Iff.rfl, fun _ _ => rfl⟩

theorem EstateStep.trans (h : EstateStep kt own s t l s' t' l')
    (h' : EstateStep kt own s' t' l' s'' t'' l'') : EstateStep kt own s t l s'' t'' l'' where
  estate := h'.estate
  pages p := (h'.pages p).trans (h.pages p)
  frame x hx := by
    rw [h'.frame x fun p hp => hx p ((h.pages p).mp hp)]
    exact h.frame x hx

/-- The kernel's own bytes stay. -/
theorem EstateStep.kept (h : EstateStep kt own s t l s' t' l') (hs : Estate kt own s t l) {x : Nat}
    (hx : own x) : s'.mem x = s.mem x :=
  h.frame x fun p hp hin => hs.kept p hp x hin hx

/-- The address space of a tenant, beside the free list. -/
theorem Estate.held (h : Estate kt own s t l) (hk : t.space k = some (pt, sp)) :
    Held kt s pt sp l where
  free := h.free
  space := h.space k pt sp hk
  wf := h.wf k pt sp hk
  apart q p hp := h.notFree (.part k q) p ⟨pt, sp, hk, hp⟩

/-- What a change leaves alone.  The roles in `mine` and the free pages make up a zone; the
change moves pages inside the zone only, and writes to them only. -/
theorem Estate.rezone (h : Estate kt own s t l) (mine : Role κ → Prop) (z : Nat → Prop)
    (hzone : ∀ p, z p ↔ p ∈ l ∨ ∃ r, mine r ∧ t.Has r p)
    (hzone' : ∀ p, z p ↔ p ∈ l' ∨ ∃ r, mine r ∧ t'.Has r p)
    (hothers : ∀ r p, ¬ mine r → (t'.Has r p ↔ t.Has r p))
    (hapart : ∀ r r' x, mine r → mine r' → t'.Has r x → t'.Has r' x → r = r')
    (hfree : FreePages s' l') (hnotFree : ∀ r p, mine r → t'.Has r p → p ∉ l')
    (hsaved : ∀ k p b, t'.frame k = some (p, b) →
      t.frame k = some (p, b) ∧ ¬ mine (.frame k) ∨ ∀ i, i < 4096 → s'.mem (p + i) = b i)
    (hspace : ∀ k pt sp, t'.space k = some (pt, sp) →
      t.space k = some (pt, sp) ∧ (∀ q, ¬ mine (.part k q)) ∨
        sp.WellFormed pt ∧ sp.At pt kt s'.mem)
    (hframe : ∀ x, (∀ p, z p → ¬ InPage p x) → s'.mem x = s.mem x) :
    EstateStep kt own s t l s' t' l' := by
  have hpage : ∀ p, z p → IsPage p := by
    intro p hp
    rcases (hzone p).mp hp with hp | ⟨r, _, hp⟩
    · exact h.free.page p hp
    · exact h.isPage r p hp
  -- nobody else has a page of the zone
  have hout : ∀ r p, ¬ mine r → t'.Has r p → ¬ z p := by
    intro r p hr hp hz
    have hp' := (hothers r p hr).mp hp
    rcases (hzone p).mp hz with hin | ⟨r', hr', hin⟩
    · exact h.notFree r p hp' hin
    · exact hr (h.apart hp' hin ▸ hr')
  have hpages : ∀ p, t'.Page l' p ↔ t.Page l p := by
    intro p
    constructor
    · rintro (hp | ⟨r, hp⟩)
      · rcases (hzone p).mp ((hzone' p).mpr (Or.inl hp)) with hin | ⟨r, _, hin⟩
        · exact Or.inl hin
        · exact Or.inr ⟨r, hin⟩
      · by_cases hr : mine r
        · rcases (hzone p).mp ((hzone' p).mpr (Or.inr ⟨r, hr, hp⟩)) with hin | ⟨r', _, hin⟩
          · exact Or.inl hin
          · exact Or.inr ⟨r', hin⟩
        · exact Or.inr ⟨r, (hothers r p hr).mp hp⟩
    · rintro (hp | ⟨r, hp⟩)
      · rcases (hzone' p).mp ((hzone p).mpr (Or.inl hp)) with hin | ⟨r, _, hin⟩
        · exact Or.inl hin
        · exact Or.inr ⟨r, hin⟩
      · by_cases hr : mine r
        · rcases (hzone' p).mp ((hzone p).mpr (Or.inr ⟨r, hr, hp⟩)) with hin | ⟨r', _, hin⟩
          · exact Or.inl hin
          · exact Or.inr ⟨r', hin⟩
        · exact Or.inr ⟨r, (hothers r p hr).mpr hp⟩
  refine ⟨⟨hfree, ?_, ?_, ?_, ?_, ?_, ?_, ?_⟩, hpages, fun x hx => hframe x fun p hp => hx p ?_⟩
  · intro r p hp
    by_cases hr : mine r
    · exact hpage p ((hzone' p).mpr (Or.inr ⟨r, hr, hp⟩))
    · exact h.isPage r p ((hothers r p hr).mp hp)
  · intro k p b hk
    rcases hsaved k p b hk with ⟨hk', hmine⟩ | hbytes
    · intro i hi
      rw [hframe _ fun y hy => ?_]
      · exact h.saved k p b hk' i hi
      · have hne : y ≠ p := by
          rintro rfl
          exact hout _ _ hmine ⟨b, hk⟩ hy
        exact (hpage y hy).not_inPage (h.isPage (.frame k) p ⟨b, hk'⟩) hne
          ⟨Nat.le_add_right _ _, Nat.add_lt_add_left hi _⟩
    · exact hbytes
  · intro k pt sp hk
    rcases hspace k pt sp hk with ⟨hk', _⟩ | ⟨hwf, _⟩
    · exact h.wf k pt sp hk'
    · exact hwf
  · intro k pt sp hk
    rcases hspace k pt sp hk with ⟨hk', hmine⟩ | ⟨_, hat⟩
    · refine (h.space k pt sp hk').frame fun q p hp x hx => hframe x fun y hy => ?_
      have hne : y ≠ p := by
        rintro rfl
        exact hout _ _ (hmine q) ⟨pt, sp, hk, hp⟩ hy
      exact (hpage y hy).not_inPage ((h.wf k pt sp hk').isPage q p hp) hne hx
    · exact hat
  · intro a b x ha hb
    by_cases hma : mine a
    · by_cases hmb : mine b
      · exact hapart a b x hma hmb ha hb
      · exact absurd ((hzone' x).mpr (Or.inr ⟨a, hma, ha⟩)) (hout b x hmb hb)
    · by_cases hmb : mine b
      · exact absurd ((hzone' x).mpr (Or.inr ⟨b, hmb, hb⟩)) (hout a x hma ha)
      · exact h.apart ((hothers a x hma).mp ha) ((hothers b x hmb).mp hb)
  · intro r p hp hin
    by_cases hr : mine r
    · exact hnotFree r p hr hp hin
    · exact hout r p hr hp ((hzone' p).mpr (Or.inl hin))
  · exact fun p hp => h.kept p ((hpages p).mp hp)
  · rcases (hzone p).mp hp with hin | ⟨r, _, hin⟩
    · exact Or.inl hin
    · exact Or.inr ⟨r, hin⟩

/-- A trapframe is neither free nor a part of an address space. -/
theorem Estate.frame_apart {j : κ} {b : Nat → UInt8} (h : Estate kt own s t l)
    (hj : t.frame j = some (p, b)) (hk : t.space k = some (pt, sp)) {q : Nat} (hq : LocalPage pt sp l q) {x : Nat}
    (hx : InPage p x) : ¬ InPage q x := by
  have hp : t.Has (.frame j) p := ⟨b, hj⟩
  have hne : q ≠ p := by
    rintro rfl
    rcases hq with hfree | ⟨role, hq⟩
    · exact h.notFree _ _ hp hfree
    · have hroles := h.apart (a := .frame j) (b := .part k role) hp ⟨pt, sp, hk, hq⟩
      cases hroles
  exact ((h.held hk).isPage hq).not_inPage (h.isPage _ p hp) hne hx

/-- Registers other than the head of the free list are of no matter. -/
theorem Estate.registers (h : Estate kt own s t l) (hmem : s'.mem = s.mem)
    (hhead : s'.freelist = s.freelist) : EstateStep kt own s t l s' t l where
  estate := ⟨h.free.frame hhead fun _ _ _ _ => congrFun hmem _, h.isPage, hmem ▸ h.saved, h.wf,
    hmem ▸ h.space, h.apart, h.notFree, h.kept⟩
  pages _ := Iff.rfl
  frame x _ := congrFun hmem x

end Steps

section Changes

variable [DecidableEq κ]

/-- The roles of one address space. -/
def IsPart (k : κ) (r : Role κ) : Prop := ∃ q, r = .part k q

omit [DecidableEq κ] in
theorem not_isPart_frame {j : κ} : ¬ IsPart k (.frame j) := by
  rintro ⟨q, heq⟩
  cases heq

theorem Tenants.has_withSpace {r : Role κ} {v : Option (Nat × Space)} (hr : ¬ IsPart k r) :
    (t.withSpace k v).Has r p ↔ t.Has r p := by
  cases r with
  | frame j => exact Iff.rfl
  | part j q =>
      have hj : j ≠ k := fun heq => hr ⟨q, heq ▸ rfl⟩
      rw [Tenants.Has, Tenants.Has, Tenants.withSpace_of_ne hj]

omit [DecidableEq κ] in
theorem Tenants.exists_part (hk : t.space k = some (pt, sp)) :
    (∃ r, IsPart k r ∧ t.Has r p) ↔ ∃ q, sp.Has pt q p := by
  constructor
  · rintro ⟨_, ⟨q, rfl⟩, pt', sp', hk', hp⟩
    obtain ⟨rfl, rfl⟩ := Prod.mk.inj (Option.some.inj (hk'.symm.trans hk))
    exact ⟨q, hp⟩
  · rintro ⟨q, hp⟩
    exact ⟨.part k q, ⟨q, rfl⟩, pt, sp, hk, hp⟩

omit [DecidableEq κ] in
theorem Tenants.no_part (hk : t.space k = none) : ¬ ∃ r, IsPart k r ∧ t.Has r p := by
  rintro ⟨_, ⟨q, rfl⟩, pt, sp, hk', _⟩
  rw [hk] at hk'
  cases hk'

/-- An address space that takes the place of what the tenant had. -/
theorem Estate.putSpace (h : Estate kt own s t l) {z : Nat → Prop}
    (hzone : ∀ p, z p ↔ p ∈ l ∨ ∃ r, IsPart k r ∧ t.Has r p) (hheld : Held kt s' pt sp' l')
    (hpages : ∀ p, z p ↔ LocalPage pt sp' l' p)
    (hframe : ∀ x, (∀ p, z p → ¬ InPage p x) → s'.mem x = s.mem x) :
    EstateStep kt own s t l s' (t.withSpace k (some (pt, sp'))) l' := by
  have hself : (t.withSpace k (some (pt, sp'))).space k = some (pt, sp') := t.withSpace_self _
  refine h.rezone (IsPart k) z hzone (fun p => ?_) (fun r p hr => Tenants.has_withSpace hr) ?_
    hheld.free ?_ (fun _ _ _ hj => Or.inl ⟨hj, not_isPart_frame⟩) ?_ hframe
  · rw [hpages, Tenants.exists_part hself]
    exact Iff.rfl
  · rintro _ _ x ⟨q, rfl⟩ ⟨q', rfl⟩ ⟨pt₁, sp₁, hk₁, hx₁⟩ ⟨pt₂, sp₂, hk₂, hx₂⟩
    obtain ⟨rfl, rfl⟩ := Prod.mk.inj (Option.some.inj (hk₁.symm.trans hself))
    obtain ⟨rfl, rfl⟩ := Prod.mk.inj (Option.some.inj (hk₂.symm.trans hself))
    rw [hheld.wf.apart hx₁ hx₂]
  · rintro _ p ⟨q, rfl⟩ ⟨pt₁, sp₁, hk₁, hp⟩
    obtain ⟨rfl, rfl⟩ := Prod.mk.inj (Option.some.inj (hk₁.symm.trans hself))
    exact hheld.apart q p hp
  · intro j pt₁ sp₁ hj
    by_cases hjk : j = k
    · subst hjk
      obtain ⟨rfl, rfl⟩ := Prod.mk.inj (Option.some.inj (hj.symm.trans hself))
      exact Or.inr ⟨hheld.wf, hheld.space⟩
    · rw [Tenants.withSpace_of_ne hjk] at hj
      refine Or.inl ⟨hj, ?_⟩
      rintro q ⟨q', heq⟩
      cases heq
      exact hjk rfl

/-- A change of the address space of one tenant. -/
theorem Estate.alter (h : Estate kt own s t l) (hk : t.space k = some (pt, sp))
    (hstep : SpaceStep kt s pt sp l s' sp' l') :
    EstateStep kt own s t l s' (t.withSpace k (some (pt, sp'))) l' :=
  h.putSpace (z := LocalPage pt sp l)
    (fun p => by rw [Tenants.exists_part hk]; exact Iff.rfl) hstep.held
    (fun p => (hstep.pages p).symm) hstep.frame

/-- `uvm_create` for a tenant that has no address space. -/
theorem Estate.create {low : Nat} (h : Estate kt own s t (pt :: low :: l))
    (hk : t.space k = none) (hsatp : SatpRoot kt s (pt :: low :: l)) :
    ∃ s', uvmCreate s = (.ok (some pt), s') ∧ s'.satp = s.satp ∧
      EstateStep kt own s t (pt :: low :: l) s'
        (t.withSpace k (some (pt, Space.empty low))) l ∧
      ∀ x, ¬ InPage pt x → ¬ InPage low x → s'.mem x = s.mem x := by
  obtain ⟨s', hrun, hheld, hpages, hframe, hsatp'⟩ := uvmCreate_spec h.free hsatp
  refine ⟨s', hrun, hsatp', ?_, hframe⟩
  refine h.putSpace (z := fun p => p ∈ pt :: low :: l) (fun p => ?_) hheld
    (fun p => (hpages p).symm) fun x hx => hframe x (hx pt (by simp)) (hx low (by simp))
  rw [or_iff_left (Tenants.no_part hk)]

/-- `uvm_free` of the address space of a tenant. -/
theorem Estate.vacate (h : Estate kt own s t l) (hk : t.space k = some (pt, sp))
    (hkt : IsPage kt) :
    ∃ s' l', uvmFree pt s = (.ok (), s') ∧ s'.satp = s.satp ∧
      EstateStep kt own s t l s' (t.withSpace k none) l' ∧
      (∀ p, p ∈ l' ↔ LocalPage pt sp l p) ∧
      ∀ x, (∀ p, LocalPage pt sp l p → ¬ InPage p x) → s'.mem x = s.mem x := by
  obtain ⟨s', l', hrun, hfree, hmem, hframe, hsatp⟩ := uvmFree_spec (h.held hk) hkt
  have hnone : (t.withSpace k none).space k = none := t.withSpace_self _
  refine ⟨s', l', hrun, hsatp, ?_, hmem, hframe⟩
  refine h.rezone (IsPart k) (LocalPage pt sp l) (fun p => ?_) (fun p => ?_)
    (fun r p hr => Tenants.has_withSpace hr) ?_ hfree ?_
    (fun _ _ _ hj => Or.inl ⟨hj, not_isPart_frame⟩) ?_ hframe
  · rw [Tenants.exists_part hk]
    exact Iff.rfl
  · rw [or_iff_left (Tenants.no_part hnone), hmem]
  · exact fun r _ x hr _ hx _ => absurd ⟨r, hr, hx⟩ (Tenants.no_part hnone)
  · exact fun r p hr hp _ => Tenants.no_part hnone ⟨r, hr, hp⟩
  · intro j pt₁ sp₁ hj
    have hjk : j ≠ k := by
      rintro rfl
      rw [hnone] at hj
      cases hj
    rw [Tenants.withSpace_of_ne hjk] at hj
    refine Or.inl ⟨hj, ?_⟩
    rintro q ⟨q', heq⟩
    cases heq
    exact hjk rfl

omit [DecidableEq κ] in
/-- A change inside of the free pages. -/
theorem Estate.inFree (h : Estate kt own s t l) (hfree : FreePages s' l')
    (hmem : ∀ p, p ∈ l' ↔ p ∈ l) (hframe : ∀ x, (∀ p, p ∈ l → ¬ InPage p x) → s'.mem x = s.mem x) :
    EstateStep kt own s t l s' t l' :=
  h.rezone (fun _ => False) (fun p => p ∈ l) (fun p => by simp) (fun p => by simp [hmem])
    (fun _ _ _ => Iff.rfl) (fun _ _ _ hr => hr.elim) hfree (fun _ _ hr => hr.elim)
    (fun _ _ _ hk => Or.inl ⟨hk, id⟩)
    (fun _ _ _ hk => Or.inl ⟨hk, fun _ => id⟩) hframe

theorem Tenants.has_withFrame {r : Role κ} {v : Option (Nat × (Nat → UInt8))} (hr : r ≠ .frame k) :
    (t.withFrame k v).Has r p ↔ t.Has r p := by
  cases r with
  | frame j =>
      have hj : j ≠ k := fun heq => hr (heq ▸ rfl)
      rw [Tenants.Has, Tenants.Has, Tenants.withFrame_of_ne hj]
  | part j q => exact Iff.rfl

omit [DecidableEq κ] in
theorem Tenants.exists_frame :
    (∃ r, r = .frame k ∧ t.Has r p) ↔ ∃ b, t.frame k = some (p, b) := by
  constructor
  · rintro ⟨_, rfl, hp⟩
    exact hp
  · exact fun hp => ⟨_, rfl, hp⟩

/-- What the trapframe of one tenant has to do with the rest. -/
theorem Estate.putFrame (h : Estate kt own s t l) {v : Option (Nat × (Nat → UInt8))}
    {z : Nat → Prop} (hzone : ∀ p, z p ↔ p ∈ l ∨ ∃ b, t.frame k = some (p, b))
    (hzone' : ∀ p, z p ↔ p ∈ l' ∨ ∃ b, v = some (p, b)) (hfree : FreePages s' l')
    (hnotFree : ∀ p b, v = some (p, b) → p ∉ l' ∧ ∀ i, i < 4096 → s'.mem (p + i) = b i)
    (hframe : ∀ x, (∀ p, z p → ¬ InPage p x) → s'.mem x = s.mem x) :
    EstateStep kt own s t l s' (t.withFrame k v) l' := by
  refine h.rezone (fun r => r = .frame k) z (fun p => ?_) (fun p => ?_)
    (fun r p hr => Tenants.has_withFrame hr) ?_ hfree ?_ ?_ ?_ hframe
  · rw [hzone, Tenants.exists_frame]
  · rw [hzone', Tenants.exists_frame, Tenants.withFrame_self]
  · rintro _ _ x rfl rfl _ _
    rfl
  · rintro _ p rfl ⟨b, hp⟩
    rw [Tenants.withFrame_self] at hp
    exact (hnotFree p b hp).1
  · intro j p b hj
    by_cases hjk : j = k
    · subst hjk
      rw [Tenants.withFrame_self] at hj
      exact Or.inr (hnotFree p b hj).2
    · rw [Tenants.withFrame_of_ne hjk] at hj
      refine Or.inl ⟨hj, fun heq => hjk ?_⟩
      cases heq
      rfl
  · intro j pt₁ sp₁ hj
    refine Or.inl ⟨hj, fun q heq => ?_⟩
    cases heq

/-- `kalloc` of a trapframe. -/
theorem Estate.takeFrame (h : Estate kt own s t (p :: l)) (hk : t.frame k = none) :
    ∃ s', kalloc s = (.ok (some p), s') ∧ s'.satp = s.satp ∧
      EstateStep kt own s t (p :: l) s' (t.withFrame k (some (p, fun _ => 0))) l := by
  obtain ⟨s', hrun, hfree, hmem, hsatp⟩ := kalloc_cons h.free
  refine ⟨s', hrun, hsatp, ?_⟩
  refine h.putFrame (z := fun x => x ∈ p :: l) (fun x => ?_) (fun x => ?_) hfree ?_ fun x hx => ?_
  · rw [hk, or_iff_left (by simp)]
  · rw [List.mem_cons, or_comm]
    refine or_congr Iff.rfl ⟨fun hx => ⟨_, by rw [hx]⟩, ?_⟩
    rintro ⟨b, heq⟩
    exact (Prod.mk.inj (Option.some.inj heq)).1.symm
  · rintro _ _ heq
    obtain ⟨rfl, rfl⟩ := Prod.mk.inj (Option.some.inj heq)
    refine ⟨(List.nodup_cons.mp h.free.nodup).1, fun i hi => ?_⟩
    rw [hmem, putPage_of_mem ⟨Nat.le_add_right _ _, Nat.add_lt_add_left hi _⟩]
  · rw [hmem]
    exact putPage_of_not_mem (hx p List.mem_cons_self)

variable {b : Nat → UInt8}

/-- `kfree` of a trapframe. -/
theorem Estate.dropFrame (h : Estate kt own s t l) (hk : t.frame k = some (p, b)) :
    ∃ s', kfree p s = (.ok (), s') ∧ s'.satp = s.satp ∧
      EstateStep kt own s t l s' (t.withFrame k none) (p :: l) ∧
      ∀ x, ¬ InPage p x → s'.mem x = s.mem x := by
  have hp : t.Has (.frame k) p := ⟨b, hk⟩
  obtain ⟨s', hrun, hfree, hframe, hsatp⟩ := kfree_spec h.free (h.isPage _ p hp) (h.notFree _ p hp)
  refine ⟨s', hrun, hsatp, ?_, hframe⟩
  refine h.putFrame (z := fun x => x ∈ l ∨ x = p) (fun x => ?_) (fun x => ?_) hfree
    (fun _ _ heq => by cases heq) fun x hx => hframe x (hx p (Or.inr rfl))
  · refine or_congr Iff.rfl ⟨fun hx => ⟨b, hx ▸ hk⟩, ?_⟩
    rintro ⟨b', heq⟩
    exact (Prod.mk.inj (Option.some.inj (hk.symm.trans heq))).1.symm
  · rw [List.mem_cons, or_comm, or_iff_left (a := x = p ∨ x ∈ l)]
    rintro ⟨b', heq⟩
    cases heq

/-- Writes into a trapframe. -/
theorem Estate.writeFrame (h : Estate kt own s t l) (hk : t.frame k = some (p, b))
    (hhead : s'.freelist = s.freelist) (hframe : ∀ x, ¬ InPage p x → s'.mem x = s.mem x) :
    EstateStep kt own s t l s' (t.withFrame k (some (p, fun i => s'.mem (p + i)))) l := by
  have hp : t.Has (.frame k) p := ⟨b, hk⟩
  have hpage := h.isPage _ p hp
  refine h.putFrame (z := fun x => x ∈ l ∨ x = p) (fun x => or_congr Iff.rfl ⟨?_, ?_⟩)
    (fun x => or_congr Iff.rfl ⟨?_, ?_⟩) ?_ ?_ fun x hx => hframe x (hx p (Or.inr rfl))
  · exact fun hx => ⟨b, hx ▸ hk⟩
  · rintro ⟨b', heq⟩
    exact (Prod.mk.inj (Option.some.inj (hk.symm.trans heq))).1.symm
  · exact fun hx => ⟨_, by rw [hx]⟩
  · rintro ⟨b', heq⟩
    exact (Prod.mk.inj (Option.some.inj heq)).1.symm
  · refine h.free.frame hhead fun q hq x hx => hframe x ?_
    have hne : p ≠ q := by
      rintro rfl
      exact h.notFree _ p hp hq
    exact hpage.not_inPage (h.free.page q hq) hne hx
  · rintro _ _ heq
    obtain ⟨rfl, rfl⟩ := Prod.mk.inj (Option.some.inj heq)
    exact ⟨h.notFree _ _ hp, fun _ _ => rfl⟩

end Changes

section Shifts

/-- From one state of memory to another, where pages may get lost. -/
structure EstateShift (kt : Nat) (own : Nat → Prop) (s : Mm) (t : Tenants κ) (l : List Nat)
    (s' : Mm) (t' : Tenants κ) (l' : List Nat) : Prop where
  estate : Estate kt own s' t' l'
  sub : ∀ p, t'.Page l' p → t.Page l p
  frame : ∀ x, (∀ p, t.Page l p → ¬ InPage p x) → s'.mem x = s.mem x

theorem EstateStep.shift (h : EstateStep kt own s t l s' t' l') :
    EstateShift kt own s t l s' t' l' :=
  ⟨h.estate, fun p => (h.pages p).mp, h.frame⟩

theorem EstateShift.refl (h : Estate kt own s t l) : EstateShift kt own s t l s t l :=
  (EstateStep.refl h).shift

theorem EstateShift.trans (h : EstateShift kt own s t l s' t' l')
    (h' : EstateShift kt own s' t' l' s'' t'' l'') : EstateShift kt own s t l s'' t'' l'' where
  estate := h'.estate
  sub p hp := h.sub p (h'.sub p hp)
  frame x hx := by
    rw [h'.frame x fun p hp => hx p (h.sub p hp)]
    exact h.frame x hx

theorem EstateShift.kept (h : EstateShift kt own s t l s' t' l') (hs : Estate kt own s t l)
    {x : Nat} (hx : own x) : s'.mem x = s.mem x :=
  h.frame x fun p hp hin => hs.kept p hp x hin hx

/-- An address space that nobody remembers. -/
theorem Estate.forget [DecidableEq κ] (h : Estate kt own s t l) (k : κ) :
    EstateShift kt own s t l s (t.withSpace k none) l := by
  have hhas : ∀ r p, (t.withSpace k none).Has r p → t.Has r p := by
    intro r p hp
    by_cases hr : IsPart k r
    · exact absurd ⟨r, hr, hp⟩ (Tenants.no_part (t.withSpace_self none))
    · exact (Tenants.has_withSpace hr).mp hp
  have hspace : ∀ j pt sp, (t.withSpace k none).space j = some (pt, sp) →
      t.space j = some (pt, sp) := by
    intro j pt sp hj
    by_cases hjk : j = k
    · subst hjk
      rw [Tenants.withSpace_self] at hj
      cases hj
    · rwa [Tenants.withSpace_of_ne hjk] at hj
  have hpage : ∀ p, (t.withSpace k none).Page l p → t.Page l p := by
    rintro p (hp | ⟨r, hp⟩)
    · exact Or.inl hp
    · exact Or.inr ⟨r, hhas r p hp⟩
  exact ⟨⟨h.free, fun r p hp => h.isPage r p (hhas r p hp), h.saved,
    fun j pt sp hj => h.wf j pt sp (hspace j pt sp hj),
    fun j pt sp hj => h.space j pt sp (hspace j pt sp hj), h.apart.mono fun r p => hhas r p,
    fun r p hp => h.notFree r p (hhas r p hp), fun p hp => h.kept p (hpage p hp)⟩, hpage,
    fun _ _ => rfl⟩

/-- Pages that drop out of the free list. -/
theorem Estate.loseFree (h : Estate kt own s t l) (hfree : FreePages s' l')
    (hsub : ∀ p, p ∈ l' → p ∈ l)
    (hframe : ∀ x, (∀ p, p ∈ l → ¬ InPage p x) → s'.mem x = s.mem x) :
    EstateShift kt own s t l s' t l' := by
  have hpage : ∀ p, t.Page l' p → t.Page l p := by
    rintro p (hp | hp)
    · exact Or.inl (hsub p hp)
    · exact Or.inr hp
  have hkeep : ∀ r p, t.Has r p → ∀ x, InPage p x → s'.mem x = s.mem x := by
    intro r p hp x hx
    refine hframe x fun y hy => ?_
    have hne : y ≠ p := by
      rintro rfl
      exact h.notFree _ _ hp hy
    exact (h.free.page y hy).not_inPage (h.isPage _ p hp) hne hx
  refine ⟨⟨hfree, h.isPage, fun k p b hk i hi => ?_, h.wf, fun k pt sp hk => ?_, h.apart,
    fun r p hp hin => h.notFree r p hp (hsub p hin), fun p hp => h.kept p (hpage p hp)⟩, hpage,
    fun x hx => hframe x fun p hp => hx p (Or.inl hp)⟩
  · rw [hkeep (.frame k) p ⟨b, hk⟩ _ ⟨Nat.le_add_right _ _, Nat.add_lt_add_left hi _⟩]
    exact h.saved k p b hk i hi
  · exact (h.space k pt sp hk).frame fun q p hp x hx => hkeep (.part k q) p ⟨pt, sp, hk, hp⟩ x hx

end Shifts

section Renaming

/-- The roles after the address spaces changed hands. -/
def Role.permute (e : Equiv.Perm κ) : Role κ → Role κ
  | .frame k => .frame k
  | .part k q => .part (e k) q

/-- The tenants after their address spaces changed hands. -/
def Tenants.permute (t : Tenants κ) (e : Equiv.Perm κ) : Tenants κ :=
  { t with space := fun k => t.space (e k) }

theorem Tenants.permute_space (e : Equiv.Perm κ) (i : κ) :
    (t.permute e).space i = t.space (e i) := rfl

theorem Role.permute_inj {e : Equiv.Perm κ} {a b : Role κ} (h : a.permute e = b.permute e) :
    a = b := by
  cases a with
  | frame k => cases b with
    | frame j => exact h
    | part j q => cases h
  | part k q => cases b with
    | frame j => cases h
    | part j q' =>
        obtain ⟨hk, rfl⟩ := Role.part.inj h
        rw [e.injective hk]

theorem Tenants.has_permute {e : Equiv.Perm κ} {r : Role κ} :
    (t.permute e).Has r p ↔ t.Has (r.permute e) p := by
  cases r with
  | frame k => exact Iff.rfl
  | part k q => exact Iff.rfl

theorem Tenants.page_permute {e : Equiv.Perm κ} : (t.permute e).Page l p ↔ t.Page l p := by
  constructor
  · rintro (hp | ⟨r, hp⟩)
    · exact Or.inl hp
    · exact Or.inr ⟨_, Tenants.has_permute.mp hp⟩
  · rintro (hp | ⟨r, hp⟩)
    · exact Or.inl hp
    · refine Or.inr ⟨r.permute e.symm, Tenants.has_permute.mpr ?_⟩
      cases r with
      | frame k => exact hp
      | part k q => rwa [Role.permute, Role.permute, Equiv.apply_symm_apply]

/-- Address spaces change hands. -/
theorem Estate.permute (h : Estate kt own s t l) (e : Equiv.Perm κ) :
    EstateStep kt own s t l s (t.permute e) l := by
  refine ⟨⟨h.free, fun r p hp => h.isPage _ p (Tenants.has_permute.mp hp), h.saved,
    fun k pt sp hk => h.wf (e k) pt sp hk, fun k pt sp hk => h.space (e k) pt sp hk, ?_,
    fun r p hp => h.notFree _ p (Tenants.has_permute.mp hp),
    fun p hp => h.kept p (Tenants.page_permute.mp hp)⟩, fun p => Tenants.page_permute,
    fun _ _ => rfl⟩
  intro a b x ha hb
  exact Role.permute_inj (h.apart (Tenants.has_permute.mp ha) (Tenants.has_permute.mp hb))

/-- One tenant hands its address space over to another, who has none. -/
theorem Estate.handOver [DecidableEq κ] {j : κ} {v : Option (Nat × Space)}
    (h : Estate kt own s t l) (hk : t.space k = v) (hj : t.space j = none) :
    EstateStep kt own s t l s ((t.withSpace j v).withSpace k none) l := by
  have hspace : ((t.withSpace j v).withSpace k none).space = (t.permute (Equiv.swap j k)).space := by
    funext i
    rw [Tenants.permute_space]
    by_cases hik : i = k
    · rw [hik, Tenants.withSpace_self, Equiv.swap_apply_right, hj]
    · rw [Tenants.withSpace_of_ne hik]
      by_cases hij : i = j
      · rw [hij, Tenants.withSpace_self, Equiv.swap_apply_left, hk]
      · rw [Tenants.withSpace_of_ne hij, Equiv.swap_apply_of_ne_of_ne hij hik]
  have heq : (t.withSpace j v).withSpace k none = t.permute (Equiv.swap j k) :=
    congrArg (Tenants.mk t.frame) hspace
  exact heq ▸ h.permute _

end Renaming

section Roots

/-- `satp` names a table of the kernel's own with the entries of the boot table. -/
def OwnTable (kt : Nat) (own : Nat → Prop) (s : Mm) : Prop :=
  IsPage s.satp ∧ (∀ x, InPage s.satp x → own x) ∧
    ∀ i, 0 < i → i < 512 → le64 s.mem (s.satp + 8 * i) = bootRoot kt i

/-- `satp` names the page table of a tenant, or a table of the kernel's own. -/
def Rooted (kt : Nat) (own : Nat → Prop) (s : Mm) (t : Tenants κ) : Prop :=
  (∃ k sp, t.space k = some (s.satp, sp)) ∨ OwnTable kt own s

theorem Estate.satpRoot (h : Estate kt own s t l) (hroot : Rooted kt own s t) :
    SatpRoot kt s l := by
  rcases hroot with ⟨k, sp, hk⟩ | ⟨hpage, hown, hroot⟩
  · exact ⟨(h.wf k _ sp hk).isPage .root _ rfl, (h.space k _ sp hk).root,
      h.notFree (.part k .root) _ ⟨_, sp, hk, rfl⟩⟩
  · refine ⟨hpage, hroot, fun hfree => ?_⟩
    exact h.kept _ (Or.inl hfree) _ (inPage_self _) (hown _ (inPage_self _))

/-- The kernel's own table stays. -/
theorem OwnTable.kept (h : OwnTable kt own s) (hs : Estate kt own s t l)
    (hshift : EstateShift kt own s t l s' t' l') (hsatp : s'.satp = s.satp) : OwnTable kt own s' := by
  obtain ⟨hpage, hown, htable⟩ := h
  refine ⟨hsatp ▸ hpage, hsatp ▸ hown, fun i hpos hi => ?_⟩
  rw [hsatp, le64_page_congr hi fun x hx => hshift.kept hs (hown x hx)]
  exact htable i hpos hi

/-- The table that `satp` names stays in place. -/
theorem EstateShift.rooted (h : EstateShift kt own s t l s' t' l') (hs : Estate kt own s t l)
    (hroot : Rooted kt own s t) (hsatp : s'.satp = s.satp)
    (hspace : ∀ k pt sp, t.space k = some (pt, sp) → ∃ k' sp', t'.space k' = some (pt, sp')) :
    Rooted kt own s' t' := by
  rcases hroot with ⟨k, sp, hk⟩ | htable
  · obtain ⟨k', sp', hk'⟩ := hspace k _ sp hk
    exact Or.inl ⟨k', sp', hsatp ▸ hk'⟩
  · exact Or.inr (htable.kept hs h hsatp)

/-- Two address spaces side by side. -/
theorem Estate.beside {j : κ} {ps : Nat} {src : Space} (h : Estate kt own s t l) (hjk : j ≠ k)
    (hj : t.space j = some (ps, src)) (hk : t.space k = some (pt, sp)) :
    Beside kt s ps src pt sp l where
  wf := h.wf j ps src hj
  space := h.space j ps src hj
  apart q p hp hlocal := by
    rcases hlocal with hfree | ⟨q', hp'⟩
    · exact h.notFree (.part j q) p ⟨ps, src, hj, hp⟩ hfree
    · have hroles := h.apart (a := .part j q) (b := .part k q') ⟨ps, src, hj, hp⟩
        ⟨pt, sp, hk, hp'⟩
      cases hroles
      exact hjk rfl

end Roots

end OsAgentLab
