/-
Who owns which page, and what the words of a page table hold: the state behind any calls that
took clean pages for tables.
-/
import OsAgentLab.Ownership
import OsAgentLab.Trae.PageTable
import OsAgentLab.Vm.Entries

namespace OsAgentLab

/-- An unowned cell gets an owner. -/
theorem Apart.add {κ α : Type} {owns owns' : κ → α → Prop} {b : κ} {t : α} (h : Apart owns)
    (hnone : ∀ a, ¬owns a t) (hsub : ∀ a x, owns' a x → owns a x ∨ a = b ∧ x = t) :
    Apart owns' := by
  intro a a' x ha ha'
  rcases hsub a x ha with hown | ⟨rfl, rfl⟩
  · rcases hsub a' x ha' with hown' | ⟨rfl, rfl⟩
    · exact h hown hown'
    · exact absurd hown (hnone a)
  · rcases hsub a' x ha' with hown' | ⟨rfl, -⟩
    · exact absurd hown' (hnone a')
    · rfl

namespace Trae

section Words

/-- A mapping: the physical page and the permissions. -/
structure Leaf where
  pa : Nat
  perm : Nat
deriving DecidableEq, Repr

/-- The entry of a mapping, and that of a table. -/
def Leaf.entry (e : Leaf) : Nat := ppnPte (paPpn e.pa) ||| e.perm ||| pteV
def tableEntry (t : Nat) : Nat := ppnPte (paPpn t) ||| pteV

/-- Page-aligned arguments and permission bits. -/
structure Leaf.Valid (e : Leaf) : Prop where
  aligned : e.pa % pageSize = 0
  lt : e.pa < 18446744073709551616
  perm : e.perm < 1024

/-- A valid entry, or one without `PTE_V`. -/
def HoldsEntry (mem : Nat → Nat) (a : Nat) : Option Nat → Prop
  | some w => mem a = w
  | none => mem a &&& pteV = 0

variable {t : Nat} {e : Leaf}

theorem ppnPa_entry {pa flags : Nat} (haligned : pa % 4096 = 0) (hlt : pa < 18446744073709551616)
    (hflags : flags < 1024) : ppnPa (ptePpn (pa2pte pa ||| flags)) = pa := by
  rw [pa2pte_or hlt hflags, ppnPa, ptePpn, Nat.shiftRight_eq_div_pow, Nat.shiftLeft_eq]
  have hdiv : (2 ^ 10 * (pa / 4096) + flags) / 2 ^ 10 * 2 ^ 12 = pa := by omega
  rw [hdiv, u64_of_lt hlt]

theorem tableEntry_valid (hlt : t < 18446744073709551616) : tableEntry t &&& pteV ≠ 0 := by
  have hflag : tableEntry t &&& pteV = pteV &&& pteV := pa2pte_or_and hlt (by decide)
  rw [hflag]
  decide

theorem tableEntry_small (hlt : t < 18446744073709551616) : tableEntry t &&& ptePs = 0 := by
  have hflag : tableEntry t &&& ptePs = pteV &&& ptePs := pa2pte_or_and hlt (by decide)
  rw [hflag]
  decide

theorem tableEntry_page (haligned : t % 4096 = 0) (hlt : t < 18446744073709551616) :
    ppnPa (ptePpn (tableEntry t)) = t :=
  ppnPa_entry haligned hlt (by decide)

theorem Leaf.Valid.flags (h : e.Valid) : e.perm ||| pteV < 1024 :=
  Nat.or_lt_two_pow (n := 10) h.perm (by decide)

theorem Leaf.Valid.entry_valid (h : e.Valid) : e.entry &&& pteV ≠ 0 := by
  have hflag : e.entry &&& pteV = (e.perm ||| pteV) &&& pteV := by
    rw [Leaf.entry, Nat.or_assoc]
    exact pa2pte_or_and h.lt (by decide)
  rw [hflag, Nat.and_comm, Nat.and_or_distrib_left]
  intro hzero
  exact absurd (Nat.or_eq_zero_iff.1 hzero).2 (by decide)

theorem Leaf.Valid.entry_page (h : e.Valid) : ppnPa (ptePpn e.entry) = e.pa := by
  rw [Leaf.entry, Nat.or_assoc]
  exact ppnPa_entry h.aligned h.lt h.flags

theorem Leaf.Valid.entry_perm (h : e.Valid) : e.entry &&& 1023 = e.perm ||| pteV := by
  rw [Leaf.entry, Nat.or_assoc]
  refine (@pa2pte_or_and e.pa (e.perm ||| pteV) 1023 h.lt (by decide)).trans ?_
  exact (Nat.and_two_pow_sub_one_eq_mod _ 10).trans (Nat.mod_eq_of_lt h.flags)

end Words

section Owners

/-- What the callers know: the pages they hold, the live tables, and what is mapped in them at
a virtual page number. -/
structure Caller where
  held : List Nat
  roots : List Nat
  maps : Nat → Nat → Option Leaf

/-- The free list, and the tables below a root: the second-level one at an index, and the
third-level one at two. -/
structure Layout where
  free : List Nat
  mid : Nat → Nat → Option Nat
  low : Nat → Nat → Nat → Option Nat

/-- The owners of pages. -/
inductive Part
  | free
  | held
  | root (pt : Nat)
  | mid (pt i : Nat)
  | low (pt i j : Nat)
deriving DecidableEq

/-- The pages that are read as page tables. -/
def Part.IsTable : Part → Prop
  | .free => False
  | .held => False
  | _ => True

variable (c : Caller) (ly : Layout)

/-- An owner has a page. -/
def Has : Part → Nat → Prop
  | .free, p => p ∈ ly.free
  | .held, p => p ∈ c.held
  | .root pt, p => pt ∈ c.roots ∧ p = pt
  | .mid pt i, p => pt ∈ c.roots ∧ ly.mid pt i = some p
  | .low pt i j, p => pt ∈ c.roots ∧ ly.low pt i j = some p

/-- The entry of a table at an index. -/
def entryAt : Part → Nat → Option Nat
  | .root pt, i => (ly.mid pt i).map tableEntry
  | .mid pt i, j => (ly.low pt i j).map tableEntry
  | .low pt i j, k => (c.maps pt ((i * 512 + j) * 512 + k)).map Leaf.entry
  | _, _ => none

/-- Every table hangs below another one, and every mapping below a table. -/
structure Shape : Prop where
  low : ∀ pt ∈ c.roots, ∀ i j, ly.low pt i j ≠ none → ly.mid pt i ≠ none ∧ j < 512
  maps : ∀ pt ∈ c.roots, ∀ v e, c.maps pt v = some e →
    v < 134217728 ∧ e.Valid ∧ ly.low pt (v / 262144) (v / 512 % 512) ≠ none

end Owners

section Laid

/-- From `head` on, the first words of the pages of the list lead from one to the next, and to
a null pointer behind the last one. -/
def FreeChain (mem : Nat → Nat) : Nat → List Nat → Prop
  | head, [] => head = 0
  | head, p :: l => head = p ∧ FreeChain mem (mem p) l

/-- A page that `kfree` takes. -/
structure InRange (s : Ram) (p : Nat) : Prop where
  aligned : p % pageSize = 0
  start : s.allocStart ≤ p
  stop : p < s.allocEnd

/-- No entry of a page is valid. -/
def Clean (mem : Nat → Nat) (p : Nat) : Prop := ∀ j, j < 512 → mem (p + 8 * j) &&& pteV = 0

/-- Memory holds the free list and the tables; every page has one owner at most. -/
structure Laid (s : Ram) (c : Caller) (ly : Layout) : Prop where
  start : 0 < s.allocStart
  stop : s.allocEnd ≤ 18446744073709551616
  chain : FreeChain s.mem s.freelist ly.free
  nodup : ly.free.Nodup
  page : ∀ part p, Has c ly part p → InRange s p
  apart : Apart (Has c ly)
  shape : Shape c ly
  words : ∀ part p, Has c ly part p → part.IsTable → ∀ j, j < 512 →
    HoldsEntry s.mem (p + 8 * j) (entryAt c ly part j)

variable {s : Ram} {c c' : Caller} {ly ly' : Layout} {part new : Part} {mem mem' : Nat → Nat}
  {l : List Nat} {p q t x j w head : Nat}

/-- A table part has one page. -/
theorem Has.unique (hq : Has c ly part q) (htable : part.IsTable) (hp : Has c ly part p) :
    q = p := by
  cases part with
  | free => exact htable.elim
  | held => exact htable.elim
  | root pt => exact hq.2.trans hp.2.symm
  | mid pt i => exact Option.some.inj (hq.2.symm.trans hp.2)
  | low pt i j => exact Option.some.inj (hq.2.symm.trans hp.2)

theorem FreeChain.congr (h : FreeChain mem head l) (heq : ∀ p ∈ l, mem' p = mem p) :
    FreeChain mem' head l := by
  induction l generalizing head with
  | nil => exact h
  | cons p l ih =>
      refine ⟨h.1, ?_⟩
      rw [heq p List.mem_cons_self]
      exact ih h.2 fun q hq => heq q (List.mem_cons_of_mem p hq)

/-- Words of pages are different words. -/
theorem word_inj (hp : p % pageSize = 0) (hq : q % pageSize = 0) (hx : x < 512) (hj : j < 512)
    (h : p + 8 * x = q + 8 * j) : p = q ∧ x = j := by
  rw [pageSize] at hp hq
  omega

theorem HoldsEntry.of_eq {o : Option Nat} (h : HoldsEntry mem x o) (heq : mem' x = mem x) :
    HoldsEntry mem' x o := by
  cases o with
  | none =>
      rw [HoldsEntry, heq]
      exact h
  | some w =>
      rw [HoldsEntry, heq]
      exact h

theorem InRange.lt (h : InRange s p) (hstop : s.allocEnd ≤ 18446744073709551616) :
    p < 18446744073709551616 :=
  Nat.lt_of_lt_of_le h.stop hstop

/-- A word of a table is written, and the entry there is as new as it. -/
theorem Laid.write (h : Laid s c ly) (hp : Has c ly part p) (htable : part.IsTable)
    (hx : x < 512) (hfree : ly'.free = ly.free)
    (hhas : ∀ a q, Has c' ly' a q → Has c ly a q ∨ a = new ∧ q = t)
    (hnone : ∀ a, ¬Has c ly a t) (ht : Has c' ly' new t → InRange s t ∧ Clean s.mem t)
    (hempty : ∀ j, j < 512 → Has c' ly' new t → entryAt c' ly' new j = none)
    (hsame : ∀ a q, Has c ly a q → Has c' ly' a q → ∀ j, j < 512 → (a = part → j ≠ x) →
      entryAt c' ly' a j = entryAt c ly a j)
    (hhere : HoldsEntry (Function.update s.mem (p + 8 * x) w) (p + 8 * x) (entryAt c' ly' part x))
    (hshape : Shape c' ly') :
    Laid { s with mem := Function.update s.mem (p + 8 * x) w } c' ly' := by
  have hpage := h.page part p hp
  have hother : ∀ a q, Has c ly a q → ∀ j, j < 512 → (a = part → j ≠ x) →
      Function.update s.mem (p + 8 * x) w (q + 8 * j) = s.mem (q + 8 * j) := by
    intro a q hq j hj hne
    refine Function.update_of_ne (fun heq => ?_) _ _
    obtain ⟨rfl, rfl⟩ := word_inj (h.page a q hq).aligned hpage.aligned hj hx heq
    exact hne (h.apart hq hp) rfl
  have hfreepart : Part.free ≠ part := by
    rintro rfl
    exact htable
  refine ⟨h.start, h.stop, ?_, hfree ▸ h.nodup, fun a q hq => ?_, h.apart.add hnone hhas, hshape,
    fun a q hq hatable j hj => ?_⟩
  · rw [hfree]
    refine h.chain.congr fun q hq => ?_
    exact hother .free q hq 0 (by decide) fun heq => absurd heq hfreepart
  · rcases hhas a q hq with hold | ⟨rfl, rfl⟩
    · exact ⟨(h.page a q hold).aligned, (h.page a q hold).start, (h.page a q hold).stop⟩
    · exact ⟨(ht hq).1.aligned, (ht hq).1.start, (ht hq).1.stop⟩
  · rcases hhas a q hq with hold | ⟨rfl, rfl⟩
    · by_cases hhit : a = part ∧ j = x
      · obtain ⟨rfl, rfl⟩ := hhit
        rw [hold.unique htable hp]
        exact hhere
      · have hne : a = part → j ≠ x := fun ha hj' => hhit ⟨ha, hj'⟩
        rw [hsame a q hold hq j hj hne]
        exact (h.words a q hold hatable j hj).of_eq (hother a q hold j hj hne)
    · rw [hempty j hj hq]
      have hclean := (ht hq).2 j hj
      refine HoldsEntry.of_eq (o := none) hclean (Function.update_of_ne (fun heq => ?_) _ _)
      obtain ⟨rfl, -⟩ := word_inj (ht hq).1.aligned hpage.aligned hj hx heq
      exact hnone part hp

end Laid

end Trae

end OsAgentLab
