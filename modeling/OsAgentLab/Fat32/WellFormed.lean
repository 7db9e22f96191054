/-
Well-formed volumes: the tree of directories below the root, the owners of
cluster chains, and the invariant that no cluster has two owners.
-/
import OsAgentLab.Ownership
import OsAgentLab.Fat32.ListingSpec

namespace OsAgentLab

/-- The entry of a directory for itself or for its parent. -/
def DirHit.isDot (hit : DirHit) : Bool :=
  isDotName hit.name &&
    (hit.raw.name == padTo 11 dotName || hit.raw.name == padTo 11 dotDotName)

/-- What owns a cluster chain: the root directory, or an entry, named by the
first cluster of its directory and the index of its slot. -/
inductive Owner where
  | root
  | entry (dir index : Nat)
deriving DecidableEq, Repr

namespace Vol

/-- The directories that can be reached from the root through entries other
than dot entries, each with its owner. -/
inductive DirAt (v : Vol) : Owner → Nat → Prop
  | root : DirAt v .root v.fs.rootCluster
  | sub {o : Owner} {d : Nat} {l : List Nat} {hit : DirHit} : DirAt v o d → v.Chain d l →
      hit ∈ v.listing l → hit.isDot = false → hit.raw.isDir = true →
      DirAt v (.entry d hit.entryIndex) hit.raw.cluster

/-- `d` is the first cluster of a directory. -/
def IsDir (v : Vol) (d : Nat) : Prop := ∃ o, v.DirAt o d

/-- The directory at `d` lists the entry `hit`. -/
def Lists (v : Vol) (d : Nat) (hit : DirHit) : Prop :=
  v.IsDir d ∧ ∃ l, v.Chain d l ∧ hit ∈ v.listing l

/-- The first cluster of the chain of an owner. -/
inductive HeadAt (v : Vol) : Owner → Nat → Prop
  | root : HeadAt v .root v.fs.rootCluster
  | entry {d : Nat} {hit : DirHit} : v.Lists d hit → hit.isDot = false →
      hit.raw.cluster ≠ 0 → HeadAt v (.entry d hit.entryIndex) hit.raw.cluster

/-- The clusters of an owner. -/
def Owns (v : Vol) (o : Owner) (x : Nat) : Prop :=
  ∃ c l, v.HeadAt o c ∧ v.Chain c l ∧ x ∈ l

end Vol

/-- A well-formed volume. -/
structure WellFormed (v : Vol) : Prop where
  geometry : Geometry v
  chains : ∀ o c, v.HeadAt o c → ∃ l, v.Chain c l
  apart : Apart v.Owns
  clean : ∀ d l, v.IsDir d → v.Chain d l → CleanTail (v.raws l)
  dirClusters : ∀ d hit, v.Lists d hit → hit.raw.isDir = true → hit.raw.cluster ≠ 0

namespace WellFormed

variable {v : Vol} {o o' : Owner} {c d i : Nat} {l : List Nat} {hit : DirHit}

theorem head_of_dir (w : WellFormed v) (h : v.DirAt o d) : v.HeadAt o d := by
  cases h with
  | root => exact .root
  | sub hdir hchain hmem hdot hisDir =>
      have hlists : v.Lists _ _ := ⟨⟨_, hdir⟩, _, hchain, hmem⟩
      exact .entry hlists hdot (w.dirClusters _ _ hlists hisDir)

theorem dir_chain (w : WellFormed v) (h : v.IsDir d) : ∃ l, v.Chain d l := by
  obtain ⟨o, ho⟩ := h
  exact w.chains o d (w.head_of_dir ho)

theorem owns_head (w : WellFormed v) (h : v.HeadAt o c) : v.Owns o c := by
  obtain ⟨l, hl⟩ := w.chains o c h
  exact ⟨c, l, h, hl, IsChain.head_mem hl⟩

/-- A directory has one owner. -/
theorem dir_owner (w : WellFormed v) (h : v.DirAt o d) (h' : v.DirAt o' d) : o = o' :=
  w.apart (w.owns_head (w.head_of_dir h)) (w.owns_head (w.head_of_dir h'))

/-- The slot index names an entry of a directory. -/
theorem lists_inj (w : WellFormed v) {hit' : DirHit} (h : v.Lists d hit) (h' : v.Lists d hit')
    (hidx : hit.entryIndex = hit'.entryIndex) : hit = hit' := by
  obtain ⟨_, l, hl, hmem⟩ := h
  obtain ⟨_, l', hl', hmem'⟩ := h'
  obtain rfl := w.geometry.chain_unique hl hl'
  exact v.listing_index_inj l hmem hmem' hidx

/-- An owner has one chain. -/
theorem head_unique (w : WellFormed v) {c' : Nat} (h : v.HeadAt o c) (h' : v.HeadAt o c') :
    c = c' := by
  cases h with
  | root =>
      cases h'
      rfl
  | entry hlists _ _ =>
      generalize hidx : Owner.entry _ _ = o at h'
      cases h' with
      | root => cases hidx
      | entry hlists' _ _ =>
          obtain ⟨rfl, hsame⟩ := Owner.entry.inj hidx
          rw [w.lists_inj hlists hlists' hsame]

/-- No directory is an entry of itself. -/
theorem dir_ne_self (w : WellFormed v) (h : v.DirAt o d) (i : Nat) : o ≠ .entry d i := by
  induction h generalizing i with
  | root => simp
  | @sub o d l hit hdir hchain hmem hdot hisDir ih =>
      intro heq
      obtain ⟨hself, _⟩ := Owner.entry.inj heq
      have hsub : v.DirAt (.entry d hit.entryIndex) hit.raw.cluster :=
        .sub hdir hchain hmem hdot hisDir
      rw [← hself] at hsub
      exact ih _ (w.dir_owner hdir hsub)

theorem owns_chain (w : WellFormed v) (h : v.HeadAt o c) (hl : v.Chain c l) {x : Nat} :
    v.Owns o x ↔ x ∈ l := by
  constructor
  · rintro ⟨c', l', h', hl', hx⟩
    obtain rfl := w.head_unique h h'
    rwa [w.geometry.chain_unique hl hl']
  · exact fun hx => ⟨c, l, h, hl, hx⟩

theorem owns_not_free {x : Nat} (h : v.Owns o x) : ¬ v.Free x := by
  obtain ⟨_, _, _, hl, hx⟩ := h
  exact Geometry.chain_not_free hl hx

/-- The clusters of a listed entry. -/
theorem entry_holds (w : WellFormed v) (h : v.Lists d hit) (hdot : hit.isDot = false) :
    ∃ m, v.Holds hit.raw.cluster m ∧ ∀ x, x ∈ m ↔ v.Owns (.entry d hit.entryIndex) x := by
  by_cases hzero : hit.raw.cluster = 0
  · refine ⟨[], hzero ▸ Vol.Holds.empty v, fun x => ⟨fun hx => (by cases hx), ?_⟩⟩
    rintro ⟨c, l, hhead, _, _⟩
    generalize hidx : Owner.entry _ _ = o at hhead
    cases hhead with
    | root => cases hidx
    | entry hlists' _ hne =>
        obtain ⟨rfl, hsame⟩ := Owner.entry.inj hidx
        rw [w.lists_inj h hlists' hsame] at hzero
        exact absurd hzero hne
  · have hhead := Vol.HeadAt.entry h hdot hzero
    obtain ⟨l, hl⟩ := w.chains _ _ hhead
    exact ⟨l, .of_chain hl, fun x => (w.owns_chain hhead hl).symm⟩

end WellFormed

end OsAgentLab
