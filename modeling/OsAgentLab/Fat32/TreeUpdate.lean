/-
Operations that change one entry of one directory: what they may do to the
clusters of a well-formed volume so that it stays well-formed.
-/
import OsAgentLab.Fat32.WellFormed

namespace OsAgentLab

/-- The entry that an operation has put into the directory `d`: its clusters
belonged to it or were free, and a directory lists nothing but dot entries. -/
structure OwnEntry (v v' : Vol) (d : Nat) (l' : List Nat) (hit : DirHit) : Prop where
  ne_zero : hit.raw.isDir = true → hit.raw.cluster ≠ 0
  holds : hit.isDot = false → ∃ m, v'.Holds hit.raw.cluster m ∧
    (∀ x ∈ m, v.Owns (.entry d hit.entryIndex) x ∨ (v.Free x ∧ x ∉ l')) ∧
    (hit.raw.isDir = true → CleanTail (v'.raws m) ∧
      ∀ sub ∈ v'.listing m, sub.isDot = true ∧ sub.raw.cluster ≠ 0)

/-- Between `v` and `v'` at most the entry `i` of the directory `d` has
changed, together with the clusters that it owns, and the clusters of `d`, which
were `l` and are `l'` now. -/
structure TreeUpdate (v v' : Vol) (d i : Nat) (l l' : List Nat) : Prop where
  dir : v.IsDir d
  chain : v.Chain d l
  shape : SameShape v v'
  chain' : v'.Chain d l'
  clean : CleanTail (v'.raws l')
  grown : ∀ x ∈ l', x ∈ l ∨ v.Free x
  next : ∀ x, ¬ v.Free x → x ∉ l → ¬ v.Owns (.entry d i) x →
    v'.store.next x = v.store.next x
  data : ∀ x, ¬ v.Free x → x ∉ l → ¬ v.Owns (.entry d i) x →
    v'.store.data x = v.store.data x
  kept : ∀ hit ∈ v'.listing l', hit.entryIndex ≠ i → hit ∈ v.listing l
  own : ∀ hit ∈ v'.listing l', hit.entryIndex = i → OwnEntry v v' d l' hit

namespace TreeUpdate

variable {v v' : Vol} {d i c : Nat} {l l' m : List Nat} {o : Owner}

theorem geometry (u : TreeUpdate v v' d i l l') (w : WellFormed v) : Geometry v' :=
  u.shape.geometry w.geometry

/-- The clusters of every other object are out of reach. -/
theorem frame (u : TreeUpdate v v' d i l l') (w : WellFormed v) (ho : o ≠ .entry d i)
    (hhead : v.HeadAt o c) (hc : c ≠ d) {x : Nat} (hx : v.Owns o x) :
    v'.store.next x = v.store.next x ∧ v'.store.data x = v.store.data x := by
  have hfree := WellFormed.owns_not_free hx
  have hl : x ∉ l := by
    intro hxl
    obtain ⟨od, hod⟩ := u.dir
    have hown : v.Owns od x := (w.owns_chain (w.head_of_dir hod) u.chain).mpr hxl
    have hsame := w.apart hx hown
    subst hsame
    exact hc (w.head_unique hhead (w.head_of_dir hod))
  have hi : ¬ v.Owns (.entry d i) x := fun h => ho (w.apart hx h)
  exact ⟨u.next x hfree hl hi, u.data x hfree hl hi⟩

theorem chain_frame (u : TreeUpdate v v' d i l l') (w : WellFormed v) (ho : o ≠ .entry d i)
    (hhead : v.HeadAt o c) (hc : c ≠ d) (hm : v.Chain c m) :
    v'.Chain c m ∧ v'.raws m = v.raws m ∧ v'.listing m = v.listing m := by
  have hown : ∀ x ∈ m, v.Owns o x := fun x hx => (w.owns_chain hhead hm).mpr hx
  exact ⟨Vol.Chain.congr u.shape hm fun x hx => (u.frame w ho hhead hc (hown x hx)).1,
    u.shape.raws fun x hx => (u.frame w ho hhead hc (hown x hx)).2,
    u.shape.listing fun x hx => (u.frame w ho hhead hc (hown x hx)).2⟩

/-- What the directory at `c` with the owner `o` is after the update: an old
directory, or the new one, which has dot entries only. -/
def DirAfter (v v' : Vol) (d i : Nat) (l' : List Nat) (o : Owner) (c : Nat) : Prop :=
  (o ≠ .entry d i ∧ v.DirAt o c) ∨
    (o = .entry d i ∧ ∃ hit ∈ v'.listing l', hit.entryIndex = i ∧ hit.isDot = false ∧
      hit.raw.isDir = true ∧ hit.raw.cluster = c)

/-- A new directory lists nothing but dot entries. -/
theorem new_dir (u : TreeUpdate v v' d i l l') (w : WellFormed v) {hit : DirHit}
    (hmem : hit ∈ v'.listing l') (hidx : hit.entryIndex = i) (hdot : hit.isDot = false)
    (hdir : hit.raw.isDir = true) {n : List Nat} (hn : v'.Chain hit.raw.cluster n) :
    CleanTail (v'.raws n) ∧ ∀ sub ∈ v'.listing n, sub.isDot = true ∧ sub.raw.cluster ≠ 0 := by
  have hown := u.own hit hmem hidx
  obtain ⟨m, hm, _, hsub⟩ := hown.holds hdot
  obtain rfl := (u.geometry w).chain_unique (hm.chain_of_ne_zero (hown.ne_zero hdir)) hn
  exact hsub hdir

theorem dirAfter (u : TreeUpdate v v' d i l l') (w : WellFormed v) (h : v'.DirAt o c) :
    DirAfter v v' d i l' o c := by
  induction h with
  | root =>
      refine Or.inl ⟨by simp, ?_⟩
      rw [u.shape.rootCluster]
      exact .root
  | @sub o c m hit _ hm hmem hdot hdir ih =>
      rcases ih with ⟨ho, hold⟩ | ⟨_, own, hown, hidx, hodot, hodir, rfl⟩
      · by_cases hc : c = d
        · subst hc
          obtain rfl := (u.geometry w).chain_unique hm u.chain'
          by_cases hidx : hit.entryIndex = i
          · exact Or.inr ⟨by rw [hidx], hit, hmem, hidx, hdot, hdir, rfl⟩
          · refine Or.inl ⟨fun heq => hidx (Owner.entry.inj heq).2, ?_⟩
            exact .sub hold u.chain (u.kept hit hmem hidx) hdot hdir
        · obtain ⟨n, hn⟩ := w.dir_chain ⟨o, hold⟩
          obtain ⟨hn', _, hlist⟩ := u.chain_frame w ho (w.head_of_dir hold) hc hn
          obtain rfl := (u.geometry w).chain_unique hm hn'
          rw [hlist] at hmem
          exact Or.inl ⟨fun heq => hc (Owner.entry.inj heq).1, .sub hold hn hmem hdot hdir⟩
      · have hsub := (u.new_dir w hown hidx hodot hodir hm).2 hit hmem
        rw [hdot] at hsub
        cases hsub.1

/-- What is listed after the update: the new entry of `d`, an old entry, or a
dot entry of the new directory. -/
theorem listsAfter (u : TreeUpdate v v' d i l l') (w : WellFormed v) {hit : DirHit}
    (h : v'.Lists c hit) :
    (c = d ∧ hit ∈ v'.listing l' ∧ hit.entryIndex = i) ∨
      (v.Lists c hit ∧ Owner.entry c hit.entryIndex ≠ .entry d i) ∨
      (hit.isDot = true ∧ hit.raw.cluster ≠ 0) := by
  obtain ⟨⟨o, hdir⟩, m, hm, hmem⟩ := h
  rcases u.dirAfter w hdir with ⟨ho, hold⟩ | ⟨_, own, hown, hidx, hodot, hodir, rfl⟩
  · by_cases hc : c = d
    · subst hc
      obtain rfl := (u.geometry w).chain_unique hm u.chain'
      by_cases hidx : hit.entryIndex = i
      · exact Or.inl ⟨rfl, hmem, hidx⟩
      · exact Or.inr (Or.inl ⟨⟨⟨o, hold⟩, l, u.chain, u.kept hit hmem hidx⟩,
          fun heq => hidx (Owner.entry.inj heq).2⟩)
    · obtain ⟨n, hn⟩ := w.dir_chain ⟨o, hold⟩
      obtain ⟨hn', _, hlist⟩ := u.chain_frame w ho (w.head_of_dir hold) hc hn
      obtain rfl := (u.geometry w).chain_unique hm hn'
      rw [hlist] at hmem
      exact Or.inr (Or.inl ⟨⟨⟨o, hold⟩, _, hn, hmem⟩, fun heq => hc (Owner.entry.inj heq).1⟩)
  · exact Or.inr (Or.inr ((u.new_dir w hown hidx hodot hodir hm).2 hit hmem))

/-- The chain of an owner after the update: the clusters of `d`, those of the
new entry, or an old chain. -/
theorem headAfter (u : TreeUpdate v v' d i l l') (w : WellFormed v) (h : v'.HeadAt o c) :
    (o ≠ .entry d i ∧ v.HeadAt o c) ∨
      (o = .entry d i ∧ ∃ hit ∈ v'.listing l', hit.entryIndex = i ∧ hit.isDot = false ∧
        hit.raw.cluster = c ∧ c ≠ 0) := by
  cases h with
  | root =>
      refine Or.inl ⟨by simp, ?_⟩
      rw [u.shape.rootCluster]
      exact .root
  | @entry c hit hlists hdot hzero =>
      rcases u.listsAfter w hlists with ⟨rfl, hmem, hidx⟩ | ⟨hold, hne⟩ | ⟨hdot', _⟩
      · exact Or.inr ⟨by rw [hidx], hit, hmem, hidx, hdot, rfl, hzero⟩
      · exact Or.inl ⟨hne, .entry hold hdot hzero⟩
      · rw [hdot] at hdot'
        cases hdot'

/-- The clusters that the update has handed out. -/
def Fresh (v : Vol) (d i : Nat) (l' : List Nat) (o : Owner) (x : Nat) : Prop :=
  v.Free x ∧ ((x ∈ l' ∧ v.DirAt o d) ∨ (x ∉ l' ∧ o = .entry d i))

theorem fresh_apart (w : WellFormed v) : Apart (Fresh v d i l') := by
  rintro a b x ⟨_, ⟨hx, ha⟩ | ⟨hx, rfl⟩⟩ ⟨_, ⟨hx', hb⟩ | ⟨hx', rfl⟩⟩
  · exact w.dir_owner ha hb
  · exact absurd hx hx'
  · exact absurd hx' hx
  · rfl

theorem chainAfter (u : TreeUpdate v v' d i l l') (w : WellFormed v) (h : v'.HeadAt o c) :
    ∃ m, v'.Chain c m ∧ ∀ x ∈ m, v.Owns o x ∨ Fresh v d i l' o x := by
  rcases u.headAfter w h with ⟨ho, hold⟩ | ⟨rfl, hit, hmem, rfl, hdot, rfl, hzero⟩
  · by_cases hc : c = d
    · subst hc
      refine ⟨l', u.chain', fun x hx => ?_⟩
      rcases u.grown x hx with hxl | hfree
      · exact Or.inl ⟨c, l, hold, u.chain, hxl⟩
      · obtain ⟨od, hod⟩ := u.dir
        have hsame := w.apart (w.owns_head hold) (w.owns_head (w.head_of_dir hod))
        subst hsame
        exact Or.inr ⟨hfree, Or.inl ⟨hx, hod⟩⟩
    · obtain ⟨m, hm⟩ := w.chains o c hold
      exact ⟨m, (u.chain_frame w ho hold hc hm).1, fun x hx => Or.inl ⟨c, m, hold, hm, hx⟩⟩
  · obtain ⟨m, hm, hsub, _⟩ := (u.own hit hmem rfl).holds hdot
    refine ⟨m, hm.chain_of_ne_zero hzero, fun x hx => ?_⟩
    rcases hsub x hx with hown | ⟨hfree, hxl⟩
    · exact Or.inl hown
    · exact Or.inr ⟨hfree, Or.inr ⟨hxl, rfl⟩⟩

/-- An update keeps the volume well-formed. -/
theorem wellFormed (u : TreeUpdate v v' d i l l') (w : WellFormed v) : WellFormed v' where
  geometry := u.geometry w
  chains o c h := by
    obtain ⟨m, hm, _⟩ := u.chainAfter w h
    exact ⟨m, hm⟩
  apart := by
    have hfresh : Apart (Fresh v d i l') := fresh_apart w
    refine w.apart.update hfresh (fun _ _ => WellFormed.owns_not_free) (fun _ _ h => h.1) ?_
    rintro o x ⟨c, m, hhead, hm, hx⟩
    obtain ⟨n, hn, hsub⟩ := u.chainAfter w hhead
    obtain rfl := (u.geometry w).chain_unique hm hn
    exact hsub x hx
  clean c m := by
    rintro ⟨o, hdir⟩ hm
    rcases u.dirAfter w hdir with ⟨ho, hold⟩ | ⟨_, own, hown, hidx, hodot, hodir, rfl⟩
    · by_cases hc : c = d
      · subst hc
        obtain rfl := (u.geometry w).chain_unique hm u.chain'
        exact u.clean
      · obtain ⟨n, hn⟩ := w.dir_chain ⟨o, hold⟩
        obtain ⟨hn', hraws, _⟩ := u.chain_frame w ho (w.head_of_dir hold) hc hn
        obtain rfl := (u.geometry w).chain_unique hm hn'
        rw [hraws]
        exact w.clean c m ⟨o, hold⟩ hn
    · exact (u.new_dir w hown hidx hodot hodir hm).1
  dirClusters c hit hlists hdir := by
    rcases u.listsAfter w hlists with ⟨rfl, hmem, hidx⟩ | ⟨hold, _⟩ | ⟨_, hzero⟩
    · exact (u.own hit hmem hidx).ne_zero hdir
    · exact w.dirClusters c hit hold hdir
    · exact hzero

end TreeUpdate

end OsAgentLab
