/-
Creating a name and looking it up again.
-/
import OsAgentLab.Fat32.DirShape
import OsAgentLab.Fat32.Blank

namespace OsAgentLab

/-- `hit` is the one entry that `after` has more than `before`. -/
def Inserted (before after : List DirHit) (hit : DirHit) : Prop :=
  ∃ pre post, before = pre ++ post ∧ after = pre ++ hit :: post

/-- Every spelling of `name` finds the entry `hit` of the directory at `c`, as
long as the volume of the kernel `k` stays as it is. -/
structure FoundUnder (k : Kernel) (c : Nat) (hit : DirHit) (name : CName) : Prop where
  find : ∀ name', nameEqNocase name' name = true →
    fat32FindEntry c name' k.vol = (.ok hit, k.vol)
  lookup : ∀ (later : Kernel) dir name', later.vol = k.vol →
    (later.fatNode dir).cluster = c → nameEqNocase name' name = true →
    fat32LookupOp dir name' later = fat32OpenHit dir c hit hit.name later

/-- Between the kernels `k` and `k'` one entry has been added to the directory
at `c`; its decoded name is `name`, and it is found under that name. -/
def ReadsBack (k k' : Kernel) (c : Nat) (name : CName) : Prop :=
  ∀ l l', k.vol.Chain c l → k'.vol.Chain c l' →
    ∃ hit, Inserted (k.vol.listing l) (k'.vol.listing l') hit ∧ hit.name = name ∧
      FoundUnder k' c hit name

section Insertion

/-- The inserted entry is determined by the two listings. -/
theorem Inserted.unique {v : Vol} {l : List Nat} {before : List DirHit} {a b : DirHit}
    (ha : Inserted before (v.listing l) a) (hb : Inserted before (v.listing l) b) : a = b := by
  obtain ⟨pre, post, hbefore, hafter⟩ := ha
  obtain ⟨pre', post', hbefore', hafter'⟩ := hb
  have hmem : a ∈ v.listing l := by
    rw [hafter]
    simp
  have hnot : a ∉ before := by
    have hpair : (v.listing l).Pairwise fun a b => a.entryIndex < b.entryIndex :=
      hitsFrom_index.2
    rw [hafter] at hpair
    rw [hbefore]
    intro hin
    obtain ⟨_, hright, hcross⟩ := List.pairwise_append.mp hpair
    rcases List.mem_append.mp hin with hin | hin
    · exact Nat.lt_irrefl _ (hcross a hin a List.mem_cons_self)
    · exact Nat.lt_irrefl _ ((List.pairwise_cons.mp hright).1 a hin)
  rw [hafter'] at hmem
  rw [hbefore'] at hnot
  rcases List.mem_append.mp hmem with hmem | hmem
  · exact absurd (List.mem_append_left _ hmem) hnot
  · rcases List.mem_cons.mp hmem with heq | hmem
    · exact heq
    · exact absurd (List.mem_append_right _ hmem) hnot

/-- An inserted entry is the only one with its name if no entry had it before. -/
theorem Inserted.find_eq {before after : List DirHit} {hit : DirHit} {name name' : CName}
    (h : Inserted before after hit)
    (hnew : before.find? (fun hit => nameEqNocase hit.name name) = none)
    (hname : nameEqNocase hit.name name = true) (hname' : nameEqNocase name' name = true) :
    after.find? (fun hit => nameEqNocase hit.name name') = some hit := by
  obtain ⟨pre, post, rfl, rfl⟩ := h
  have hnone := List.find?_eq_none.mp hnew
  rw [List.find?_append]
  have hpre : pre.find? (fun hit => nameEqNocase hit.name name') = none := by
    rw [List.find?_eq_none]
    intro other hother
    rw [nameEqNocase_congr_right hname']
    exact hnone other (List.mem_append_left post hother)
  rw [hpre, Option.none_or, List.find?_cons, nameEqNocase_congr_right hname', hname]

end Insertion

section Decode

variable {v v' v₁ v₂ : Vol} {c : Nat} {l ext : List Nat} {name : CName} {attr : UInt8}
  {short : List UInt8} {needsLfn : Bool} {left free right : List RawDirent} {own : List Nat}
  {added : AddedEntry} {ords : List RawDirent → Prop}

/-- The name that a new entry decodes to. -/
theorem EntryAdded.newHit_name (hitems : Items ords left) (hname : NameOk name)
    (hchoice : ShortChoice v l name short needsLfn) (v' : Vol) (m : List Nat) (attr : UInt8)
    (added : AddedEntry) :
    (EntryAdded.newHit v' m name attr short needsLfn left added).name =
      if StoredShort v l name ∧ TrailingDot name then name.dropLast else name := by
  have hraw : (mkDirent short (entryAttr attr) added.cluster 0).name = short :=
    mkDirent_name hchoice.ok.length _ _ _
  simp only [EntryAdded.newHit, hitAt]
  cases hneeds : needsLfn with
  | true =>
      have hnot : ¬ (StoredShort v l name ∧ TrailingDot name) := by
        intro h
        rw [hchoice.stored h.1] at hneeds
        cases hneeds
      rw [if_neg hnot, LfnState.afterAll_append]
      have hrun := entryName_lfnRun hname.longName (LfnState.init.afterAll left)
        (mkDirent short (entryAttr attr) added.cluster 0)
      rw [hraw] at hrun
      exact hrun
  | false =>
      obtain ⟨hstored, hshort⟩ := hchoice.plain hneeds
      have hrun : lfnRun name (lfnCountOf name false) (fat32LfnChecksum short) = [] := rfl
      rw [hrun, List.append_nil,
        LfnState.entryName_inert (hitems.inert LfnState.init_inert), hraw, hshort,
        shortToName_plain hstored.2.1]
      by_cases hdot : TrailingDot name
      · rw [if_pos hdot, if_pos ⟨hstored, hdot⟩]
      · rw [if_neg hdot, if_neg fun h => hdot h.2]

theorem dropLast_ne {name : CName} (h : name ≠ []) : name.dropLast ≠ name := by
  intro heq
  have hlen := congrArg List.length heq
  have hpos := List.length_pos_iff.mpr h
  rw [List.length_dropLast] at hlen
  omega

end Decode

/-- In a directory in order, a name that `fat32_create_entry` adds is read back
and found again exactly if it is not stored under its plain 8.3 name with a
trailing dot. -/
theorem createEntry_readsBack_iff {k k' : Kernel} {dir c : Nat} {l : List Nat} {name : CName}
    {attr : UInt8} {out : Bool} {r : Option Nat} (g : Geometry k.vol)
    (hdir : (k.fatNode dir).cluster = c) (h : k.vol.Chain c l)
    (hshape : DirShape (fun _ => True) (k.vol.raws l)) (hname : NameOk name)
    (hattr : CreateAttr attr) (hnew : k.find l name = none)
    (hrun : fat32CreateEntry dir name attr out k = (.ok r, k')) :
    ReadsBack k k' c name ↔ ¬ (StoredShort k.vol l name ∧ TrailingDot name) := by
  rcases fat32CreateEntry_absent g hdir h hname hnew attr out with
    ⟨_, _, _, _, herr⟩ | ⟨short, needsLfn, ext, left, free, right, own, added, v₁, v₂, v', _, hchoice, _, _, hspec,
      hopen⟩
  · rw [herr] at hrun
    cases (Prod.mk.inj hrun).1
  obtain ⟨_, _, hlen, _⟩ := hname.unfold
  have hvol : k'.vol = v' := by
    rw [hopen] at hrun
    have := openAdded_vol dir c name added (v'.place (l ++ ext) added.index) out (k.withVol v')
    rw [hrun] at this
    exact this
  obtain ⟨hitems, _⟩ := hspec.items h hshape
  obtain ⟨pre, post, hold, hlist, _⟩ := hspec.listing h hshape.cleanTail hlen hattr hchoice.ok
  generalize hhit : EntryAdded.newHit v' (l ++ ext) name attr short needsLfn left added = hit
    at hlist
  have hdecoded := EntryAdded.newHit_name hitems hname hchoice v' (l ++ ext) attr added
  rw [hhit] at hdecoded
  have hshape' : SameShape k.vol v' :=
    hspec.grown.shape.trans (hspec.prepared.shape.trans hspec.written.shape)
  have g' := hshape'.geometry g
  have hchain' : v'.Chain c (l ++ ext) := hspec.written.chain (hspec.prepared.chain_frame
    (hspec.grown.holds.chain_of_ne_zero (IsChain.head_node h).ne_zero))
  have hinserted : Inserted (k.vol.listing l) (v'.listing (l ++ ext)) hit :=
    ⟨pre, post, hold, hlist⟩
  constructor
  · intro hback hdot
    rw [if_pos hdot] at hdecoded
    obtain ⟨other, hother, hothername, _⟩ := hback l (l ++ ext) h (hvol ▸ hchain')
    rw [hvol] at hother
    have heq := hother.unique hinserted
    subst heq
    rw [hothername] at hdecoded
    exact dropLast_ne hname.unfold.1 hdecoded.symm
  · intro hnot
    rw [if_neg hnot] at hdecoded
    intro m m' hm hm'
    have hml := g.chain_unique hm h
    subst hml
    rw [hvol] at hm' ⊢
    have hml' := g'.chain_unique hm' hchain'
    subst hml'
    have hfind : ∀ name', nameEqNocase name' name = true →
        (v'.listing (m ++ ext)).find? (fun hit => nameEqNocase hit.name name') = some hit :=
      fun name' hname' => hinserted.find_eq hnew (by rw [hdecoded, nameEqNocase_refl]) hname'
    refine ⟨hit, hinserted, hdecoded, ?_, ?_⟩
    · intro name' hname'
      rw [hvol, fat32FindEntry_eq g' hchain', hfind name' hname']
    · intro later dir' name' hlater hdir' hname'
      rw [hvol] at hlater
      subst hlater
      rw [fat32LookupOp_eq g' hdir' hchain', Kernel.find, hfind name' hname']

section Sample

/-- The table of an empty volume: the root directory has one cluster. -/
def emptyTable (c : Nat) : Nat := if c ≤ 2 then fat32Eoc else 0

/-- A kernel with an empty volume of eight clusters. -/
def emptyKernel : Kernel := rootKernel (blankVol 1 1 8 emptyTable)

theorem emptyKernel_geometry : Geometry emptyKernel.vol :=
  blankVol_geometry (by decide) (by decide) (by decide) (by decide)

theorem emptyKernel_root : emptyKernel.vol.Chain 2 [2] :=
  blankVol_chain (by decide) (by decide) (by decide) (by decide) (by decide) (by decide)

theorem emptyKernel_listing : emptyKernel.vol.listing [2] = [] := blankVol_listing [2]

/-- `readme.txt` -/
def readmeName : CName := [114, 101, 97, 100, 109, 101, 46, 116, 120, 116]

/-- `FOO.` -/
def fooDotName : CName := [70, 79, 79, 46]

/-- What a create in the root of the empty volume leaves behind. -/
theorem emptyKernel_create (name : CName) (hname : NameOk name)
    (hrun : (fat32CreateEntry 0 name 0 true emptyKernel).1 = .ok (some 1)) :
    fat32CreateEntry 0 name 0 true emptyKernel =
      (.ok (some 1), (fat32CreateEntry 0 name 0 true emptyKernel).2) ∧
    NameOk name ∧ emptyKernel.find [2] name = none :=
  ⟨Prod.ext hrun rfl, hname, by rw [Kernel.find, emptyKernel_listing]; rfl⟩

/-- `readme.txt` in the root of an empty volume. -/
theorem createEntry_readsBack_readme :
    ReadsBack emptyKernel (fat32CreateEntry 0 readmeName 0 true emptyKernel).2 2 readmeName ↔
      ¬ (StoredShort emptyKernel.vol [2] readmeName ∧ TrailingDot readmeName) := by
  obtain ⟨hrun, hname, hnew⟩ := emptyKernel_create readmeName (by decide) (by decide +kernel)
  exact createEntry_readsBack_iff emptyKernel_geometry rfl emptyKernel_root
    (.ends (blankVol_raws [2])) hname (Or.inl rfl) hnew hrun

/-- `FOO.` is created in the root of an empty volume and not found afterwards. -/
theorem createEntry_loses_trailing_dot :
    ¬ ∀ (k k' : Kernel) (dir c : Nat) (l : List Nat) (name : CName) (attr : UInt8) (out : Bool)
        (r : Option Nat), Geometry k.vol → (k.fatNode dir).cluster = c → k.vol.Chain c l →
        DirShape (fun _ => True) (k.vol.raws l) → NameOk name → CreateAttr attr →
        k.find l name = none → fat32CreateEntry dir name attr out k = (.ok r, k') →
        ReadsBack k k' c name := by
  intro hall
  obtain ⟨hrun, hname, hnew⟩ := emptyKernel_create fooDotName (by decide) (by decide +kernel)
  have hback := hall _ _ 0 2 [2] fooDotName 0 true _ emptyKernel_geometry rfl emptyKernel_root
    (.ends (blankVol_raws [2])) hname (Or.inl rfl) hnew hrun
  have hmissing : (fat32FindEntry 2 fooDotName
      (fat32CreateEntry 0 fooDotName 0 true emptyKernel).2.vol).1.IsErr := by decide +kernel
  obtain ⟨l', hchain'⟩ : ∃ l',
      (fat32CreateEntry 0 fooDotName 0 true emptyKernel).2.vol.Chain 2 l' := by
    refine ⟨[2], .last (by decide +kernel) ?_⟩
    decide +kernel
  obtain ⟨hit, _, _, hfound⟩ := hback [2] l' emptyKernel_root hchain'
  rw [hfound.find fooDotName (nameEqNocase_refl _)] at hmissing
  exact hmissing

end Sample

end OsAgentLab
