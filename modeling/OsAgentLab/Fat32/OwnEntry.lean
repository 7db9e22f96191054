/-
Create, mkdir and unlink change the listing of a directory by one entry.
-/
import OsAgentLab.Fat32.DirShape
import OsAgentLab.Fat32.CreateLookup

namespace OsAgentLab

/-- What a callback of `fat32_iter_dir` sees of an entry. -/
structure SeenEntry where
  name : CName
  attr : UInt8
  cluster : Nat
  size : Nat
deriving DecidableEq, Repr

def seenEntry (hit : DirHit) : SeenEntry :=
  ⟨hit.name, hit.raw.attr, hit.raw.cluster, hit.raw.fileSize⟩

/-- A callback that collects the entries. -/
def collectCb (hit : DirHit) (seen : List SeenEntry) : CbRet × List SeenEntry :=
  (.goOn, seen ++ [seenEntry hit])

/-- The sequence of entries that `fat32_iter_dir` shows to its callback. -/
def seenEntries (v : Vol) (c : Nat) : Option (List SeenEntry) :=
  (fat32IterDir v c collectCb []).map Prod.snd

theorem runHits_collect (hits : List DirHit) (seen : List SeenEntry) :
    runHits collectCb hits seen = (.goOn, seen ++ hits.map seenEntry) := by
  induction hits generalizing seen with
  | nil => simp [runHits]
  | cons hit rest ih =>
      rw [runHits, collectCb]
      simp only
      rw [ih]
      simp

theorem seenEntries_eq {v : Vol} (g : Geometry v) {c : Nat} {l : List Nat} (h : v.Chain c l) :
    seenEntries v c = some ((v.listing l).map seenEntry) := by
  rw [seenEntries, fat32IterDir_eq g h, runHits_collect]
  rfl

/-- `after` is `before` with `entry` inserted. -/
def InsertedEntry (before after : List SeenEntry) (entry : SeenEntry) : Prop :=
  ∃ pre post, before = pre ++ post ∧ after = pre ++ entry :: post

/-- A call of `fat32_create_entry` has left the directory at `c` in order, with
at most one new entry, and with one if it returned 0 for a new name. -/
structure CreateKept (k k' : Kernel) (c : Nat) (l : List Nat) (attr : UInt8) (adds : Prop) :
    Prop where
  order : ∃ l', k'.vol.Chain c l' ∧ DirShape DescendingOrds (k'.vol.raws l')
  entries : ∃ before after, seenEntries k.vol c = some before ∧
    seenEntries k'.vol c = some after ∧
    ((¬ adds ∧ after = before) ∨
      ∃ entry, entry.attr = entryAttr attr ∧ entry.size = 0 ∧ InsertedEntry before after entry)

/-- A successful unlink of the entry `hit` with the clusters `m` has left the
directory at `c` in order, without the entry, and the clusters `m` free. -/
structure UnlinkKept (k k' : Kernel) (c : Nat) (l m : List Nat) (hit : DirHit) : Prop where
  order : k'.vol.Chain c l ∧ DirShape DescendingOrds (k'.vol.raws l)
  entries : ∃ before after, seenEntries k.vol c = some before ∧
    seenEntries k'.vol c = some after ∧ InsertedEntry after before (seenEntry hit)
  freed : ∀ x, k'.vol.Free x ↔ k.vol.Free x ∨ x ∈ m

section Ordinals

theorem LfnState.after_liveLfn {st : LfnState} {raw : RawDirent} (h : raw.isLiveLfn = true) :
    st.after raw = st.feed raw := by
  obtain ⟨_, hdel, hlfn⟩ := RawDirent.isLiveLfn_iff.mp h
  simp [LfnState.after, hdel, hlfn]

/-- The decoder counts all slots of a run in order. -/
theorem LfnState.count_run {run : List RawDirent} {raw : RawDirent} (hrun : RunFor run raw)
    (hords : DescendingOrds run) (st : LfnState) {i : Nat} (hpos : 0 < i)
    (hi : i ≤ run.length) :
    let done := st.afterAll (run.take i)
    done.valid = true ∧ done.checksum = fat32LfnChecksum raw.name ∧ done.count = i := by
  induction i with
  | zero => omega
  | succ i ih =>
      have hlt : i < run.length := hi
      obtain ⟨hlive, hsum⟩ := hrun _ (List.getElem_mem hlt)
      have hord : run[i].ord = lfnOrd run.length i := by
        have hmap := congrArg (fun ords => ords[i]?) hords.2
        simpa [hlt] using hmap
      have htake : run.take (i + 1) = run.take i ++ [run[i]] := by
        rw [List.take_succ_eq_append_getElem hlt]
      rw [htake, LfnState.afterAll_concat, LfnState.after_liveLfn hlive, LfnState.feed, hord,
        hsum]
      rcases Nat.eq_zero_or_pos i with rfl | hpos'
      · simp [lfnOrd_last run.length hords.1 hlt]
      · obtain ⟨hvalid, hck, hcount⟩ := ih hpos' (by omega)
        simp [lfnOrd_inner run.length hords.1 i hlt hpos', hvalid, hck, hcount]

/-- The slots counted for an entry are all the slots of its run. -/
theorem EntryRemoved.run_eq {v v' : Vol} {l m : List Nat} {hit : DirHit}
    {left run right : List RawDirent} (h : EntryRemoved v l m hit left run right v')
    (hshape : DirShape DescendingOrds (v.raws l)) :
    Items DescendingOrds left ∧ DirShape DescendingOrds right := by
  rw [h.split] at hshape
  obtain ⟨before, run', hsplit, hbefore, hrun', hords, hright⟩ :=
    hshape.split_entry h.noEnd (RawDirent.isShort_of_isEntry h.isEntry)
  have hcount : (LfnState.init.afterAll (left ++ run)).count = run'.length := by
    rw [hsplit, LfnState.afterAll_append]
    rcases Nat.eq_zero_or_pos run'.length with hzero | hpos
    · rw [List.length_eq_zero_iff.mp hzero]
      exact (hbefore.inert LfnState.init_inert).2
    · have hall := LfnState.count_run hrun' hords (LfnState.init.afterAll before) hpos
        (Nat.le_refl _)
      rw [List.take_length] at hall
      exact hall.2.2
  have hlen : run.length = run'.length := by
    rw [← hcount, ← h.count, h.hit]
    rfl
  obtain ⟨rfl, _⟩ := List.append_inj' hsplit hlen
  exact ⟨hbefore, hright⟩

end Ordinals

section Own

variable {k k' : Kernel} {dir c : Nat} {l : List Nat}

theorem createKept_unchanged (g : Geometry k.vol) (h : k.vol.Chain c l)
    (hshape : DirShape DescendingOrds (k.vol.raws l)) (hvol : k'.vol = k.vol) (attr : UInt8)
    {adds : Prop} (hadds : ¬ adds) : CreateKept k k' c l attr adds := by
  refine ⟨⟨l, hvol ▸ h, hvol ▸ hshape⟩, _, _, seenEntries_eq g h, ?_, Or.inl ⟨hadds, rfl⟩⟩
  rw [hvol]
  exact seenEntries_eq g h

theorem createKept_grown (g : Geometry k.vol) (h : k.vol.Chain c l)
    (hshape : DirShape DescendingOrds (k.vol.raws l)) {ext : List Nat}
    (hgrown : Grown k.vol l ext c k'.vol) (attr : UInt8) {adds : Prop} (hadds : ¬ adds) :
    CreateKept k k' c l attr adds := by
  have hchain := hgrown.holds.chain_of_ne_zero (IsChain.head_node h).ne_zero
  obtain ⟨hraws, hends⟩ := hgrown.raws (.of_chain h)
  refine ⟨⟨_, hchain, ?_⟩, _, _, seenEntries_eq g h, ?_, Or.inl ⟨hadds, rfl⟩⟩
  · rw [hraws]
    exact hshape.append_ends hends
  · rw [seenEntries_eq (hgrown.geometry g) hchain, hgrown.listing (.of_chain h)]

theorem createKept_present (g : Geometry k.vol) (hdir : (k.fatNode dir).cluster = c)
    (h : k.vol.Chain c l) {name : CName} (hname : NameOk name) {found : DirHit}
    (hfind : k.find l name = some found) (attr : UInt8) (out : Bool) :
    (fat32CreateEntry dir name attr out k).2.vol = k.vol := by
  rw [fat32CreateEntry_present g hdir h hname hfind attr out]
  split
  · split
    · rfl
    · split
      · rcases fat32OpenHit_cases dir c found name k with ⟨_, hrun⟩ |
          ⟨n, _, ⟨_, hrun⟩ | ⟨i, _, hrun⟩⟩ <;> rw [hrun]
      · rfl
  · rfl

theorem createKept (g : Geometry k.vol) (hdir : (k.fatNode dir).cluster = c)
    (h : k.vol.Chain c l) (hshape : DirShape DescendingOrds (k.vol.raws l)) (name : CName)
    {attr : UInt8} (hattr : CreateAttr attr) (out : Bool) {r : Outcome Errno (Option Nat)}
    (hrun : fat32CreateEntry dir name attr out k = (r, k')) :
    CreateKept k k' c l attr (r.IsOk ∧ k.find l name = none) := by
  cases hvalid : fat32ValidateName name with
  | error e =>
      rw [fat32CreateEntry_invalid hvalid] at hrun
      obtain ⟨rfl, rfl⟩ := Prod.mk.inj hrun
      exact createKept_unchanged g h hshape rfl attr fun hadds => hadds.1
  | ok _ =>
      cases hfind : k.find l name with
      | some found =>
          have hvol := createKept_present g hdir h hvalid hfind attr out
          rw [hrun] at hvol
          exact createKept_unchanged g h hshape hvol attr fun hadds => by cases hadds.2
      | none =>
          rcases fat32CreateEntry_absent g hdir h hvalid hfind attr out with
            ⟨ext, v', hgrown, _, herr⟩ |
            ⟨short, needsLfn, ext, left, free, right, own, added, v₁, v₂, v', _, hchoice, _, _,
              hspec, hopen⟩
          · rw [herr] at hrun
            obtain ⟨rfl, rfl⟩ := Prod.mk.inj hrun
            exact createKept_grown g h hshape hgrown attr fun hadds => hadds.1
          · obtain ⟨_, _, hlen, _⟩ := NameOk.unfold hvalid
            have hvol : k'.vol = v' := by
              rw [hopen] at hrun
              have := openAdded_vol dir c name added (v'.place (l ++ ext) added.index) out
                (k.withVol v')
              rw [hrun] at this
              exact this
            have hchain' : v'.Chain c (l ++ ext) := hspec.written.chain
              (hspec.prepared.chain_frame (hspec.grown.holds.chain_of_ne_zero
                (IsChain.head_node h).ne_zero))
            have hshape' : SameShape k.vol v' :=
              hspec.grown.shape.trans (hspec.prepared.shape.trans hspec.written.shape)
            have hords : DescendingOrds
                (lfnRun name (lfnCountOf name needsLfn) (fat32LfnChecksum short)) :=
              lfnRun_descending name (lfnCountOf_lt hlen needsLfn) _
            obtain ⟨pre, post, hold, hnew, _⟩ :=
              hspec.listing h hshape.cleanTail hlen hattr hchoice.ok
            have hafter : seenEntries k'.vol c = some ((v'.listing (l ++ ext)).map seenEntry) := by
              rw [hvol, seenEntries_eq (hshape'.geometry g) hchain']
            refine ⟨⟨l ++ ext, hvol ▸ hchain', ?_⟩, _, _, seenEntries_eq g h, hafter, Or.inr
              ⟨seenEntry (EntryAdded.newHit v' (l ++ ext) name attr short needsLfn left added),
                mkDirent_attr short (entryAttr attr) added.cluster 0,
              mkDirent_fileSize short (entryAttr attr) added.cluster (by decide),
                pre.map seenEntry, post.map seenEntry, ?_, ?_⟩⟩
            · rw [hvol]
              exact hspec.dirShape h hshape hlen hattr hchoice.ok hords
            · rw [hold, List.map_append]
            · rw [hnew, List.map_append, List.map_cons]

theorem unlinkKept (g : Geometry k.vol) (hdir : (k.fatNode dir).cluster = c)
    (h : k.vol.Chain c l) (hshape : DirShape DescendingOrds (k.vol.raws l)) {name : CName}
    {hit : DirHit} {m : List Nat} (hfind : k.find l name = some hit)
    (hm : k.vol.Holds hit.raw.cluster m) (hapart : ∀ x ∈ m, x ∉ l)
    (hrun : fat32UnlinkOp dir name k = (.ok (), k')) : UnlinkKept k k' c l m hit := by
  have hcall : ∀ {r : Outcome Errno Unit} {v' : Vol}, fat32UnlinkIn c name k.vol = (r, v') →
      fat32UnlinkOp dir name k = (r, k.withVol v') := by
    intro r v' hin
    rw [fat32UnlinkOp, Prog.get_bind, hdir]
    exact onVol_apply hin
  have hname : isDotName name = false := by
    by_contra hdot
    have hin : fat32UnlinkIn c name k.vol = (.err .inval, k.vol) := by
      rw [fat32UnlinkIn, if_pos (by simpa using hdot), Prog.fail_apply]
    rw [hcall hin] at hrun
    cases (Prod.mk.inj hrun).1
  have hcheck : fat32CheckEmpty hit.raw k.vol = (.ok (), k.vol) := by
    by_contra hno
    have hvol := fat32CheckEmpty_vol hit.raw k.vol
    have hentry : fat32FindEntry c name k.vol = (.ok hit, k.vol) := by
      rw [fat32FindEntry_eq g h, show (k.vol.listing l).find? _ = some hit from hfind]
    have hin : fat32UnlinkIn c name k.vol = fat32CheckEmpty hit.raw k.vol := by
      rw [fat32UnlinkIn, if_neg (by simp [hname]), Prog.bind_ok hentry]
      cases hout : fat32CheckEmpty hit.raw k.vol with
      | mk r v₁ =>
          rw [hout] at hvol hno
          cases hvol
          cases r with
          | ok _ => exact absurd rfl hno
          | err e => rw [Prog.bind_err hout]
          | fault => simp only [bind, hout]
          | diverges => simp only [bind, hout]
    rw [hcall (hin.trans (Prod.ext rfl hvol :
      fat32CheckEmpty hit.raw k.vol = ((fat32CheckEmpty hit.raw k.vol).1, k.vol)))] at hrun
    exact hno (Prod.ext (Prod.mk.inj hrun).1 hvol)
  obtain ⟨left, run, right, v', hin, hspec⟩ :=
    fat32UnlinkIn_passed g h hname hfind hm hapart hcheck
  rw [hcall hin] at hrun
  obtain ⟨_, rfl⟩ := Prod.mk.inj hrun
  obtain ⟨hleft, hright⟩ := hspec.run_eq hshape
  have hchain' : v'.Chain c l := Vol.Chain.congr hspec.shape h fun x hx => by
    rw [hspec.next, if_neg fun hxm => hapart x hxm hx]
  obtain ⟨pre, post, hold, hnew, _⟩ := hspec.listing hshape.cleanTail
  refine ⟨⟨hchain', ?_⟩, ⟨_, _, seenEntries_eq g h,
    seenEntries_eq (hspec.shape.geometry g) hchain', pre.map seenEntry, post.map seenEntry,
    ?_, ?_⟩, ?_⟩
  · change DirShape DescendingOrds (v'.raws l)
    rw [hspec.raws]
    exact DirShape.prepend (hleft.append (.replicate_deleted _)) hright
  · rw [hnew, List.map_append]
  · rw [hold, List.map_append, List.map_cons]
  · intro x
    change v'.Free x ↔ k.vol.Free x ∨ x ∈ m
    rw [Vol.Free, Vol.Free, hspec.shape.inData, hspec.next]
    by_cases hx : x ∈ m
    · simp [hx, hm.inData hx]
    · simp [hx]

end Own

end OsAgentLab
