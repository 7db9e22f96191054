/-
What `sys_read` has moved when it returns.  A chunk is read before there is a look at the
memory that it goes to, and the offset of the open file moves in between.
-/
import OsAgentLab.Proc.WriteTransfer

namespace OsAgentLab

variable {s s' : Sys} {i f addr len t : Nat} {k k' : Kernel} {mm mm' : Mm} {bytes : List UInt8}

section Count

theorem fat32ReadChunks_length {v v' : Vol} (fuel : Nat) {lba idx off left : Nat}
    (h : fat32ReadChunks lba fuel idx off left v = (.ok bytes, v')) : bytes.length ≤ left := by
  induction fuel generalizing idx off left v bytes with
  | zero =>
      cases h
      exact Nat.zero_le _
  | succ fuel ih =>
      rw [fat32ReadChunks] at h
      split at h
      · cases h
        exact Nat.zero_le _
      obtain ⟨sector, v₁, _, h⟩ := Prog.of_bind_ok h
      obtain ⟨rest, v₂, hrest, h⟩ := Prog.of_bind_ok h
      cases h
      have hlen := ih hrest
      rw [List.length_append, List.length_map, List.length_range]
      omega

theorem fat32ReadLoop_length {v v' : Vol} (fuel : Nat) {cluster off left : Nat}
    (h : fat32ReadLoop fuel cluster off left v = (.ok bytes, v')) : bytes.length ≤ left := by
  induction fuel generalizing cluster off left v bytes with
  | zero =>
      cases h
      exact Nat.zero_le _
  | succ fuel ih =>
      rw [fat32ReadLoop] at h
      split at h
      · obtain ⟨fs, v₁, _, h⟩ := Prog.of_bind_ok h
        obtain ⟨here, v₂, hhere, h⟩ := Prog.of_bind_ok h
        have hlen := fat32ReadChunks_length _ hhere
        split at h
        · obtain ⟨next, v₃, _, h⟩ := Prog.of_bind_ok h
          obtain ⟨rest, v₄, hrest, h⟩ := Prog.of_bind_ok h
          cases h
          have hlen' := ih hrest
          rw [List.length_append]
          omega
        · cases h
          omega
      · cases h
        exact Nat.zero_le _

theorem fat32ReadNode_length {v v' : Vol} {node : Fat32Node} {offset : Nat}
    (h : fat32ReadNode node len offset v = (.ok bytes, v')) : bytes.length ≤ len := by
  rw [fat32ReadNode] at h
  split at h
  · cases h
    exact Nat.zero_le _
  have hremaining : (if node.size < u64 (offset + len) then node.size - offset else len) ≤ len := by
    have hle : u64 (offset + len) ≤ offset + len := Nat.mod_le _ _
    split <;> omega
  generalize (if node.size < u64 (offset + len) then node.size - offset else len) = remaining at *
  dsimp only at h
  split at h
  · cases h
    exact Nat.zero_le _
  obtain ⟨fs, v₁, _, h⟩ := Prog.of_bind_ok h
  obtain ⟨cluster, v₂, _, h⟩ := Prog.of_bind_ok h
  cases cluster with
  | none =>
      cases h
      exact Nat.zero_le _
  | some cluster => exact Nat.le_trans (fat32ReadLoop_length _ h) hremaining

/-- A read returns the number of the bytes it has read, and reads no more than it is asked
for. -/
theorem vfsRead_count {vn : Option Nat} {offset : Nat} {r : Int × List UInt8}
    (hlen : len < 2147483648) (h : vfsRead vn len offset k = (.ok r, k')) :
    r.1 = r.2.length ∧ r.2.length ≤ len := by
  cases vn with
  | none => cases h
  | some vn =>
      rw [vfsRead, vfsDispatch, Prog.get_bind] at h
      cases hops : (k.vnode vn).ops with
      | none =>
          rw [hops] at h
          cases h
      | some ops =>
          rw [hops] at h
          cases ops with
          | fat32 =>
              have hop : fat32ReadOp vn len offset k = (.ok r, k') := h
              rw [fat32ReadOp, Prog.get_bind] at hop
              obtain ⟨node, k₁, _, hop⟩ := Prog.of_bind_ok hop
              rw [Prog.modify_bind] at hop
              split at hop
              · cases hop
              obtain ⟨bytes, k₂, hnode, hop⟩ := Prog.of_bind_ok hop
              obtain ⟨v', hvol, _⟩ := Prog.of_zoom_ok hnode
              have hle := fat32ReadNode_length hvol
              have hr := Outcome.ok.inj (Prod.mk.inj hop).1
              rw [← hr]
              dsimp only
              rw [cInt_of_lt (by omega)]
              exact ⟨rfl, hle⟩
          | ramfs =>
              have hop : ramfsRead vn len offset k = (.ok r, k') := h
              simp only [ramfsRead] at hop
              split at hop
              · cases hop
              split at hop
              · cases hop
                exact ⟨rfl, Nat.zero_le _⟩
              have hr := Outcome.ok.inj (Prod.mk.inj hop).1
              rw [← hr]
              refine ⟨?_, ?_⟩
              · rw [List.length_map, List.length_range, cInt_of_lt (by omega)]
              · rw [List.length_map, List.length_range]
                exact Nat.min_le_right _ _

end Count

section Read

/-- `file_read` of up to `c` bytes, `t` bytes behind the offset that `file` has, up to the move
of the offset. -/
def OpenFile.fetch (file : OpenFile) (t c : Nat) : Kern (Int × List UInt8) :=
  if file.readable = false then Prog.fail .badf
  else vfsRead file.vn c (u64 (file.off + t))

/-- The state after `t` bytes have moved into the memory `x.2`. -/
def Sys.movedIn (s : Sys) (f t : Nat) (x : Kernel × Mm) : Sys :=
  ({ s with mm := x.2 } : Sys).moved f t x.1

/-- A pass of `sys_read` behind `t` bytes. -/
def readPiece (s : Sys) (i f addr len t : Nat) (x : Kernel × Mm) : Piece Errno × (Kernel × Mm) :=
  if len ≤ t then (.last 0, x)
  else
    match (s.files.slot f).fetch t (min (len - t) 256) x.1 with
    | (.ok r, k') =>
        if r.1 = 0 then (.last 0, (k', x.2))
        else
          match copyout (s.procs i).pagetable (u64 (addr + t)) (r.2.take r.1.toNat) x.2 with
          | (.ok _, mm') => (.more r.1.toNat, (k', mm'))
          | (.err _, mm') => (.failed r.1.toNat .fault, (k', mm'))
          | (_, mm') => (.lost, (k', mm'))
    | (.err e, k') => (.failed 0 e, (k', x.2))
    | (_, k') => (.lost, (k', x.2))

variable {x x' : Kernel × Mm} {r : Int × List UInt8}

theorem OpenFile.fetch_count {file : OpenFile} {c : Nat} (hlen : c < 2147483648)
    (h : file.fetch t c k = (.ok r, k')) : r.1 = r.2.length ∧ r.2.length ≤ c := by
  rw [OpenFile.fetch] at h
  split at h
  · cases h
  · exact vfsRead_count hlen h

/-- `file_read` behind `t` bytes. -/
theorem fileRead_moved (s : Sys) (f t c : Nat) (x : Kernel × Mm) :
    fileRead f c (s.movedIn f t x) =
      match (s.files.slot f).fetch t c x.1 with
      | (.ok r, k') => (.ok r, s.movedIn f (t + r.1.toNat) (k', x.2))
      | (.err e, k') => (.err e, s.movedIn f t (k', x.2))
      | (.fault, k') => (.fault, s.movedIn f t (k', x.2))
      | (.diverges, k') => (.diverges, s.movedIn f t (k', x.2)) := by
  have hslot : (s.movedIn f t x).files.slot f =
      { s.files.slot f with off := u64 ((s.files.slot f).off + t) } := by
    simp [Sys.movedIn, Sys.moved]
  rw [fileRead, Prog.get_bind, hslot, OpenFile.fetch]
  dsimp only
  by_cases hreadable : (s.files.slot f).readable = false
  · rw [if_pos hreadable, if_pos hreadable]
    rfl
  rw [if_neg hreadable, if_neg hreadable]
  cases hrun : vfsRead (s.files.slot f).vn c (u64 ((s.files.slot f).off + t)) x.1 with
  | mk r k' =>
      have hfs : onFs (vfsRead (s.files.slot f).vn c (u64 ((s.files.slot f).off + t)))
          (s.movedIn f t x) = (r, s.movedIn f t (k', x.2)) := onFs_apply hrun
      cases r with
      | err e => exact Prog.bind_err hfs _
      | fault => simp only [bind, hfs]
      | diverges => simp only [bind, hfs]
      | ok r =>
          have hadvance : advanceOff f r.1 (s.movedIn f t (k', x.2)) =
              (.ok (), s.movedIn f (t + r.1.toNat) (k', x.2)) := advanceOff_moved _ f t k' r.1
          rw [Prog.bind_ok hfs, Prog.bind_ok hadvance]
          rfl

/-- A pass that has read something and copied it out. -/
theorem readPiece_more {m : Nat} (h : readPiece s i f addr len t x = (.more m, x')) :
    t < len ∧ ∃ r, (s.files.slot f).fetch t (min (len - t) 256) x.1 = (.ok r, x'.1) ∧
      r.1 = m ∧ m ≠ 0 ∧ m ≤ len - t ∧
        copyout (s.procs i).pagetable (u64 (addr + t)) (r.2.take m) x.2 = (.ok (), x'.2) := by
  rw [readPiece] at h
  split at h
  · cases h
  rename_i ht
  refine ⟨Nat.not_le.mp ht, ?_⟩
  split at h
  · rename_i r k' hfetch
    obtain ⟨hr, hle⟩ := OpenFile.fetch_count (by omega) hfetch
    split at h
    · cases h
    rename_i hzero
    split at h
    · rename_i mm' hcopy
      cases h
      exact ⟨r, hfetch, by omega, by omega, by omega, hcopy⟩
    · cases h
    · cases h
  · cases h
  · cases h

/-- A pass that ends the transfer without an error. -/
theorem readPiece_last {m : Nat} (h : readPiece s i f addr len t x = (.last m, x')) :
    m = 0 ∧ ((len ≤ t ∧ x' = x) ∨ t < len ∧ x'.2 = x.2 ∧ ∃ r,
      (s.files.slot f).fetch t (min (len - t) 256) x.1 = (.ok r, x'.1) ∧ r.1 = 0) := by
  rw [readPiece] at h
  split at h
  · cases h
    exact ⟨rfl, Or.inl ⟨by assumption, rfl⟩⟩
  rename_i ht
  split at h
  · rename_i r k' hfetch
    split at h
    · rename_i hzero
      cases h
      exact ⟨rfl, Or.inr ⟨Nat.not_le.mp ht, rfl, r, hfetch, hzero⟩⟩
    · split at h
      · cases h
      · cases h
      · cases h
  · cases h
  · cases h

/-- A pass that fails: the read has failed, or the memory is not there for what it has
delivered. -/
theorem readPiece_failed {m : Nat} {e : Errno}
    (h : readPiece s i f addr len t x = (.failed m e, x')) :
    t < len ∧
      ((m = 0 ∧ x'.2 = x.2 ∧
          (s.files.slot f).fetch t (min (len - t) 256) x.1 = (.err e, x'.1)) ∨
        ∃ r e', (s.files.slot f).fetch t (min (len - t) 256) x.1 = (.ok r, x'.1) ∧
          r.1 = m ∧ m ≠ 0 ∧ m ≤ len - t ∧ e = .fault ∧
            copyout (s.procs i).pagetable (u64 (addr + t)) (r.2.take m) x.2 = (.err e', x'.2)) := by
  rw [readPiece] at h
  split at h
  · cases h
  rename_i ht
  refine ⟨Nat.not_le.mp ht, ?_⟩
  split at h
  · rename_i r k' hfetch
    obtain ⟨hr, hle⟩ := OpenFile.fetch_count (by omega) hfetch
    split at h
    · cases h
    rename_i hzero
    split at h
    · cases h
    · rename_i e' mm' hcopy
      cases h
      exact Or.inr ⟨r, e', hfetch, by omega, by omega, by omega, rfl, hcopy⟩
    · cases h
  · rename_i hfetch
    cases h
    exact Or.inl ⟨rfl, rfl, hfetch⟩
  · cases h

/-- A pass that does not come back. -/
theorem readPiece_lost (h : readPiece s i f addr len t x = (.lost, x')) :
    t < len ∧
      ((∃ q, (s.files.slot f).fetch t (min (len - t) 256) x.1 = (q, x'.1) ∧
          (q = .fault ∨ q = .diverges)) ∨
        ∃ r m q, (s.files.slot f).fetch t (min (len - t) 256) x.1 = (.ok r, x'.1) ∧
          r.1 = (m : Nat) ∧ m ≠ 0 ∧
            copyout (s.procs i).pagetable (u64 (addr + t)) (r.2.take m) x.2 = (q, x'.2) ∧
              (q = .fault ∨ q = .diverges)) := by
  rw [readPiece] at h
  split at h
  · cases h
  rename_i ht
  refine ⟨Nat.not_le.mp ht, ?_⟩
  split at h
  · rename_i r k' hfetch
    obtain ⟨hr, hle⟩ := OpenFile.fetch_count (by omega) hfetch
    split at h
    · cases h
    rename_i hzero
    split at h
    · cases h
    · cases h
    · rename_i q mm' hok herr hcopy
      cases h
      refine Or.inr ⟨r, r.1.toNat, q, hfetch, by omega, by omega, hcopy, ?_⟩
      cases q with
      | ok a => exact absurd rfl (hok a)
      | err e => exact absurd rfl (herr e)
      | fault => exact Or.inl rfl
      | diverges => exact Or.inr rfl
  · cases h
  · rename_i q k' hok herr hfetch
    cases h
    refine Or.inl ⟨q, hfetch, ?_⟩
    cases q with
    | ok r => exact absurd rfl (hok r)
    | err e => exact absurd rfl (herr e)
    | fault => exact Or.inl rfl
    | diverges => exact Or.inr rfl

/-- The look at what a chunk has delivered. -/
def readBehind (i addr len t : Nat) (r : Int × List UInt8) : SysM (Option (Nat × Nat × Int)) :=
  if r.1 = 0 then pure none
  else do
    let s ← Prog.get
    Prog.orElse
      (onMm (copyout (s.procs i).pagetable (u64 (addr + t)) (r.2.take r.1.toNat))) .fault
    pure (some (len - t - r.1.toNat, u64 (u64 t + r.1.toNat), addInt (cInt t) r.1))

theorem readChunk_moved (ht : t < len) (hlen : len < 18446744073709551616) :
    readChunk i f addr (transferPos len t) =
      (fileRead f (min (len - t) 256) >>= readBehind i addr len t) := by
  have hleft : ¬ len - t = 0 := by omega
  have haddr : u64 (addr + u64 t) = u64 (addr + t) := by rw [u64_of_lt (show t < _ by omega)]
  rw [transferPos]
  simp only [readChunk]
  rw [if_neg hleft, haddr]
  rfl

/-- The copy of what a chunk has delivered. -/
theorem readBehind_copy {m : Nat} {q : Outcome Errno Unit} (hr : r.1 = m) (hm : m ≠ 0)
    (hcopy : copyout (s.procs i).pagetable (u64 (addr + t)) (r.2.take m) mm = (q, mm')) :
    readBehind i addr len t r (s.movedIn f (t + m) (k, mm)) =
      match q with
      | .ok _ => (.ok (some (len - t - m, u64 (u64 t + m), addInt (cInt t) m)),
          s.movedIn f (t + m) (k, mm'))
      | .err _ => (.err .fault, s.movedIn f (t + m) (k, mm'))
      | .fault => (.fault, s.movedIn f (t + m) (k, mm'))
      | .diverges => (.diverges, s.movedIn f (t + m) (k, mm')) := by
  have hmm : onMm (copyout (s.procs i).pagetable (u64 (addr + t)) (r.2.take m))
      (s.movedIn f (t + m) (k, mm)) = (q, s.movedIn f (t + m) (k, mm')) := Prog.zoom_apply hcopy
  have hprocs : (s.movedIn f (t + m) (k, mm)).procs = s.procs := rfl
  have hnat : r.1.toNat = m := by rw [hr, Int.toNat_natCast]
  rw [readBehind, if_neg (by omega), Prog.get_bind, hprocs, hnat, hr]
  cases q with
  | ok a => exact Prog.bind_ok (Prog.orElse_ok hmm _) _
  | err e => exact Prog.bind_err (Prog.orElse_err hmm _) _
  | fault => simp only [bind, Prog.orElse, hmm]
  | diverges => simp only [bind, Prog.orElse, hmm]

/-- The loop of `sys_read` over an open file is a transfer. -/
theorem reads_transfers (hlen : len < 18446744073709551616) :
    Transfers (readPiece s i f addr len) (readChunk i f addr) (transferPos len) (s.movedIn f)
      (fun last => last.2.2) cInt len := by
  refine ⟨transferPos_count len, fun t x ht => by rw [readPiece, if_pos ht], ?_, ?_, ?_, ?_⟩
  · intro t m x x' hstep
    obtain ⟨ht, r, hfetch, hr, hm, hle, hcopy⟩ := readPiece_more hstep
    have hread := fileRead_moved s f t (min (len - t) 256) x
    rw [hfetch] at hread
    refine ⟨Nat.pos_of_ne_zero hm, by omega, ?_⟩
    rw [readChunk_moved ht hlen, Prog.bind_ok hread, hr, Int.toNat_natCast,
      readBehind_copy hr hm hcopy, transferPos_next hlen (by omega)]
  · intro t m x x' hstep
    obtain ⟨rfl, ⟨ht, rfl⟩ | ⟨ht, hmm, r, hfetch, hr⟩⟩ := readPiece_last hstep
    · refine ⟨Nat.le_max_left _ _, fun fuel => ⟨_, transferPos_count len t, ?_⟩⟩
      rw [transferPos, Nat.sub_eq_zero_of_le ht]
      rfl
    · have hread := fileRead_moved s f t (min (len - t) 256) x
      rw [hfetch] at hread
      refine ⟨Nat.le_max_left _ _, fun fuel => ⟨_, transferPos_count len t, ?_⟩⟩
      have hchunk : readChunk i f addr (transferPos len t) (s.movedIn f t x) =
          (.ok none, s.movedIn f (t + 0) x') := by
        rw [readChunk_moved ht hlen, Prog.bind_ok hread, hr, readBehind, if_pos hr, ← hmm]
        rfl
      rw [Prog.loop, Prog.bind_ok hchunk]
      rfl
  · intro t m x x' e hstep
    obtain ⟨ht, ⟨rfl, hmm, hfetch⟩ | ⟨r, e', hfetch, hr, hm, hle, rfl, hcopy⟩⟩ :=
      readPiece_failed hstep
    · have hread := fileRead_moved s f t (min (len - t) 256) x
      rw [hfetch] at hread
      refine ⟨Nat.le_max_left _ _, ?_⟩
      rw [readChunk_moved ht hlen, Prog.bind_err hread, ← hmm]
      rfl
    · have hread := fileRead_moved s f t (min (len - t) 256) x
      rw [hfetch] at hread
      refine ⟨by omega, ?_⟩
      rw [readChunk_moved ht hlen, Prog.bind_ok hread, hr, Int.toNat_natCast,
        readBehind_copy hr hm hcopy]
  · intro t x x' hstep
    obtain ⟨ht, ⟨q, hfetch, hq⟩ | ⟨r, m, q, hfetch, hr, hm, hcopy, hq⟩⟩ := readPiece_lost hstep
    · have hread := fileRead_moved s f t (min (len - t) 256) x
      rw [hfetch] at hread
      rw [readChunk_moved ht hlen]
      rcases hq with rfl | rfl
      · exact ⟨.fault, s.movedIn f t (x'.1, x.2), by simp only [bind, hread], id, id⟩
      · exact ⟨.diverges, s.movedIn f t (x'.1, x.2), by simp only [bind, hread], id, id⟩
    · have hread := fileRead_moved s f t (min (len - t) 256) x
      rw [hfetch] at hread
      rw [readChunk_moved ht hlen, Prog.bind_ok hread, hr, Int.toNat_natCast,
        readBehind_copy hr hm hcopy]
      rcases hq with rfl | rfl
      · exact ⟨_, _, rfl, id, id⟩
      · exact ⟨_, _, rfl, id, id⟩

end Read

section Accounts

/-- The file system has delivered the bytes `data`, in one read after the other from the offset
of `file` on, and they have been copied out to `addr`; nothing else has been. -/
inductive Gets (file : OpenFile) (pt addr : Nat) (x₀ : Kernel × Mm) :
    List UInt8 → Kernel × Mm → Prop
  | start : Gets file pt addr x₀ [] x₀
  | some {done : List UInt8} {c : Nat} {r : Int × List UInt8} {k' : Kernel} {mm' : Mm}
      {x : Kernel × Mm} (h : Gets file pt addr x₀ done x)
      (hfetch : file.fetch done.length c x.1 = (.ok r, k'))
      (hcopy : copyout pt (u64 (addr + done.length)) (r.2.take r.1.toNat) x.2 = (.ok (), mm')) :
      Gets file pt addr x₀ (done ++ r.2.take r.1.toNat) (k', mm')
  | nothing {done : List UInt8} {c : Nat} {q : Outcome Errno (Int × List UInt8)} {k' : Kernel}
      {x : Kernel × Mm} (h : Gets file pt addr x₀ done x)
      (hfetch : file.fetch done.length c x.1 = (q, k')) (hq : ∀ r, q = .ok r → r.1 = 0) :
      Gets file pt addr x₀ done (k', x.2)

/-- From `s` to `s'` exactly the first `count` bytes of the buffer have been read from the
open file, from its old offset on, and the offset has advanced by as much. -/
structure ReadFirst (s s' : Sys) (i f addr count : Nat) : Prop where
  state : s' = s.movedIn f count (s'.fs, s'.mm)
  bytes : ∃ data, data.length = count ∧
    Gets (s.files.slot f) (s.procs i).pagetable addr (s.fs, s.mm) data (s'.fs, s'.mm)

/-- What the result of `sys_read` tells is what it has done. -/
def ReadAccounts (x : Sys × Tty) (fd i f addr len : Nat) : Prop :=
  ∀ r x', sysRead fd addr len x = (r, x') →
    match r with
    | .ok n => x'.2 = x.2 ∧ ReadFirst x.1 x'.1 i f addr n.toNat
    | .err _ => x'.2 = x.2 ∧ ReadFirst x.1 x'.1 i f addr 0
    | _ => True

variable {x : Kernel × Mm}

theorem moved_gets (h : Moved (readPiece s i f addr len) (s.fs, s.mm) t x) :
    ∃ data, data.length = t ∧
      Gets (s.files.slot f) (s.procs i).pagetable addr (s.fs, s.mm) data x := by
  induction h with
  | start => exact ⟨[], rfl, .start⟩
  | @more t m x x' _ hstep ih =>
      obtain ⟨done, rfl, hgets⟩ := ih
      obtain ⟨_, r, hfetch, hr, _, _, hcopy⟩ := readPiece_more hstep
      obtain ⟨hcount, _⟩ := OpenFile.fetch_count (by omega) hfetch
      have hnat : r.1.toNat = m := by rw [hr, Int.toNat_natCast]
      refine ⟨_, ?_, hgets.some hfetch (hnat ▸ hcopy)⟩
      rw [List.length_append, List.length_take]
      omega

theorem ended_gets (h : Ended (readPiece s i f addr len) (s.fs, s.mm) none t x) :
    ∃ data, data.length = t ∧
      Gets (s.files.slot f) (s.procs i).pagetable addr (s.fs, s.mm) data x := by
  cases h with
  | @last t m x x' h hstep =>
      obtain ⟨done, rfl, hgets⟩ := moved_gets h
      obtain ⟨rfl, ⟨_, rfl⟩ | ⟨_, hmm, r, hfetch, hr⟩⟩ := readPiece_last hstep
      · exact ⟨done, rfl, hgets⟩
      · refine ⟨done, rfl, ?_⟩
        have hnothing := hgets.nothing hfetch (fun r' heq => Outcome.ok.inj heq ▸ hr)
        rwa [← hmm] at hnothing

theorem failed_gets {e : Errno}
    (h : Ended (readPiece s i f addr len) (s.fs, s.mm) (some e) 0 x) :
    Gets (s.files.slot f) (s.procs i).pagetable addr (s.fs, s.mm) [] x := by
  generalize hzero : (0 : Nat) = t at h
  cases h with
  | @failed t m x x' e h hstep =>
      obtain ⟨done, hlen, hgets⟩ := moved_gets h
      obtain ⟨_, ⟨rfl, hmm, hfetch⟩ | ⟨r, e', _, _, hm, _⟩⟩ := readPiece_failed hstep
      · obtain rfl : done = [] := List.eq_nil_of_length_eq_zero (by omega)
        rw [← hlen] at hfetch
        have hnothing := hgets.nothing hfetch (fun r heq => by cases heq)
        rwa [← hmm] at hnothing
      · omega

/-- `sys_read` from an open file leaves the terminal alone. -/
theorem sysRead_open {tty : Tty} {fd : Nat} (hcur : s.current = some i) (hfd : fd < nofile)
    (hof : (s.procs i).ofile fd = some f) :
    sysRead fd addr len (s, tty) =
      ((sysReadFile i f addr len s).1, ((sysReadFile i f addr len s).2, tty)) := by
  have hcurrent : onSys (procCurrent .inval) (s, tty) = (.ok i, (s, tty)) := by
    apply Prog.zoom_apply
    rw [procCurrent, hcur]
  rw [sysRead, Prog.bind_ok hcurrent, Prog.get_bind, if_neg (Nat.not_le.mpr hfd), hof]
  rfl

/-- `sys_read` accounts for what it has done exactly when no chunk but the first fails, the
first one fails before it has moved anything, and fewer than 2^31 bytes are read. -/
theorem sysRead_accounts {tty : Tty} {fd : Nat} (hcur : s.current = some i) (hfd : fd < nofile)
    (hof : (s.procs i).ofile fd = some f) (hoff : (s.files.slot f).off < 18446744073709551616)
    (hlen : len < 18446744073709551616) :
    ReadAccounts (s, tty) fd i f addr len ↔
      Whole (readPiece s i f addr len) 2147483648 (s.fs, s.mm) := by
  have hx := @reads_transfers s i f addr len hlen
  have hwhole := @Transfers.accounts_iff _ _ _ _ _ _ _ _ _ _ _ (s.fs, s.mm) hx 2147483648
    (fun n s' => ReadFirst s s' i f addr n)
    (fun t _ => cInt_toNat_iff t) (fun t u h => ⟨rfl, ended_gets h⟩)
    (fun e u h => ⟨rfl, [], rfl, failed_gets h⟩) (fun e t u n h hgood hn => ?_) cInt_toNat_le
  · have hzero : s.movedIn f 0 (s.fs, s.mm) = s := Sys.moved_zero hoff
    rw [transferPos_zero, hzero] at hwhole
    rw [← hwhole, ReadAccounts]
    constructor
    · intro hcall r s' hrun
      have hfile : sysReadFile i f addr len s = (r, s') := hrun
      have hresult := hcall _ _ (sysRead_open hcur hfd hof)
      rw [hfile] at hresult
      cases r with
      | ok n => exact hresult.2
      | err e => exact hresult.2
      | fault => trivial
      | diverges => trivial
    · intro hfile r x' hcall
      rw [sysRead_open hcur hfd hof] at hcall
      obtain ⟨rfl, rfl⟩ := Prod.mk.inj hcall
      cases hrun : sysReadFile i f addr len s with
      | mk r s' =>
          have hresult := hfile r s' hrun
          cases r with
          | ok n => exact ⟨rfl, hresult⟩
          | err e => exact ⟨rfl, hresult⟩
          | fault => trivial
          | diverges => trivial
  · have hle := hx.ended_le h
    exact Sys.moved_inj (Nat.lt_of_le_of_lt hle hlen) (by omega) hgood.state

end Accounts

end OsAgentLab
