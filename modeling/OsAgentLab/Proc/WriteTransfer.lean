/-
What `sys_write` has moved when it returns.  It cuts a transfer into chunks of 256 bytes, and
each chunk moves the offset of the open file.
-/
import OsAgentLab.Pieces
import OsAgentLab.Proc.FileBytes

namespace OsAgentLab

variable {s s' : Sys} {i f addr len t : Nat} {k k' : Kernel} {data : List UInt8} {n : Int}

/-- The state after `t` bytes have moved through the open file `f`, with the file systems at
`k`. -/
def Sys.moved (s : Sys) (f t : Nat) (k : Kernel) : Sys :=
  { s with
    fs := k
    files := s.files.setSlot f { s.files.slot f with off := u64 ((s.files.slot f).off + t) } }

section Write

/-- `file_write` of `data`, `t` bytes behind the offset that `file` has, up to the move of the
offset. -/
def OpenFile.put (file : OpenFile) (t : Nat) (data : List UInt8) : Kern Int :=
  if file.writable = false then Prog.fail .badf
  else vfsWrite file.vn data (u64 (file.off + t))

/-- A pass of `sys_write` behind `t` bytes. -/
def writePiece (s : Sys) (i f addr len t : Nat) (k : Kernel) : Piece Errno × Kernel :=
  if len ≤ t then (.last 0, k)
  else
    match userBytes s.mm (s.procs i).pagetable (u64 (addr + t)) (min (len - t) 256) with
    | none => (.failed 0 .fault, k)
    | some data =>
        match (s.files.slot f).put t data k with
        | (.ok n, k') =>
            if n < data.length then (.last n.toNat, k') else (.more data.length, k')
        | (.err e, k') => (.failed 0 e, k')
        | (_, k') => (.lost, k')

theorem fat32WriteOp_count {vn offset : Nat} (hlen : data.length < 2147483648)
    (h : fat32WriteOp vn data offset k = (.ok n, k')) : 0 ≤ n ∧ n ≤ data.length := by
  have hcount : ∀ {m : Int}, m = cInt data.length → 0 ≤ m ∧ m ≤ data.length := by
    intro m hm
    rw [hm, cInt_of_lt hlen]
    omega
  rw [fat32WriteOp, Prog.get_bind] at h
  split at h
  · cases h
  split at h
  · cases h
    omega
  obtain ⟨_, k₁, _, h⟩ := Prog.of_bind_ok h
  rw [Prog.get_bind] at h
  obtain ⟨_, k₂, _, h⟩ := Prog.of_bind_ok h
  rw [Prog.get_bind] at h
  split at h
  · obtain ⟨_, k₃, _, h⟩ := Prog.of_bind_ok h
    obtain ⟨_, k₄, _, h⟩ := Prog.of_bind_ok h
    exact hcount (Outcome.ok.inj (Prod.mk.inj h).1).symm
  · exact hcount (Outcome.ok.inj (Prod.mk.inj h).1).symm

theorem ramfsWrite_count {vn offset : Nat} (hlen : data.length < 2147483648)
    (h : ramfsWrite vn data offset k = (.ok n, k')) : 0 ≤ n ∧ n ≤ data.length := by
  have hmax : ramfsMaxFileSize = 4096 := rfl
  simp only [ramfsWrite] at h
  split at h
  · cases h
  split at h
  · cases h
    omega
  obtain ⟨hn, _⟩ := Prod.mk.inj h
  obtain rfl := Outcome.ok.inj hn
  rename_i hoffset
  split
  · rename_i hfull
    have hle : u64 (offset + data.length) ≤ offset + data.length := Nat.mod_le _ _
    rw [cInt_of_lt (by omega)]
    omega
  · rw [cInt_of_lt hlen]
    omega

/-- A write moves no more bytes than it is given. -/
theorem vfsWrite_count {vn : Option Nat} {offset : Nat} (hlen : data.length < 2147483648)
    (h : vfsWrite vn data offset k = (.ok n, k')) : 0 ≤ n ∧ n ≤ data.length := by
  cases vn with
  | none => cases h
  | some vn =>
      rw [vfsWrite, vfsDispatch, Prog.get_bind] at h
      cases hops : (k.vnode vn).ops with
      | none =>
          rw [hops] at h
          cases h
      | some ops =>
          rw [hops] at h
          cases ops with
          | fat32 => exact fat32WriteOp_count hlen h
          | ramfs => exact ramfsWrite_count hlen h

theorem OpenFile.put_count {file : OpenFile} (hlen : data.length < 2147483648)
    (h : file.put t data k = (.ok n, k')) : 0 ≤ n ∧ n ≤ data.length := by
  rw [OpenFile.put] at h
  split at h
  · cases h
  · exact vfsWrite_count hlen h

theorem Sys.moved_zero (hoff : (s.files.slot f).off < 18446744073709551616) :
    s.moved f 0 s.fs = s := by
  rw [Sys.moved, Nat.add_zero, u64_of_lt hoff, Pool.setSlot_self]

/-- The move of the offset behind a read or a write. -/
theorem advanceOff_moved (s : Sys) (f t : Nat) (k : Kernel) (n : Int) :
    advanceOff f n (s.moved f t k) = (.ok (), s.moved f (t + n.toNat) k) := by
  rw [advanceOff]
  split
  · have hsum : u64 (u64 ((s.files.slot f).off + t) + n.toNat) =
        u64 ((s.files.slot f).off + (t + n.toNat)) := by
      simp only [u64]
      omega
    rw [Prog.get_bind, storeOff, Prog.modify_apply]
    refine congrArg (Prod.mk _) ?_
    simp [Sys.moved, Pool.setSlot_setSlot, hsum]
  · have hzero : n.toNat = 0 := by omega
    rw [hzero]
    rfl

/-- `file_write` behind `t` bytes. -/
theorem fileWrite_moved (s : Sys) (f t : Nat) (k : Kernel) (data : List UInt8) :
    fileWrite f data (s.moved f t k) =
      match (s.files.slot f).put t data k with
      | (.ok n, k') => (.ok n, s.moved f (t + n.toNat) k')
      | (.err e, k') => (.err e, s.moved f t k')
      | (.fault, k') => (.fault, s.moved f t k')
      | (.diverges, k') => (.diverges, s.moved f t k') := by
  have hslot : (s.moved f t k).files.slot f =
      { s.files.slot f with off := u64 ((s.files.slot f).off + t) } := by simp [Sys.moved]
  rw [fileWrite, Prog.get_bind, hslot, OpenFile.put]
  dsimp only
  by_cases hwritable : (s.files.slot f).writable = false
  · rw [if_pos hwritable, if_pos hwritable]
    rfl
  rw [if_neg hwritable, if_neg hwritable]
  cases hrun : vfsWrite (s.files.slot f).vn data (u64 ((s.files.slot f).off + t)) k with
  | mk r k' =>
      have hfs : onFs (vfsWrite (s.files.slot f).vn data (u64 ((s.files.slot f).off + t)))
          (s.moved f t k) = (r, s.moved f t k') := onFs_apply hrun
      cases r with
      | err e => exact Prog.bind_err hfs _
      | fault => simp only [bind, hfs]
      | diverges => simp only [bind, hfs]
      | ok n =>
          rw [Prog.bind_ok hfs, Prog.bind_ok (advanceOff_moved s f t k' n)]
          rfl

theorem addInt_cInt (t n : Nat) : addInt (cInt t) n = cInt (t + n) := by
  have hsum : ∀ m : Nat, Int.bmod (Int.bmod t m + n) m = Int.bmod (t + n : Nat) m := by
    intro m
    rw [Int.bmod_add_bmod, Int.natCast_add]
  exact hsum _

/-- The loop variables of `sys_write` and `sys_read` behind `t` bytes. -/
def transferPos (len t : Nat) : Nat × Nat × Int := (len - t, u64 t, cInt t)

theorem transferPos_count (len t : Nat) : (transferPos len t).2.2 = cInt t := by
  simp only [transferPos]

theorem transferPos_zero (len : Nat) : transferPos len 0 = (len, 0, 0) := by
  rw [transferPos, cInt_of_lt (by decide)]
  rfl

theorem transferPos_next {c : Nat} (hlen : len < 18446744073709551616) (hle : t + c ≤ len) :
    transferPos len (t + c) = (len - t - c, u64 (u64 t + c), addInt (cInt t) c) := by
  have hoff : u64 (u64 t + c) = u64 (t + c) := by rw [u64_of_lt (show t < _ by omega)]
  rw [addInt_cInt, hoff, transferPos, Nat.sub_add_eq]

/-- The copy of a chunk into `tmp`. -/
theorem writeChunk_moved (ht : t < len) (hlen : len < 18446744073709551616) :
    writeChunk i f addr (transferPos len t) (s.moved f t k) =
      match userBytes s.mm (s.procs i).pagetable (u64 (addr + t)) (min (len - t) 256) with
      | none => (.err .fault, s.moved f t k)
      | some data =>
          (fileWrite f data >>= fun n =>
            if n < (min (len - t) 256 : Nat) then pure (some (0, u64 t, addInt (cInt t) n))
            else pure (some (len - t - min (len - t) 256, u64 (u64 t + (min (len - t) 256 : Nat)),
              addInt (cInt t) n))) (s.moved f t k) := by
  have haddr : u64 (addr + u64 t) = u64 (addr + t) := by rw [u64_of_lt (show t < _ by omega)]
  have hva : u64 (addr + t) < 18446744073709551616 := Nat.mod_lt _ (by decide)
  have hcopyin := copyin_eq s.mm (s.procs i).pagetable (min (len - t) 256) hva
  have hmm : onMm (copyin (s.procs i).pagetable (u64 (addr + t)) (min (len - t) 256))
      (s.moved f t k) = _ := Prog.zoom_apply hcopyin
  have hleft : ¬ len - t = 0 := by omega
  rw [transferPos]
  simp only [writeChunk]
  rw [if_neg hleft, Prog.get_bind, haddr]
  have hprocs : (s.moved f t k).procs = s.procs := rfl
  rw [hprocs]
  cases hbytes : userBytes s.mm (s.procs i).pagetable (u64 (addr + t)) (min (len - t) 256) with
  | none =>
      rw [hbytes] at hmm
      exact Prog.bind_err (Prog.orElse_err hmm _) _
  | some data =>
      rw [hbytes] at hmm
      exact Prog.bind_ok (Prog.orElse_ok hmm _) _

/-- What `file_write` and the loop of `sys_write` make of a chunk that is there. -/
theorem writeChunk_put (ht : t < len) (hlen : len < 18446744073709551616)
    (hdata : userBytes s.mm (s.procs i).pagetable (u64 (addr + t)) (min (len - t) 256) = some data)
    (hput : (s.files.slot f).put t data k = (.ok n, k')) :
    data.length = min (len - t) 256 ∧ 0 ≤ n ∧ n ≤ data.length ∧
      writeChunk i f addr (transferPos len t) (s.moved f t k) =
        (.ok (some (if n < data.length then (0, u64 t, cInt (t + n.toNat))
          else transferPos len (t + data.length))), s.moved f (t + n.toNat) k') := by
  have hcount := userBytes_length hdata
  obtain ⟨hpos, hle⟩ := OpenFile.put_count (by omega) hput
  have hwrite := fileWrite_moved s f t k data
  rw [hput] at hwrite
  refine ⟨hcount, hpos, hle, ?_⟩
  rw [writeChunk_moved ht hlen, hdata]
  dsimp only
  rw [Prog.bind_ok hwrite, ← hcount]
  by_cases hshort : n < data.length
  · have hnat : addInt (cInt t) n = cInt (t + n.toNat) := by
      rw [← addInt_cInt, Int.toNat_of_nonneg hpos]
    rw [if_pos hshort, if_pos hshort, hnat, Prog.pure_apply]
  · obtain rfl : n = data.length := by omega
    rw [if_neg hshort, if_neg hshort, transferPos_next hlen (by omega), Int.toNat_natCast,
      Prog.pure_apply]

/-- A pass that moves a whole chunk. -/
theorem writePiece_more {m : Nat} (h : writePiece s i f addr len t k = (.more m, k')) :
    t < len ∧ ∃ data,
      userBytes s.mm (s.procs i).pagetable (u64 (addr + t)) (min (len - t) 256) = some data ∧
        m = data.length ∧ (s.files.slot f).put t data k = (.ok (data.length : Int), k') := by
  rw [writePiece] at h
  split at h
  · cases h
  rename_i ht
  refine ⟨Nat.not_le.mp ht, ?_⟩
  split at h
  · cases h
  rename_i data hdata
  have hcount := userBytes_length hdata
  split at h
  · rename_i n k₁ hput
    obtain ⟨_, hle⟩ := OpenFile.put_count (by omega) hput
    split at h
    · cases h
    · cases h
      obtain rfl : n = data.length := by omega
      exact ⟨data, hdata, rfl, hput⟩
  · cases h
  · cases h

/-- A pass behind which nothing is left to do. -/
theorem writePiece_last {m : Nat} (h : writePiece s i f addr len t k = (.last m, k')) :
    (len ≤ t ∧ m = 0 ∧ k' = k) ∨ t < len ∧ ∃ data,
      userBytes s.mm (s.procs i).pagetable (u64 (addr + t)) (min (len - t) 256) = some data ∧
        m < data.length ∧ (s.files.slot f).put t data k = (.ok (m : Int), k') := by
  rw [writePiece] at h
  split at h
  · cases h
    exact Or.inl ⟨by assumption, rfl, rfl⟩
  rename_i ht
  refine Or.inr ⟨Nat.not_le.mp ht, ?_⟩
  split at h
  · cases h
  rename_i data hdata
  have hcount := userBytes_length hdata
  split at h
  · rename_i n k₁ hput
    obtain ⟨hpos, _⟩ := OpenFile.put_count (by omega) hput
    split at h
    · cases h
      refine ⟨data, hdata, by omega, ?_⟩
      rw [Int.toNat_of_nonneg hpos]
      exact hput
    · cases h
  · cases h
  · cases h

/-- A pass that fails has moved nothing. -/
theorem writePiece_failed {m : Nat} {e : Errno}
    (h : writePiece s i f addr len t k = (.failed m e, k')) :
    t < len ∧ m = 0 ∧
      ((userBytes s.mm (s.procs i).pagetable (u64 (addr + t)) (min (len - t) 256) = none ∧
          e = .fault ∧ k' = k) ∨
        ∃ data,
          userBytes s.mm (s.procs i).pagetable (u64 (addr + t)) (min (len - t) 256) = some data ∧
            (s.files.slot f).put t data k = (.err e, k')) := by
  rw [writePiece] at h
  split at h
  · cases h
  rename_i ht
  refine ⟨Nat.not_le.mp ht, ?_⟩
  split at h
  · rename_i hnone
    cases h
    exact ⟨rfl, Or.inl ⟨hnone, rfl, rfl⟩⟩
  rename_i data hdata
  split at h
  · split at h
    · cases h
    · cases h
  · rename_i hput
    cases h
    exact ⟨rfl, Or.inr ⟨data, hdata, hput⟩⟩
  · cases h

/-- A pass that does not come back. -/
theorem writePiece_lost (h : writePiece s i f addr len t k = (.lost, k')) :
    t < len ∧ ∃ data r,
      userBytes s.mm (s.procs i).pagetable (u64 (addr + t)) (min (len - t) 256) = some data ∧
        (s.files.slot f).put t data k = (r, k') ∧ (r = .fault ∨ r = .diverges) := by
  rw [writePiece] at h
  split at h
  · cases h
  rename_i ht
  refine ⟨Nat.not_le.mp ht, ?_⟩
  split at h
  · cases h
  rename_i data hdata
  split at h
  · split at h
    · cases h
    · cases h
  · cases h
  · rename_i r k₁ hok herr hput
    cases h
    refine ⟨data, r, hdata, hput, ?_⟩
    cases r with
    | ok n => exact absurd rfl (hok n)
    | err e => exact absurd rfl (herr e)
    | fault => exact Or.inl rfl
    | diverges => exact Or.inr rfl

theorem writeLoop_done (fuel : Nat) (ht : len ≤ t) :
    Prog.loop (writeChunk i f addr) fuel (transferPos len t) s = (.ok (transferPos len t), s) := by
  rw [transferPos, Nat.sub_eq_zero_of_le ht]
  exact writeLoop_zero fuel _ _ s

/-- The loop of `sys_write` over an open file is a transfer. -/
theorem writes_transfers (hlen : len < 18446744073709551616) :
    Transfers (writePiece s i f addr len) (writeChunk i f addr) (transferPos len) (s.moved f)
      (fun last => last.2.2) cInt len := by
  refine ⟨transferPos_count len, fun t k ht => by rw [writePiece, if_pos ht], ?_, ?_, ?_, ?_⟩
  · intro t m k k' hstep
    obtain ⟨ht, data, hdata, rfl, hput⟩ := writePiece_more hstep
    obtain ⟨hcount, _, _, hrun⟩ := writeChunk_put ht hlen hdata hput
    rw [if_neg (Int.lt_irrefl _), Int.toNat_natCast] at hrun
    exact ⟨by omega, by omega, hrun⟩
  · intro t m k k' hstep
    rcases writePiece_last hstep with ⟨ht, rfl, rfl⟩ | ⟨ht, data, hdata, hm, hput⟩
    · exact ⟨Nat.le_max_left _ _, fun fuel =>
        ⟨_, transferPos_count len t, writeLoop_done _ ht⟩⟩
    · obtain ⟨hcount, _, _, hrun⟩ := writeChunk_put ht hlen hdata hput
      rw [if_pos (Int.ofNat_lt.mpr hm), Int.toNat_natCast] at hrun
      refine ⟨by omega, fun fuel => ⟨(0, u64 t, cInt (t + m)), by dsimp only, ?_⟩⟩
      rw [Prog.loop, Prog.bind_ok hrun]
      exact writeLoop_zero fuel _ _ _
  · intro t m k k' e hstep
    obtain ⟨ht, rfl, hcase⟩ := writePiece_failed hstep
    refine ⟨Nat.le_max_left _ _, ?_⟩
    rw [writeChunk_moved ht hlen]
    rcases hcase with ⟨hnone, rfl, rfl⟩ | ⟨data, hdata, hput⟩
    · rw [hnone]
      rfl
    · have hwrite := fileWrite_moved s f t k data
      rw [hput] at hwrite
      rw [hdata]
      exact Prog.bind_err hwrite _
  · intro t k k' hstep
    obtain ⟨ht, data, r, hdata, hput, hr⟩ := writePiece_lost hstep
    have hwrite := fileWrite_moved s f t k data
    rw [hput] at hwrite
    rw [writeChunk_moved ht hlen, hdata]
    rcases hr with rfl | rfl
    · exact ⟨.fault, s.moved f t k', by simp only [bind, hwrite], id, id⟩
    · exact ⟨.diverges, s.moved f t k', by simp only [bind, hwrite], id, id⟩

end Write

section Count

theorem cInt_toNat_iff (t : Nat) : (cInt t).toNat = t ↔ t < 2147483648 := by
  have hlt : cInt t < 2147483648 := Int.bmod_lt (by decide)
  constructor
  · intro heq
    omega
  · intro ht
    rw [cInt_of_lt ht, Int.toNat_natCast]

theorem cInt_toNat_le (t : Nat) : (cInt t).toNat ≤ 2147483648 := by
  have hlt : cInt t < 2147483648 := Int.bmod_lt (by decide)
  omega

/-- The offset tells how far the transfer has come. -/
theorem Sys.moved_inj {n : Nat} (ht : t < 18446744073709551616) (hn : n < 18446744073709551616)
    (h : s.moved f t k = s.moved f n k') : n = t := by
  have hoff := congrArg (fun s : Sys => (s.files.slot f).off) h
  simp only [Sys.moved, Pool.setSlot_slot, ↓reduceIte, u64] at hoff
  omega

end Count

section Accounts

/-- The file system has taken the bytes `data`, in one write after the other from the offset
of `file` on, and nothing else. -/
inductive Puts (file : OpenFile) (k₀ : Kernel) : List UInt8 → Kernel → Prop
  | start : Puts file k₀ [] k₀
  | some {done piece : List UInt8} {n : Int} {k k' : Kernel} (h : Puts file k₀ done k)
      (hput : file.put done.length piece k = (.ok n, k')) : Puts file k₀ (done ++ piece.take n.toNat) k'
  | refused {done piece : List UInt8} {e : Errno} {k k' : Kernel} (h : Puts file k₀ done k)
      (hput : file.put done.length piece k = (.err e, k')) : Puts file k₀ done k'

/-- From `s` to `s'` exactly the first `count` bytes of the buffer have been written to the
open file, from its old offset on, and the offset has advanced by as much. -/
structure WroteFirst (s s' : Sys) (i f addr count : Nat) : Prop where
  state : s' = s.moved f count s'.fs
  bytes : ∃ data, userBytes s.mm (s.procs i).pagetable (u64 addr) count = some data ∧
    Puts (s.files.slot f) s.fs data s'.fs

/-- What the result of `sys_write` tells is what it has done. -/
def WriteAccounts (x : Sys × Tty) (fd i f addr len : Nat) : Prop :=
  ∀ r x', sysWrite fd addr len x = (r, x') →
    match r with
    | .ok n => x'.2 = x.2 ∧ WroteFirst x.1 x'.1 i f addr n.toNat
    | .err _ => x'.2 = x.2 ∧ WroteFirst x.1 x'.1 i f addr 0
    | _ => True

/-- What a chunk of the buffer adds to the bytes before it. -/
theorem userBytes_chunk {done piece : List UInt8} {pt c : Nat} {mm : Mm}
    (hdone : userBytes mm pt (u64 addr) t = some done)
    (hpiece : userBytes mm pt (u64 (addr + t)) c = some piece) {n : Nat} (hn : n ≤ c) :
    userBytes mm pt (u64 addr) (t + n) = some (done ++ piece.take n) := by
  have hva : u64 addr < 18446744073709551616 := Nat.mod_lt _ (by decide)
  have hva' : u64 (addr + t) < 18446744073709551616 := Nat.mod_lt _ (by decide)
  have hnext : u64 (u64 addr + t) = u64 (addr + t) := by
    simp only [u64]
    omega
  obtain ⟨rest, rfl⟩ := Nat.exists_eq_add_of_le hn
  rw [userBytes_add n rest hva'] at hpiece
  obtain ⟨first, hfirst, hrest⟩ := Option.bind_eq_some_iff.mp hpiece
  obtain ⟨tail, _, rfl⟩ := Option.map_eq_some_iff.mp hrest
  have hlen := userBytes_length hfirst
  rw [userBytes_add t n hva, hdone, Option.bind_some, hnext, hfirst, Option.map_some,
    List.take_append_of_le_length (by omega), List.take_of_length_le (by omega)]

theorem moved_puts (h : Moved (writePiece s i f addr len) s.fs t k) :
    ∃ data, userBytes s.mm (s.procs i).pagetable (u64 addr) t = some data ∧
      Puts (s.files.slot f) s.fs data k := by
  induction h with
  | start => exact ⟨[], rfl, .start⟩
  | @more t n k k' _ hstep ih =>
      obtain ⟨done, hdone, hputs⟩ := ih
      obtain ⟨_, piece, hpiece, rfl, hput⟩ := writePiece_more hstep
      have hcount := userBytes_length hpiece
      refine ⟨_, userBytes_chunk hdone hpiece (Nat.le_of_eq hcount), ?_⟩
      rw [← userBytes_length hdone] at hput
      have hsome := hputs.some hput
      rwa [Int.toNat_natCast] at hsome

theorem ended_puts (h : Ended (writePiece s i f addr len) s.fs none t k) :
    ∃ data, userBytes s.mm (s.procs i).pagetable (u64 addr) t = some data ∧
      Puts (s.files.slot f) s.fs data k := by
  cases h with
  | last h hstep =>
      obtain ⟨done, hdone, hputs⟩ := moved_puts h
      rcases writePiece_last hstep with ⟨_, rfl, rfl⟩ | ⟨_, piece, hpiece, hm, hput⟩
      · exact ⟨done, hdone, hputs⟩
      · have hcount := userBytes_length hpiece
        refine ⟨_, userBytes_chunk hdone hpiece (by omega), ?_⟩
        rw [← userBytes_length hdone] at hput
        have hsome := hputs.some hput
        rwa [Int.toNat_natCast] at hsome

theorem failed_puts {e : Errno} (h : Ended (writePiece s i f addr len) s.fs (some e) 0 k) :
    Puts (s.files.slot f) s.fs [] k := by
  generalize hzero : (0 : Nat) = t at h
  cases h with
  | failed h hstep =>
      obtain ⟨_, rfl, hcase⟩ := writePiece_failed hstep
      obtain ⟨done, hdone, hputs⟩ := moved_puts h
      have hnil : done = [] := by
        have hcount := userBytes_length hdone
        exact List.eq_nil_of_length_eq_zero (by omega)
      subst hnil
      rcases hcase with ⟨_, _, rfl⟩ | ⟨data, _, hput⟩
      · exact hputs
      · rw [← userBytes_length hdone] at hput
        exact hputs.refused hput

/-- `sys_write` accounts for what it has done exactly when no chunk but the first fails, and
fewer than 2^31 bytes are taken. -/
theorem sysWrite_accounts {tty : Tty} {fd : Nat} (hcur : s.current = some i) (hfd : fd < nofile)
    (hof : (s.procs i).ofile fd = some f) (hoff : (s.files.slot f).off < 18446744073709551616)
    (hlen : len < 18446744073709551616) :
    WriteAccounts (s, tty) fd i f addr len ↔
      Whole (writePiece s i f addr len) 2147483648 s.fs := by
  have hx := @writes_transfers s i f addr len hlen
  have hwhole := @Transfers.accounts_iff _ _ _ _ _ _ _ _ _ _ _ s.fs hx 2147483648
    (fun n s' => WroteFirst s s' i f addr n)
    (fun t _ => cInt_toNat_iff t) (fun t u h => ⟨rfl, ended_puts h⟩)
    (fun e u h => ⟨rfl, [], rfl, failed_puts h⟩) (fun e t u n h hgood hn => ?_) cInt_toNat_le
  · rw [transferPos_zero, Sys.moved_zero hoff] at hwhole
    rw [← hwhole, WriteAccounts]
    constructor
    · intro hcall r s' hrun
      have hfile : sysWriteFile i f addr len s = (r, s') := hrun
      have hresult := hcall _ _ (sysWrite_open hcur hfd hof)
      rw [hfile] at hresult
      cases r with
      | ok n => exact hresult.2
      | err e => exact hresult.2
      | fault => trivial
      | diverges => trivial
    · intro hfile r x' hcall
      rw [sysWrite_open hcur hfd hof] at hcall
      obtain ⟨rfl, rfl⟩ := Prod.mk.inj hcall
      cases hrun : sysWriteFile i f addr len s with
      | mk r s' =>
          have hresult := hfile r s' hrun
          cases r with
          | ok n => exact ⟨rfl, hresult⟩
          | err e => exact ⟨rfl, hresult⟩
          | fault => trivial
          | diverges => trivial
  · have hle := hx.ended_le h
    exact Sys.moved_inj (Nat.lt_of_le_of_lt hle hlen) (by omega) hgood.state

end Accounts

end OsAgentLab
