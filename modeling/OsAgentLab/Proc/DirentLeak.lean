/-
What `sys_getdents64` sends to the user depends on what the memory of `tmp` held
before: the bytes of a record behind the name are copied and never stored into.
-/
import OsAgentLab.Proc.Append
import OsAgentLab.Proc.Getdents

namespace OsAgentLab

variable {s : Sys} {pt va : Nat} {log : List UInt8}

section Records

variable {ent : VfsDirent} {off : Nat} {tmp : Nat → UInt8}

/-- The bytes of the record that are stored into: the fields and the name with its
zero. -/
def direntHead (ent : VfsDirent) (off : Nat) : List UInt8 :=
  (List.range (dNameOffset + (ent.name.length + 1))).map (fillDirent ent off fun _ => 0)

theorem fillDirent_of_lt {j : Nat} (h : j < dNameOffset + (ent.name.length + 1)) :
    fillDirent ent off tmp j = fillDirent ent off (fun _ => 0) j := by
  rw [dNameOffset] at h
  simp only [fillDirent, dNameOffset, overlay]
  repeat' split
  all_goals first | rfl | omega

/-- Behind the name the memory of `tmp` is left alone. -/
theorem fillDirent_of_le {j : Nat} (h : dNameOffset + (ent.name.length + 1) ≤ j) :
    fillDirent ent off tmp j = tmp j := by
  rw [dNameOffset] at h
  rw [fillDirent, overlay_of_not_mem (by rw [dNameOffset]; omega), overlay_of_not_mem (by omega),
    overlay_of_not_mem (by omega), overlay_of_not_mem (by omega), overlay_of_not_mem (by omega)]

/-- A record is longer than the bytes that are stored into. -/
theorem direntReclen_gt (n : Nat) : dNameOffset + (n + 1) < direntReclen n := by
  rw [direntReclen, linuxDirent64Size, dNameOffset]
  by_cases h : (24 + n + 1) % 8 ≠ 0
  · simp only [if_pos h]
    omega
  · simp only [if_neg h]
    omega

/-- The bytes that one record sends, and the rest of `tmp` among them. -/
theorem record_eq (ent : VfsDirent) (off : Nat) (tmp : Nat → UInt8) :
    ∃ t, (List.range (direntReclen ent.name.length)).map (fillDirent ent off tmp) =
        direntHead ent off ++ tmp (dNameOffset + (ent.name.length + 1)) :: t := by
  have hgt := direntReclen_gt ent.name.length
  generalize hn : dNameOffset + (ent.name.length + 1) = n at hgt
  obtain ⟨d, hd⟩ : ∃ d, direntReclen ent.name.length = n + (d + 1) :=
    ⟨direntReclen ent.name.length - n - 1, by omega⟩
  refine ⟨(List.range d).map fun i => fillDirent ent off tmp (n + (i + 1)), ?_⟩
  rw [hd, List.range_add, List.map_append, List.map_map, List.range_succ_eq_map, List.map_cons,
    List.map_map, direntHead, hn]
  congr 1
  · refine List.map_congr_left fun j hj => fillDirent_of_lt ?_
    rw [hn]
    exact List.mem_range.mp hj
  · change fillDirent ent off tmp (n + 0) :: _ = _
    rw [Nat.add_zero, fillDirent_of_le (Nat.le_of_eq hn)]
    rfl

end Records

section Sending

/-- What has been sent stays sent. -/
def Sent (log : List UInt8) (t : Sys × List UInt8) : Prop := log <+: t.2

theorem notSent_sent {α : Type} (m : SysM α) : Prog.Keeps (Sent log) (notSent m) :=
  Prog.Keeps.zoom fun _ _ h => h

theorem sendPass_sent (pos : Nat × List UInt8) : Prog.Keeps (Sent log) (sendPass pt pos) :=
  Prog.Keeps.bind (notSent_sent _) fun _ =>
    Prog.Keeps.bind (Prog.Keeps.modify fun _ h => h.trans (List.prefix_append _ _)) fun _ =>
      Prog.Keeps.pure _

theorem sendout_sent (src : List UInt8) : Prog.Keeps (Sent log) (sendout pt va src) :=
  Prog.Keeps.bind (Prog.Keeps.loop (fun pos => sendPass_sent pos) _ _) fun _ => Prog.Keeps.pure _

theorem Prog.Keeps.state {σ ε α : Type} {I : σ → Prop} {m : Prog σ ε α} (h : Prog.Keeps I m)
    {t : σ} (ht : I t) : I (m t).2 := by
  have hpost := h t ht
  split at hpost <;> next hrun => rw [hrun]; exact hpost

/-- What a call has sent is not lost by the calls behind it. -/
theorem sent_bind {α β : Type} {m : SentM α} {f : α → SentM β} {t : Sys × List UInt8}
    (h : Sent log (m t).2) (hf : ∀ a, Prog.Keeps (Sent log) (f a)) : Sent log ((m >>= f) t).2 := by
  simp only [bind]
  cases hm : m t with
  | mk r t' =>
      rw [hm] at h
      cases r with
      | ok a => exact (hf a).state h
      | err e => exact h
      | fault => exact h
      | diverges => exact h

theorem orElse_snd {σ ε α : Type} (m : Prog σ ε α) (e : ε) (t : σ) :
    (Prog.orElse m e t).2 = (m t).2 := by
  simp only [Prog.orElse]
  cases m t with
  | mk r t' => cases r <;> rfl

/-- A pass that finds its page sends the bytes up to its end. -/
theorem sendPass_ok {src : List UInt8} {n : Nat} (hsrc : src ≠ [])
    (hpa : userPa s.mm pt va ≠ 0) (hn : min (4096 - va % 4096) src.length = n) :
    sendPass pt (va, src) (s, log) = (.ok (some (u64 (va + n), src.drop n)),
      ({ s with mm := s.mm.storeAt (userPa s.mm pt va) n src }, log ++ src.take n)) := by
  have hrun : notSent (onMm (copyoutPass pt (va, src))) (s, log) =
      (.ok (some (u64 (va + n), src.drop n)),
        ({ s with mm := s.mm.storeAt (userPa s.mm pt va) n src }, log)) :=
    Prog.zoom_apply (Prog.zoom_apply (copyoutPass_ok hsrc hpa hn))
  have hlen : src.length - (src.drop n).length = n := by
    rw [List.length_drop]
    omega
  rw [sendPass, Prog.bind_ok hrun, Prog.modify_bind, Prog.pure_apply, Option.elim_some]
  change (_, (_, log ++ src.take (src.length - (src.drop n).length))) = _
  rw [hlen]

theorem sendPass_err {src : List UInt8} (hsrc : src ≠ []) (hpa : userPa s.mm pt va = 0) :
    sendPass pt (va, src) (s, log) = (.err .fault, (s, log)) := by
  have hrun : notSent (onMm (copyoutPass pt (va, src))) (s, log) = (.err .fault, (s, log)) :=
    Prog.zoom_apply (Prog.zoom_apply (copyoutPass_err hsrc hpa))
  rw [sendPass, Prog.bind_err hrun]

theorem sendPass_nil : sendPass pt (va, []) (s, log) = (.ok none, (s, log)) := by
  have hrun : notSent (onMm (copyoutPass pt (va, []))) (s, log) = (.ok none, (s, log)) := rfl
  rw [sendPass, Prog.bind_ok hrun, Prog.modify_bind, Prog.pure_apply]
  change (_, (s, log ++ [])) = _
  rw [List.append_nil]

/-- The passes store what those of `copyout` store and end like them. -/
theorem sendLoop_erase (fuel : Nat) (pos : Nat × List UInt8) (s : Sys) (log : List UInt8) :
    ∃ log', Prog.loop (sendPass pt) fuel pos (s, log) =
      ((Prog.loop (copyoutPass pt) fuel pos s.mm).1,
        ({ s with mm := (Prog.loop (copyoutPass pt) fuel pos s.mm).2 }, log')) := by
  induction fuel generalizing pos s log with
  | zero => exact ⟨log, rfl⟩
  | succ fuel ih =>
      obtain ⟨va, src⟩ := pos
      by_cases hsrc : src = []
      · subst hsrc
        refine ⟨log, ?_⟩
        rw [Prog.loop, Prog.bind_ok sendPass_nil]
        rfl
      by_cases hpa : userPa s.mm pt va = 0
      · refine ⟨log, ?_⟩
        rw [Prog.loop, Prog.bind_err (sendPass_err hsrc hpa), Prog.loop,
          Prog.bind_err (copyoutPass_err hsrc hpa)]
      · generalize hn : min (4096 - va % 4096) src.length = n
        obtain ⟨log', hrun⟩ := ih (u64 (va + n), src.drop n)
          { s with mm := s.mm.storeAt (userPa s.mm pt va) n src } (log ++ src.take n)
        refine ⟨log', ?_⟩
        rw [Prog.loop, Prog.bind_ok (sendPass_ok hsrc hpa hn), Option.elim_some, hrun,
          Prog.loop, Prog.bind_ok (copyoutPass_ok hsrc hpa hn), Option.elim_some]

/-- `sendout` is `copyout` with a note of what was stored. -/
theorem sendout_erase (pt va : Nat) (src : List UInt8) (s : Sys) (log : List UInt8) :
    ∃ log', sendout pt va src (s, log) =
      ((copyout pt va src s.mm).1, ({ s with mm := (copyout pt va src s.mm).2 }, log')) := by
  obtain ⟨log', hrun⟩ := @sendLoop_erase pt src.length (va, src) s log
  refine ⟨log', ?_⟩
  rw [sendout, copyout]
  cases hloop : Prog.loop (copyoutPass pt) src.length (va, src) s.mm with
  | mk r mm =>
      rw [hloop] at hrun
      cases r with
      | ok a => rw [Prog.bind_ok hrun, Prog.bind_ok hloop, Prog.pure_apply, Prog.pure_apply]
      | err e => rw [Prog.bind_err hrun, Prog.bind_err hloop]
      | fault => simp only [bind, hrun, hloop]
      | diverges => simp only [bind, hrun, hloop]

/-- Bytes `h` with more behind them: either all runs fail in the same way before the
first byte behind `h`, or `h` and that byte are sent in each. -/
theorem sendLoop_or (h : List UInt8) (va : Nat) (s : Sys) (log : List UInt8) :
    (∃ t₁, ∀ t fuel, t ≠ [] → (h ++ t).length ≤ fuel →
      Prog.loop (sendPass pt) fuel (va, h ++ t) (s, log) = (.err .fault, t₁)) ∨
    ∀ x t fuel, (h ++ x :: t).length ≤ fuel →
      Sent (log ++ h ++ [x]) (Prog.loop (sendPass pt) fuel (va, h ++ x :: t) (s, log)).2 ∧
      (t = [] → (Prog.loop (sendPass pt) fuel (va, h ++ x :: t) (s, log)).1.IsOk) := by
  induction hm : h.length using Nat.strong_induction_on generalizing h va s log with
  | _ m ih =>
  subst hm
  by_cases hpa : userPa s.mm pt va = 0
  · refine Or.inl ⟨(s, log), fun t fuel ht hfuel => ?_⟩
    have hne : h ++ t ≠ [] := fun hnil => ht (List.append_eq_nil_iff.mp hnil).2
    obtain ⟨fuel, rfl⟩ := Nat.exists_eq_succ_of_ne_zero
      (show fuel ≠ 0 from fun h0 => hne (List.length_eq_zero_iff.mp (by omega)))
    rw [Prog.loop, Prog.bind_err (sendPass_err hne hpa)]
  generalize hpl : 4096 - va % 4096 = pl
  have hpos : 0 < pl := by omega
  by_cases hle : pl ≤ h.length
  · -- the page ends within `h`, so that the pass does not depend on what follows
    obtain ⟨s₁, hs₁⟩ : ∃ s₁ : Sys,
        s₁ = { s with mm := s.mm.storeAt (userPa s.mm pt va) pl h } := ⟨_, rfl⟩
    have hpass : ∀ t, sendPass pt (va, h ++ t) (s, log) =
        (.ok (some (u64 (va + pl), h.drop pl ++ t)), (s₁, log ++ h.take pl)) := by
      intro t
      have hne : h ++ t ≠ [] := by
        intro hnil
        rw [(List.append_eq_nil_iff.mp hnil).1, List.length_nil] at hle
        omega
      have hmin : min (4096 - va % 4096) (h ++ t).length = pl := by
        rw [List.length_append]
        omega
      have hstore : s.mm.storeAt (userPa s.mm pt va) pl (h ++ t) =
          s.mm.storeAt (userPa s.mm pt va) pl h := by
        simp only [Mm.storeAt]
        congr 1
        funext k
        refine if_ctx_congr Iff.rfl (fun hk => ?_) fun _ => rfl
        exact List.getD_append _ _ _ _ (by omega)
      rw [sendPass_ok hne hpa hmin, hstore, List.drop_append_of_le_length hle,
        List.take_append_of_le_length hle, hs₁]
    have hdrop : (h.drop pl).length < h.length := by
      rw [List.length_drop]
      omega
    have hlog : log ++ h.take pl ++ h.drop pl = log ++ h := by
      rw [List.append_assoc, List.take_append_drop]
    have hstep : ∀ t fuel, t ≠ [] → (h ++ t).length ≤ fuel →
        ∃ fuel', (h.drop pl ++ t).length ≤ fuel' ∧
          Prog.loop (sendPass pt) fuel (va, h ++ t) (s, log) =
            Prog.loop (sendPass pt) fuel' (u64 (va + pl), h.drop pl ++ t)
              (s₁, log ++ h.take pl) := by
      intro t fuel ht hfuel
      rw [List.length_append] at hfuel
      obtain ⟨fuel, rfl⟩ := Nat.exists_eq_succ_of_ne_zero (show fuel ≠ 0 by omega)
      refine ⟨fuel, ?_, ?_⟩
      · rw [List.length_append]
        omega
      · rw [Prog.loop, Prog.bind_ok (hpass t), Option.elim_some]
    rcases ih _ hdrop (h.drop pl) (u64 (va + pl)) s₁ (log ++ h.take pl) rfl with
      ⟨t₁, hfails⟩ | hsends
    · refine Or.inl ⟨t₁, fun t fuel ht hfuel => ?_⟩
      obtain ⟨fuel', hfuel', hloop⟩ := hstep t fuel ht hfuel
      exact hloop.trans (hfails t fuel' ht hfuel')
    · refine Or.inr fun x t fuel hfuel => ?_
      obtain ⟨fuel', hfuel', hloop⟩ := hstep (x :: t) fuel (List.cons_ne_nil x t) hfuel
      rw [hloop, ← hlog]
      exact hsends x t fuel' hfuel'
  · refine Or.inr fun x t fuel hfuel => ?_
    have hne : h ++ x :: t ≠ [] := by simp
    obtain ⟨n, hn⟩ : ∃ n, min (4096 - va % 4096) (h ++ x :: t).length = h.length + (n + 1) := by
      refine ⟨min (4096 - va % 4096) (h ++ x :: t).length - h.length - 1, ?_⟩
      rw [List.length_append, List.length_cons]
      omega
    obtain ⟨fuel, rfl⟩ := Nat.exists_eq_succ_of_ne_zero (show fuel ≠ 0 from fun h0 =>
      hne (List.length_eq_zero_iff.mp (by omega)))
    rw [Prog.loop, Prog.bind_ok (sendPass_ok hne hpa hn), Option.elim_some,
      List.take_length_add_append, List.take_succ_cons]
    refine ⟨?_, fun ht => ?_⟩
    · refine Prog.Keeps.state (Prog.Keeps.loop (fun pos => sendPass_sent pos) _ _) ?_
      refine ⟨t.take n, ?_⟩
      simp only [List.append_assoc, List.cons_append, List.nil_append]
    · subst ht
      have hnil : (h ++ [x]).drop (h.length + (n + 1)) = [] := by simp
      rw [hnil]
      cases fuel with
      | zero => exact trivial
      | succ fuel =>
          rw [Prog.loop, Prog.bind_ok sendPass_nil]
          exact trivial

variable {ent : VfsDirent} {off : Nat}

/-- The bytes of one record, with the first byte behind the name set apart. -/
theorem sendRecord_loop (tmp : Nat → UInt8) (s : Sys) (log : List UInt8) :
    ∃ t fuel, (direntHead ent off ++ tmp (dNameOffset + (ent.name.length + 1)) :: t).length ≤ fuel ∧
      sendout pt va ((List.range (direntReclen ent.name.length)).map (fillDirent ent off tmp))
        (s, log) =
      (Prog.loop (sendPass pt) fuel
        (va, direntHead ent off ++ tmp (dNameOffset + (ent.name.length + 1)) :: t) >>=
          fun _ => (pure () : SentM Unit)) (s, log) := by
  obtain ⟨t, ht⟩ := record_eq ent off tmp
  exact ⟨t, _, Nat.le_refl _, by rw [sendout, ht]⟩

theorem bind_pure_isOk {σ ε α : Type} {m : Prog σ ε α} {t : σ} :
    ((m >>= fun _ => (pure () : Prog σ ε Unit)) t).1.IsOk ↔ (m t).1.IsOk := by
  simp only [bind]
  cases m t with
  | mk r t' => cases r <;> exact Iff.rfl

/-- What copying the stored bytes and one more into user memory says of a record. -/
theorem sendRecord_or (s : Sys) (log : List UInt8) :
    (¬ (copyout pt va (direntHead ent off ++ [0]) s.mm).1.IsOk ∧
      ∃ t₁, ∀ tmp, sendout pt va
        ((List.range (direntReclen ent.name.length)).map (fillDirent ent off tmp)) (s, log) =
          (.err .fault, t₁)) ∨
    ((copyout pt va (direntHead ent off ++ [0]) s.mm).1.IsOk ∧
      ∀ tmp, Sent (log ++ direntHead ent off ++ [tmp (dNameOffset + (ent.name.length + 1))])
        (sendout pt va
          ((List.range (direntReclen ent.name.length)).map (fillDirent ent off tmp)) (s, log)).2) := by
  obtain ⟨log', hcopy⟩ := sendout_erase pt va (direntHead ent off ++ [0]) s log
  have hone : (copyout pt va (direntHead ent off ++ [0]) s.mm).1.IsOk ↔
      (Prog.loop (sendPass pt) (direntHead ent off ++ [0]).length
        (va, direntHead ent off ++ [0]) (s, log)).1.IsOk := by
    rw [show (copyout pt va (direntHead ent off ++ [0]) s.mm).1 =
      (sendout pt va (direntHead ent off ++ [0]) (s, log)).1 by rw [hcopy], sendout]
    exact bind_pure_isOk
  rcases @sendLoop_or pt (direntHead ent off) va s log with ⟨t₁, hfails⟩ | hsends
  · refine Or.inl ⟨fun hok => ?_, t₁, fun tmp => ?_⟩
    · rw [hone, hfails [0] _ (by simp) (Nat.le_refl _)] at hok
      exact hok
    · obtain ⟨t, fuel, hfuel, hrun⟩ := @sendRecord_loop pt va ent off tmp s log
      rw [hrun, Prog.bind_err (hfails _ fuel (List.cons_ne_nil _ _) hfuel)]
  · refine Or.inr ⟨hone.mpr ((hsends 0 [] _ (Nat.le_refl _)).2 rfl), fun tmp => ?_⟩
    obtain ⟨t, fuel, hfuel, hrun⟩ := @sendRecord_loop pt va ent off tmp s log
    rw [hrun]
    have hsent := (hsends _ t fuel hfuel).1
    cases hloop : Prog.loop (sendPass pt) fuel
        (va, direntHead ent off ++ tmp (dNameOffset + (ent.name.length + 1)) :: t) (s, log) with
    | mk r t' =>
        rw [hloop] at hsent
        simp only [bind, hloop]
        cases r <;> exact hsent

end Sending

section Getdents

variable {fd dirp count i f vn : Nat} {ent : VfsDirent} {k : Kernel}

/-- The bytes that a call sends are the same whatever the memory of `tmp` held before. -/
def DentsSound (s : Sys) (fd dirp count : Nat) : Prop :=
  ∀ tmp tmp', (sysGetdents64 tmp fd dirp count (s, [])).2.2 =
    (sysGetdents64 tmp' fd dirp count (s, [])).2.2

/-- The descriptor is a directory, and the current process has it open. -/
structure OpenDir (s : Sys) (fd i f vn : Nat) : Prop where
  current : s.current = some i
  lt : fd < nofile
  ofile : (s.procs i).ofile fd = some f
  vnode : (s.files.slot f).vn = some vn
  type : (s.fs.vnode vn).type = .dir

/-- A record is copied as far as the first byte behind its name: an entry is delivered,
its record fits into `count` and into `tmp`, and user memory takes these bytes. -/
structure RecordCopied (s : Sys) (fd dirp count : Nat) (i f vn : Nat) (ent : VfsDirent) :
    Prop where
  opened : OpenDir s fd i f vn
  room : linuxDirent64Size + 1 < count
  entry : (vfsReaddir (some vn) (s.files.slot f).off s.fs).1 = .ok ent
  fits : direntReclen ent.name.length ≤ count
  small : direntReclen ent.name.length ≤ direntTmpSize
  mapped : (copyout (s.procs i).pagetable (u64 dirp)
    (direntHead ent (s.files.slot f).off ++ [0]) s.mm).1.IsOk

/-- The whole call on an open directory is its loop. -/
theorem OpenDir.sysGetdents64 (h : OpenDir s fd i f vn) (tmp : Nat → UInt8) :
    sysGetdents64 tmp fd dirp count (s, []) =
      (do
        let last ← Prog.loop (getdentsPass i dirp count (some vn)) count
          (0, (s.files.slot f).off, tmp)
        notSent (storeOff f last.2.1)
        pure (cInt last.1) : SentM Int) (s, []) := by
  have hcur : notSent (procCurrent .badf) (s, []) = (.ok i, (s, [])) := by
    refine Prog.zoom_apply ?_
    rw [procCurrent, h.current]
  have hfile : notSent (ofileOf i fd) (s, []) = (.ok f, (s, [])) := by
    refine Prog.zoom_apply ?_
    rw [ofileOf, if_neg (Nat.not_le_of_lt h.lt), h.ofile]
  rw [OsAgentLab.sysGetdents64, Prog.bind_ok hcur, Prog.bind_ok hfile, Prog.get_bind]
  dsimp only
  rw [h.vnode]
  dsimp only
  rw [if_neg (not_not.mpr h.type)]

/-- Without an open directory nothing is sent. -/
theorem sysGetdents64_closed (h : ¬ ∃ i f vn, OpenDir s fd i f vn) :
    ∃ t₁, ∀ tmp, sysGetdents64 tmp fd dirp count (s, []) = t₁ := by
  cases hcur : s.current with
  | none =>
      have hrun : notSent (procCurrent .badf) (s, []) = (.err .badf, (s, [])) := by
        refine Prog.zoom_apply ?_
        rw [procCurrent, hcur]
      exact ⟨_, fun tmp => by rw [sysGetdents64, Prog.bind_err hrun]⟩
  | some i =>
      have hrun : notSent (procCurrent .badf) (s, []) = (.ok i, (s, [])) := by
        refine Prog.zoom_apply ?_
        rw [procCurrent, hcur]
      cases hfile : ofileOf i fd s with
      | mk r s' =>
          have hrun' : notSent (ofileOf i fd) (s, []) = (r, (s', [])) := Prog.zoom_apply hfile
          cases r with
          | err e =>
              exact ⟨_, fun tmp => by
                rw [sysGetdents64, Prog.bind_ok hrun, Prog.bind_err hrun']⟩
          | fault => exact ⟨(.fault, (s', [])), fun tmp => by
              rw [sysGetdents64, Prog.bind_ok hrun]
              simp only [bind, hrun']⟩
          | diverges => exact ⟨(.diverges, (s', [])), fun tmp => by
              rw [sysGetdents64, Prog.bind_ok hrun]
              simp only [bind, hrun']⟩
          | ok f =>
              obtain ⟨hlt, hofile, rfl⟩ : fd < nofile ∧ (s.procs i).ofile fd = some f ∧ s' = s := by
                rw [ofileOf] at hfile
                by_cases hlt : nofile ≤ fd
                · rw [if_pos hlt] at hfile
                  cases hfile
                · rw [if_neg hlt] at hfile
                  cases hofile : (s.procs i).ofile fd with
                  | none =>
                      rw [hofile] at hfile
                      cases hfile
                  | some f' =>
                      rw [hofile] at hfile
                      cases hfile
                      exact ⟨Nat.lt_of_not_le hlt, rfl, rfl⟩
              refine ⟨(.err .notdir, (s', [])), fun tmp => ?_⟩
              rw [sysGetdents64, Prog.bind_ok hrun, Prog.bind_ok hrun', Prog.get_bind]
              dsimp only
              cases hvn : (s'.files.slot f).vn with
              | none => exact Prog.fail_apply _ _
              | some vn =>
                  dsimp only
                  rw [if_pos fun htype => h ⟨i, f, vn, hcur, hlt, hofile, hvn, htype⟩,
                    Prog.fail_apply]

theorem getdentsPass_sent (vn : Option Nat) (pos : Nat × Nat × (Nat → UInt8)) :
    Prog.Keeps (Sent log) (getdentsPass i dirp count vn pos) := by
  obtain ⟨written, off, tmp⟩ := pos
  refine Prog.Keeps.ite (Prog.Keeps.bind (Prog.Keeps.attempt (notSent_sent _)) fun r => ?_)
    (Prog.Keeps.pure _)
  cases r with
  | error e => exact Prog.Keeps.pure _
  | ok ent =>
      refine Prog.Keeps.ite (Prog.Keeps.pure _) (Prog.Keeps.ite (Prog.Keeps.fail _) ?_)
      refine Prog.Keeps.get_bind fun t => ?_
      exact Prog.Keeps.bind (Prog.Keeps.orElse (sendout_sent _)) fun _ => Prog.Keeps.pure _

theorem u64_first : u64 (0 + linuxDirent64Size + 1) = linuxDirent64Size + 1 := by decide

/-- The end of the first pass, which copies the record of an entry. -/
def firstRecord (pt dirp : Nat) (ent : VfsDirent) (off : Nat) (tmp : Nat → UInt8) :
    SentM (Option (Nat × Nat × (Nat → UInt8))) := do
  Prog.orElse (sendout pt (u64 dirp)
    ((List.range (direntReclen ent.name.length)).map (fillDirent ent off tmp))) .fault
  pure (some (u64 (direntReclen ent.name.length), u64 (off + 1), fillDirent ent off tmp))

/-- The first pass when an entry is delivered. -/
theorem getdentsPass_entry {off : Nat} (hroom : linuxDirent64Size + 1 < count)
    (hentry : vfsReaddir (some vn) off s.fs = (.ok ent, k)) (tmp : Nat → UInt8) :
    getdentsPass i dirp count (some vn) (0, off, tmp) (s, []) =
      (if count < u64 (direntReclen ent.name.length) then pure none
      else if direntTmpSize < direntReclen ent.name.length then Prog.fail .inval
      else firstRecord (s.procs i).pagetable dirp ent off tmp) ({ s with fs := k }, []) := by
  have hrun : Prog.attempt (notSent (onFs (vfsReaddir (some vn) off))) (s, []) =
      (.ok (.ok ent), ({ s with fs := k }, [])) :=
    Prog.attempt_ok (Prog.zoom_apply (Prog.zoom_apply hentry))
  have hfirst : u64 (0 + linuxDirent64Size + 1) < count := by rwa [u64_first]
  simp only [getdentsPass]
  rw [if_pos hfirst, Prog.bind_ok hrun]
  simp only [Nat.zero_add, Nat.add_zero]
  by_cases hfits : count < u64 (direntReclen ent.name.length)
  · rw [if_pos hfits, if_pos hfits]
  rw [if_neg hfits, if_neg hfits]
  by_cases hsmall : direntTmpSize < direntReclen ent.name.length
  · rw [if_pos hsmall, if_pos hsmall]
  rw [if_neg hsmall, if_neg hsmall]
  have hpt : ∀ pt, pt = (s.procs i).pagetable → firstRecord pt dirp ent off tmp
      ({ s with fs := k }, []) = firstRecord (s.procs i).pagetable dirp ent off tmp
        ({ s with fs := k }, []) := by
    rintro _ rfl
    rfl
  exact (Prog.get_bind _ _).trans (hpt _ rfl)

theorem RecordCopied.sent (h : RecordCopied s fd dirp count i f vn ent) (tmp : Nat → UInt8) :
    Sent (direntHead ent (s.files.slot f).off ++ [tmp (dNameOffset + (ent.name.length + 1))])
      (sysGetdents64 tmp fd dirp count (s, [])).2 := by
  obtain ⟨k, hentry⟩ : ∃ k, vfsReaddir (some vn) (s.files.slot f).off s.fs = (.ok ent, k) :=
    ⟨_, Prod.ext h.entry rfl⟩
  have hsmall : direntReclen ent.name.length < 18446744073709551616 :=
    Nat.lt_of_le_of_lt h.small (by decide)
  have hcount : count ≠ 0 := fun h0 => absurd h.room (by omega)
  obtain ⟨n, rfl⟩ := Nat.exists_eq_succ_of_ne_zero hcount
  rw [h.opened.sysGetdents64]
  refine sent_bind ?_ fun last => Prog.Keeps.bind (notSent_sent _) fun _ => Prog.Keeps.pure _
  rw [Prog.loop]
  refine sent_bind ?_ fun next => Prog.Keeps.elim (Prog.Keeps.pure _) fun next =>
    Prog.Keeps.loop (fun pos => getdentsPass_sent _ pos) _ _
  rw [getdentsPass_entry h.room hentry, if_neg (by rw [u64_of_lt hsmall]; exact not_lt.mpr h.fits),
    if_neg (not_lt.mpr h.small), firstRecord]
  refine sent_bind ?_ fun _ => Prog.Keeps.pure _
  rw [orElse_snd]
  rcases @sendRecord_or (s.procs i).pagetable (u64 dirp) ent (s.files.slot f).off
      { s with fs := k } [] with ⟨hbad, _⟩ | ⟨_, hsent⟩
  · exact absurd h.mapped hbad
  · exact hsent tmp

/-- A first pass that copies no record does not read the memory of `tmp` and is the
last one. -/
theorem getdentsPass_same (hopen : OpenDir s fd i f vn)
    (h : ¬ ∃ ent, RecordCopied s fd dirp count i f vn ent) :
    ∃ r t₁, (∀ tmp, getdentsPass i dirp count (some vn) (0, (s.files.slot f).off, tmp) (s, []) =
      (r, t₁)) ∧ ∀ x, r ≠ .ok (some x) := by
  by_cases hroom : linuxDirent64Size + 1 < count
  · cases hentry : vfsReaddir (some vn) (s.files.slot f).off s.fs with
    | mk r k =>
        have hrun : onFs (vfsReaddir (some vn) (s.files.slot f).off) s = (r, { s with fs := k }) :=
          Prog.zoom_apply hentry
        have hrun' : notSent (onFs (vfsReaddir (some vn) (s.files.slot f).off)) (s, []) =
            (r, ({ s with fs := k }, [])) := Prog.zoom_apply hrun
        have hfirst : u64 (0 + linuxDirent64Size + 1) < count := by rwa [u64_first]
        cases r with
        | err e =>
            refine ⟨.ok none, ({ s with fs := k }, []), fun tmp => ?_, fun _ h => by cases h⟩
            simp only [getdentsPass]
            rw [if_pos hfirst, Prog.bind_ok (Prog.attempt_err hrun')]
            rfl
        | fault =>
            refine ⟨.fault, ({ s with fs := k }, []), fun tmp => ?_, fun _ h => by cases h⟩
            simp only [getdentsPass]
            rw [if_pos hfirst]
            simp only [bind, Prog.attempt, hrun']
        | diverges =>
            refine ⟨.diverges, ({ s with fs := k }, []), fun tmp => ?_, fun _ h => by cases h⟩
            simp only [getdentsPass]
            rw [if_pos hfirst]
            simp only [bind, Prog.attempt, hrun']
        | ok ent =>
            by_cases hfits : count < u64 (direntReclen ent.name.length)
            · exact ⟨.ok none, ({ s with fs := k }, []), fun tmp => by
                rw [getdentsPass_entry hroom hentry, if_pos hfits, Prog.pure_apply], fun _ h => by cases h⟩
            by_cases hsmall : direntTmpSize < direntReclen ent.name.length
            · exact ⟨.err .inval, ({ s with fs := k }, []), fun tmp => by
                rw [getdentsPass_entry hroom hentry, if_neg hfits, if_pos hsmall,
                  Prog.fail_apply], fun _ h => by cases h⟩
            have hlt : direntReclen ent.name.length < 18446744073709551616 :=
              Nat.lt_of_le_of_lt (not_lt.mp hsmall) (by decide)
            rcases @sendRecord_or (s.procs i).pagetable (u64 dirp) ent (s.files.slot f).off
                { s with fs := k } [] with ⟨_, t₁, hfails⟩ | ⟨hok, _⟩
            · exact ⟨.err .fault, t₁, fun tmp => by
                rw [getdentsPass_entry hroom hentry, if_neg hfits, if_neg hsmall, firstRecord,
                  Prog.bind_err (Prog.orElse_err (hfails tmp) _)], fun _ h => by cases h⟩
            · rw [u64_of_lt hlt] at hfits
              exact absurd ⟨ent, hopen, hroom, by rw [hentry], not_lt.mp hfits,
                not_lt.mp hsmall, hok⟩ h
  · refine ⟨.ok none, (s, []), fun tmp => ?_, fun _ h => by cases h⟩
    have hfirst : ¬ u64 (0 + linuxDirent64Size + 1) < count := by rwa [u64_first]
    simp only [getdentsPass]
    rw [if_neg hfirst, Prog.pure_apply]

/-- A call that copies no record does not read the memory of `tmp`. -/
theorem sysGetdents64_same (h : ¬ ∃ i f vn ent, RecordCopied s fd dirp count i f vn ent) :
    ∃ t₁, ∀ tmp, sysGetdents64 tmp fd dirp count (s, []) = t₁ := by
  by_cases hopen : ∃ i f vn, OpenDir s fd i f vn
  · obtain ⟨i, f, vn, hopen⟩ := hopen
    cases count with
    | zero =>
        refine ⟨(do
          notSent (storeOff f (s.files.slot f).off)
          pure (cInt 0) : SentM Int) (s, []), fun tmp => ?_⟩
        rw [hopen.sysGetdents64]
        rfl
    | succ n =>
        obtain ⟨r, t₁, hpass, hr⟩ := getdentsPass_same hopen fun ⟨ent, hcopied⟩ =>
          h ⟨i, f, vn, ent, hcopied⟩
        cases r with
        | ok next =>
            cases next with
            | some x => exact absurd rfl (hr x)
            | none =>
                refine ⟨(do
                  notSent (storeOff f (s.files.slot f).off)
                  pure (cInt 0) : SentM Int) t₁, fun tmp => ?_⟩
                have hloop : Prog.loop (getdentsPass i dirp (n + 1) (some vn)) (n + 1)
                    (0, (s.files.slot f).off, tmp) (s, []) =
                      (.ok (0, (s.files.slot f).off, tmp), t₁) := by
                  rw [Prog.loop, Prog.bind_ok (hpass tmp)]
                  rfl
                rw [hopen.sysGetdents64, Prog.bind_ok hloop]
        | err e =>
            refine ⟨(.err e, t₁), fun tmp => ?_⟩
            rw [hopen.sysGetdents64, Prog.bind_err]
            rw [Prog.loop, Prog.bind_err (hpass tmp)]
        | fault =>
            refine ⟨(.fault, t₁), fun tmp => ?_⟩
            rw [hopen.sysGetdents64, Prog.loop]
            simp only [bind, hpass tmp]
        | diverges =>
            refine ⟨(.diverges, t₁), fun tmp => ?_⟩
            rw [hopen.sysGetdents64, Prog.loop]
            simp only [bind, hpass tmp]
  · exact sysGetdents64_closed hopen

/-- The bytes that go to the user are independent of the memory of `tmp` exactly when no
record is copied: each record ends in bytes that are never stored into. -/
theorem getdents64_sound_iff (s : Sys) (fd dirp count : Nat) :
    DentsSound s fd dirp count ↔
      ¬ ∃ i f vn ent, RecordCopied s fd dirp count i f vn ent := by
  refine ⟨fun h => ?_, fun h tmp tmp' => ?_⟩
  · rintro ⟨i, f, vn, ent, hcopied⟩
    have hzero := hcopied.sent fun _ => 0
    have hone := hcopied.sent fun _ => 1
    rw [Sent, h (fun _ => 0) fun _ => 1] at hzero
    have hlast := List.prefix_of_prefix_length_le hzero hone (Nat.le_of_eq (by
      rw [List.length_append, List.length_append]
      rfl))
    have hsame := List.append_cancel_left (hlast.eq_of_length (by
      rw [List.length_append, List.length_append]
      rfl))
    exact absurd hsame (by decide)
  · obtain ⟨t₁, hsame⟩ := sysGetdents64_same h
    rw [hsame tmp, hsame tmp']

/-- A process that has the root directory open on descriptor 3. -/
def listingSys : Sys :=
  { appendSys with
    files := ⟨fun f => f == 0, fun _ => ⟨1, true, false, 0, some 0⟩⟩
    procs := fun i => { appendSys.procs i with
      ofile := fun fd => if fd = 3 then some 0 else none } }

theorem listingSys_copied :
    RecordCopied listingSys 3 0 280 0 0 0 ⟨dotName, .dir, 0⟩ where
  opened := ⟨rfl, by decide, rfl, rfl, rfl⟩
  room := by decide
  entry := rfl
  fits := by decide
  small := by decide
  mapped := by decide +kernel

/-- The record of the first entry of the root directory ends in eleven bytes of the stack. -/
theorem getdents64_leaks : ¬ ∀ s fd dirp count, DentsSound s fd dirp count := by
  intro hall
  refine (getdents64_sound_iff listingSys 3 0 280).mp (hall _ _ _ _) ?_
  exact ⟨0, 0, 0, _, listingSys_copied⟩

end Getdents

end OsAgentLab
