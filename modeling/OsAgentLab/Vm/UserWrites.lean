/-
Stores to user memory: what `copyout` does to the address space behind a page table.
-/
import OsAgentLab.Vm.AllocSpec
import OsAgentLab.Vm.UserBytes

namespace OsAgentLab

/-- The part of the bytes `src`, stored at the user address `va`, that lies in page `n`. -/
def UserPage.put (u : UserPage) (n va : Nat) (src : List UInt8) : UserPage :=
  { u with
    bytes := fun i =>
      if va ≤ 4096 * n + i ∧ 4096 * n + i < va + src.length then src.getD (4096 * n + i - va) 0
      else u.bytes i }

namespace UserPage

variable {u : UserPage} {n va i : Nat} {src src' : List UInt8}

@[simp] theorem put_pa : (u.put n va src).pa = u.pa := rfl

@[simp] theorem put_perm : (u.put n va src).perm = u.perm := rfl

theorem put_inside (h : va ≤ 4096 * n + i ∧ 4096 * n + i < va + src.length) :
    (u.put n va src).bytes i = src.getD (4096 * n + i - va) 0 :=
  if_pos h

theorem put_outside (h : ¬ (va ≤ 4096 * n + i ∧ 4096 * n + i < va + src.length)) :
    (u.put n va src).bytes i = u.bytes i :=
  if_neg h

theorem put_nil : u.put n va [] = u := by
  have hbytes : (u.put n va []).bytes = u.bytes :=
    funext fun i => if_neg fun h => absurd h.2 (Nat.not_lt_of_le h.1)
  exact congrArg (fun f => { u with bytes := f }) hbytes

theorem put_append :
    (u.put n va src).put n (va + src.length) src' = u.put n va (src ++ src') := by
  refine congrArg (fun f => { u with bytes := f }) (funext fun i => ?_)
  simp only [put, List.length_append]
  by_cases hsecond : va + src.length ≤ 4096 * n + i ∧
      4096 * n + i < va + src.length + src'.length
  · rw [if_pos hsecond, if_pos (by omega), List.getD_append_right _ _ _ _ (by omega)]
    congr 1
    omega
  · rw [if_neg hsecond]
    by_cases hfirst : va ≤ 4096 * n + i ∧ 4096 * n + i < va + src.length
    · rw [if_pos hfirst, if_pos (by omega), List.getD_append _ _ _ _ (by omega)]
    · rw [if_neg hfirst, if_neg (by omega)]

end UserPage

namespace Space

/-- The bytes `src` at the user address `va` and behind it, as far as there are pages. -/
def put (sp : Space) (va : Nat) (src : List UInt8) : Space :=
  { sp with page := fun n => (sp.page n).map fun u => u.put n va src }

/-- The byte at a user address. -/
def byteAt (sp : Space) (va : Nat) : Option UInt8 :=
  (sp.page (va / 4096)).map fun u => u.bytes (va % 4096)

variable {sp : Space} {pt p va x n : Nat} {u : UserPage} {src src' : List UInt8} {q : Part}

theorem put_page : (sp.put va src).page n = (sp.page n).map fun u => u.put n va src := rfl

theorem put_page_isSome : ((sp.put va src).page n).isSome = (sp.page n).isSome := by
  rw [put_page, Option.isSome_map]

theorem put_nil : sp.put va [] = sp := by
  have hpage : (sp.put va []).page = sp.page := by
    funext n
    rw [put_page]
    cases sp.page n with
    | none => rfl
    | some u => exact congrArg some UserPage.put_nil
  exact congrArg (fun f => { sp with page := f }) hpage

/-- Bytes that are stored piece by piece. -/
theorem put_append : (sp.put va src).put (va + src.length) src' = sp.put va (src ++ src') := by
  refine congrArg (fun f => { sp with page := f }) (funext fun n => ?_)
  rw [put_page]
  cases sp.page n with
  | none => rfl
  | some u => exact congrArg some UserPage.put_append

theorem has_put : (sp.put va src).Has pt q p ↔ sp.Has pt q p := by
  cases q with
  | root => exact Iff.rfl
  | low => exact Iff.rfl
  | table i => exact Iff.rfl
  | page n =>
      constructor
      · rintro ⟨v, hv, rfl⟩
        obtain ⟨u, hu, rfl⟩ := Option.map_eq_some_iff.mp hv
        exact ⟨u, hu, rfl⟩
      · rintro ⟨u, hu, rfl⟩
        exact ⟨_, Option.map_eq_some_iff.mpr ⟨u, hu, rfl⟩, rfl⟩

theorem WellFormed.put (h : sp.WellFormed pt) : (sp.put va src).WellFormed pt where
  isPage q p hp := h.isPage q p (has_put.mp hp)
  apart := h.apart.mono fun _ _ hp => has_put.mp hp
  table_lt := h.table_lt
  page_table n v hv := by
    obtain ⟨u, hu, _⟩ := Option.map_eq_some_iff.mp hv
    exact h.page_table n u hu
  perm n v hv := by
    obtain ⟨u, hu, rfl⟩ := Option.map_eq_some_iff.mp hv
    exact h.perm n u hu

theorem put_entry : (sp.put va src).entry n = sp.entry n := by
  cases hn : sp.page n with
  | none =>
      have hput : (sp.put va src).page n = none := by
        rw [put_page, hn, Option.map_none]
      rw [entry_none _ hn, entry_none _ hput]
  | some u =>
      have hput : (sp.put va src).page n = some (u.put n va src) := by
        rw [put_page, hn, Option.map_some]
      rw [entry_some _ hn, entry_some _ hput]
      rfl

/-- A stored byte is read back, and the others stay. -/
theorem put_byteAt : (sp.put va src).byteAt x =
    if va ≤ x ∧ x < va + src.length then (sp.byteAt x).map fun _ => src.getD (x - va) 0
    else sp.byteAt x := by
  have hx : 4096 * (x / 4096) + x % 4096 = x := Nat.div_add_mod x 4096
  rw [byteAt, byteAt, put_page]
  cases sp.page (x / 4096) with
  | none => simp
  | some u =>
      simp only [Option.map_some, UserPage.put, hx]
      by_cases hin : va ≤ x ∧ x < va + src.length
      · rw [if_pos hin, if_pos hin]
      · rw [if_neg hin, if_neg hin]

/-- There is a page with the permissions `perm` at the page number `n`. -/
def Mapped (sp : Space) (n perm : Nat) : Prop := ∃ u, sp.page n = some u ∧ u.perm = perm

/-- The pages of `sp` are in `sp'`, perhaps with other bytes. -/
def Within (sp sp' : Space) : Prop := ∀ n perm, sp.Mapped n perm → sp'.Mapped n perm

theorem Within.refl (sp : Space) : sp.Within sp := fun _ _ h => h

theorem Within.trans {sp' sp'' : Space} (h : sp.Within sp') (h' : sp'.Within sp'') :
    sp.Within sp'' :=
  fun n perm hn => h' n perm (h n perm hn)

theorem within_put : sp.Within (sp.put va src) := by
  rintro n perm ⟨u, hu, hperm⟩
  refine ⟨u.put n va src, ?_, hperm⟩
  rw [put_page, hu, Option.map_some]

theorem WellFormed.page_lt (h : sp.WellFormed pt) (hu : sp.page n = some u) : n < 5120 := by
  obtain ⟨t, ht⟩ := h.page_table n u hu
  have hlt := h.table_lt _ t ht
  omega

end Space

variable {kt pt p va n : Nat} {s s' : Mm} {sp : Space} {l : List Nat} {u : UserPage}
  {src : List UInt8}

section Copyout

/-- `walkaddr` finds the bytes of user pages. -/
theorem userPa_page (h : Held kt s pt sp l) (hva : LowVa va) (hu : sp.page (va / 4096) = some u) :
    userPa s pt va = u.pa + va % 4096 ∧ userPa s pt va ≠ 0 := by
  have hpage : IsPage u.pa := h.wf.isPage (.page _) _ ⟨u, hu, rfl⟩
  have hperm := h.wf.perm _ u hu
  obtain ⟨t, _, hwalk⟩ := walkPte_some h.wf h.space hva hu
  have hlt := hpage.lt
  have haligned := hpage.aligned
  have hpos := hpage.pos
  unfold PageAligned at haligned
  have heq : userPa s pt va = u.pa + va % 4096 := by
    apply @userPa_of_run s pt va _ s
    rw [walkaddr, Prog.bind_ok hwalk, Option.elim_some, if_neg (leafWord_user hpage hperm),
      Prog.pure_apply, pte2pa_leafWord hpage hperm, pageSize, u64_of_lt (by omega)]
  exact ⟨heq, by omega⟩

theorem userPa_none (h : Held kt s pt sp l) (hva : LowVa va) (hu : sp.page (va / 4096) = none) :
    userPa s pt va = 0 := by
  apply @userPa_of_run s pt va _ s
  rw [walkaddr, Prog.bind_ok (walkPte_none h.wf h.space hva hu), Option.elim_none,
    Prog.pure_apply]

theorem Mm.storeAt_mem (mm : Mm) (pa n : Nat) (src : List UInt8) :
    (mm.storeAt pa n src).mem = overlay mm.mem pa n fun i => src.getD i 0 := rfl

theorem Mm.storeAt_take (mm : Mm) (pa n : Nat) (src : List UInt8) :
    mm.storeAt pa n (src.take n) = mm.storeAt pa n src := by
  refine congrArg (fun m => { mm with mem := m }) (funext fun x => ?_)
  by_cases hx : pa ≤ x ∧ x < pa + n
  · rw [overlay_of_mem hx, overlay_of_mem hx, List.getD_eq_getElem?_getD,
      List.getD_eq_getElem?_getD, List.getElem?_take_of_lt (by omega)]
  · rw [overlay_of_not_mem hx, overlay_of_not_mem hx]

/-- A store inside of one user page. -/
theorem Held.storePage (h : Held kt s pt sp l) (hu : sp.page (va / 4096) = some u)
    (hin : va % 4096 + src.length ≤ 4096) :
    SpaceStep kt s pt sp l (s.storeAt (u.pa + va % 4096) src.length src) (sp.put va src) l := by
  have hhas : sp.Has pt (.page (va / 4096)) u.pa := ⟨u, hu, rfl⟩
  have hpage : IsPage u.pa := h.wf.isPage _ _ hhas
  have hframe : ∀ x, ¬ InPage u.pa x →
      (s.storeAt (u.pa + va % 4096) src.length src).mem x = s.mem x := by
    intro x hx
    rw [Mm.storeAt_mem]
    refine overlay_of_not_mem fun hmem => hx ⟨?_, ?_⟩
    · omega
    · omega
  have hother : ∀ q p, sp.Has pt q p → q ≠ .page (va / 4096) → ∀ x, InPage p x →
      (s.storeAt (u.pa + va % 4096) src.length src).mem x = s.mem x := by
    intro q p hp hq x hx
    have hne : u.pa ≠ p := by
      rintro rfl
      exact hq (h.wf.apart hp hhas)
    exact hframe x (hpage.not_inPage (h.wf.isPage q p hp) hne hx)
  refine ⟨⟨?_, ⟨?_, ?_, ?_, ?_, ?_⟩, h.wf.put, fun q p hp => h.apart q p (Space.has_put.mp hp)⟩,
    fun p => ?_, fun x hx => hframe x (hx _ (Or.inr ⟨_, hhas⟩)), rfl⟩
  · refine h.free.frame rfl fun p hp x hx => hframe x ?_
    have hne : u.pa ≠ p := by
      rintro rfl
      exact h.apart _ _ hhas hp
    exact hpage.not_inPage (h.free.page p hp) hne hx
  · intro i hpos hi
    rw [le64_page_congr hi (hother .root pt rfl (by simp))]
    exact h.space.root i hpos hi
  · have hword := le64_page_congr (i := 0) (by decide) (hother .root pt rfl (by simp))
    exact hword.trans h.space.rootLow
  · intro i hi
    exact (le64_page_congr hi (hother .low sp.low rfl (by simp))).trans (h.space.lows i hi)
  · intro i t ht j hj
    rw [le64_page_congr hj (hother (.table i) t ht (by simp)), Space.put_entry]
    exact h.space.entries i t ht j hj
  · intro n v hv i hi
    obtain ⟨w, hw, rfl⟩ := Option.map_eq_some_iff.mp hv
    have hbyte := h.space.bytes n w hw i hi
    rw [UserPage.put_pa]
    by_cases hn : n = va / 4096
    · subst hn
      obtain rfl := Option.some.inj (hw.symm.trans hu)
      by_cases hmem : va ≤ 4096 * (va / 4096) + i ∧ 4096 * (va / 4096) + i < va + src.length
      · rw [UserPage.put_inside hmem, Mm.storeAt_mem, overlay_of_mem (by omega)]
        congr 1
        omega
      · rw [UserPage.put_outside hmem, Mm.storeAt_mem, overlay_of_not_mem (by omega)]
        exact hbyte
    · rw [UserPage.put_outside (by omega)]
      refine (hother (.page n) w.pa ⟨w, hw, rfl⟩ (by simp [hn]) _ ?_).trans hbyte
      exact ⟨Nat.le_add_right _ _, by omega⟩
  · constructor
    · rintro (hp | ⟨q, hp⟩)
      · exact Or.inl hp
      · exact Or.inr ⟨q, Space.has_put.mp hp⟩
    · rintro (hp | ⟨q, hp⟩)
      · exact Or.inl hp
      · exact Or.inr ⟨q, Space.has_put.mpr hp⟩

/-- How `copyout` ends: with all bytes in place, or with those in front of a hole. -/
inductive CopyoutEnds (sp : Space) (va : Nat) (src : List UInt8) :
    Outcome Errno Unit → Space → Prop
  | stored (hpages : ∀ i, i < src.length → (sp.page ((va + i) / 4096)).isSome) :
      CopyoutEnds sp va src (.ok ()) (sp.put va src)
  | hole {k : Nat} (hk : k < src.length)
      (hpages : ∀ i, i < k → (sp.page ((va + i) / 4096)).isSome)
      (hnone : sp.page ((va + k) / 4096) = none) :
      CopyoutEnds sp va src (.err .fault) (sp.put va (src.take k))

theorem CopyoutEnds.within {r : Outcome Errno Unit} {sp' : Space} (h : CopyoutEnds sp va src r sp') :
    sp.Within sp' := by
  cases h with
  | stored hpages => exact Space.within_put
  | hole hk hpages hnone => exact Space.within_put

/-- The bytes in front of those that come next are in place. -/
theorem CopyoutEnds.cons {sp' : Space} {r : Outcome Errno Unit} {m : Nat} (hm : m ≤ src.length)
    (hpages : ∀ i, i < m → (sp.page ((va + i) / 4096)).isSome)
    (h : CopyoutEnds (sp.put va (src.take m)) (va + m) (src.drop m) r sp') :
    CopyoutEnds sp va src r sp' := by
  have hlen : (src.take m).length = m := List.length_take_of_le hm
  have hsplit : ∀ rest, (sp.put va (src.take m)).put (va + m) rest =
      sp.put va (src.take m ++ rest) := by
    intro rest
    have happend : (sp.put va (src.take m)).put (va + (src.take m).length) rest =
        sp.put va (src.take m ++ rest) := Space.put_append
    rwa [hlen] at happend
  have hrest : ∀ k, (∀ i, i < k → ((sp.put va (src.take m)).page ((va + m + i) / 4096)).isSome) →
      ∀ i, i < m + k → (sp.page ((va + i) / 4096)).isSome := by
    intro k hk i hi
    by_cases hfirst : i < m
    · exact hpages i hfirst
    · have hlater := hk (i - m) (by omega)
      rw [Space.put_page_isSome] at hlater
      rwa [show va + m + (i - m) = va + i by omega] at hlater
  cases h with
  | stored hall =>
      rw [hsplit, List.take_append_drop]
      refine .stored fun i hi => hrest (src.length - m) (fun i hi => hall i ?_) i (by omega)
      rw [List.length_drop]
      exact hi
  | @hole k hk hbefore hnone =>
      rw [List.length_drop] at hk
      rw [hsplit, ← List.take_add]
      refine .hole (by omega) (hrest k hbefore) ?_
      rw [Space.put_page, Option.map_eq_none_iff] at hnone
      rwa [Nat.add_assoc] at hnone

/-- The passes of `copyout` over pages of the address space. -/
theorem copyout_space_loop (fuel : Nat) :
    ∀ (va : Nat) (src : List UInt8) (s : Mm) (sp : Space), Held kt s pt sp l →
      va + src.length ≤ 0x2000000 → src.length ≤ fuel →
      ∃ r s' sp', CopyoutEnds sp va src r sp' ∧ SpaceStep kt s pt sp l s' sp' l ∧
        ∃ v, Prog.loop (copyoutPass pt) fuel (va, src) s = (v, s') ∧ v.map (fun _ => ()) = r := by
  induction fuel with
  | zero =>
      intro va src s sp h hlow hfuel
      obtain rfl : src = [] := List.eq_nil_of_length_eq_zero (by omega)
      refine ⟨.ok (), s, sp, ?_, .refl h, .ok (va, []), rfl, rfl⟩
      have hstored : CopyoutEnds sp va [] (.ok ()) (sp.put va []) :=
        .stored fun i hi => absurd hi (Nat.not_lt_zero i)
      rwa [Space.put_nil] at hstored
  | succ fuel ih =>
      intro va src s sp h hlow hfuel
      by_cases hsrc : src = []
      · subst hsrc
        refine ⟨.ok (), s, sp, ?_, .refl h, .ok (va, []), rfl, rfl⟩
        have hstored : CopyoutEnds sp va [] (.ok ()) (sp.put va []) :=
          .stored fun i hi => absurd hi (Nat.not_lt_zero i)
        rwa [Space.put_nil] at hstored
      have hpos : 0 < src.length := List.length_pos_iff.mpr hsrc
      have hva : LowVa va := by
        unfold LowVa
        omega
      cases hu : sp.page (va / 4096) with
      | none =>
          have hpass := copyoutPass_err hsrc (userPa_none h hva hu)
          refine ⟨.err .fault, s, sp, ?_, .refl h, .err .fault, Prog.bind_err hpass _, rfl⟩
          have hhole : CopyoutEnds sp va src (.err .fault) (sp.put va (src.take 0)) :=
            .hole hpos (fun i hi => absurd hi (Nat.not_lt_zero i)) hu
          rwa [List.take_zero, Space.put_nil] at hhole
      | some u =>
          obtain ⟨hpa, hne⟩ := userPa_page h hva hu
          generalize hm : min (4096 - va % 4096) src.length = m
          have hpass := copyoutPass_ok hsrc hne hm
          have hlen : (src.take m).length = m := List.length_take_of_le (by omega)
          have hstep : SpaceStep kt s pt sp l _ (sp.put va (src.take m)) l :=
            h.storePage hu (by omega)
          rw [← Mm.storeAt_take, hpa, u64_of_lt (by omega)] at hpass
          rw [hlen] at hstep
          obtain ⟨r, s', sp', hends, hrest, v, hloop, hv⟩ := ih (va + m) (src.drop m) _ _ hstep.held
            (by rw [List.length_drop]; omega) (by rw [List.length_drop]; omega)
          refine ⟨r, s', sp', .cons (by omega) (fun i hi => ?_) hends, hstep.trans hrest, v, ?_, hv⟩
          · rw [show (va + i) / 4096 = va / 4096 by omega, hu]
            rfl
          · rw [Prog.loop, Prog.bind_ok hpass, Option.elim_some, hloop]

/-- `copyout` to low addresses. -/
theorem copyout_space (h : Held kt s pt sp l) (hlow : va + src.length ≤ 0x2000000) :
    ∃ r s' sp', copyout pt va src s = (r, s') ∧ CopyoutEnds sp va src r sp' ∧
      SpaceStep kt s pt sp l s' sp' l := by
  obtain ⟨r, s', sp', hends, hstep, v, hloop, hv⟩ :=
    copyout_space_loop src.length va src s sp h hlow (Nat.le_refl _)
  refine ⟨r, s', sp', ?_, hends, hstep⟩
  cases v with
  | ok v =>
      subst hv
      rw [copyout, Prog.bind_ok hloop, Prog.pure_apply]
      rfl
  | err e =>
      subst hv
      rw [copyout, Prog.bind_err hloop]
      rfl
  | fault =>
      subst hv
      cases hends
  | diverges =>
      subst hv
      cases hends

end Copyout

end OsAgentLab
