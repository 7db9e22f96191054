/-
`copyin`, `copyout` and `copyinstr` page by page, against the same copies made one byte
after the other through the page table.
-/
import OsAgentLab.Vm.Sv39
import OsAgentLab.Vm.UserBytes
import OsAgentLab.Vm.Space

namespace OsAgentLab

/-- The physical address of a byte of user memory: its page is mapped with `PTE_V` and
`PTE_U`. -/
def sv39User (m : Nat → UInt8) (pt va : Nat) : Option Nat :=
  (sv39Leaf m va 2 pt).bind fun leaf =>
    if leaf.level = 0 ∧ leaf.pte &&& pteU ≠ 0 then some (leaf.pa va) else none

section Copies

/-- One pass of `copyin` with its buffer, of which the bytes in front of `dst` are filled. -/
def copyinToPass (pt : Nat) (pos : Nat × Nat × Nat) :
    Prog (Mm × (Nat → UInt8)) Errno (Option (Nat × Nat × Nat)) :=
  let (dst, srcva, len) := pos
  if len = 0 then pure none
  else do
    let pa ← Prog.zoom Prod.fst (fun mm t => (mm, t.2)) (walkaddr pt srcva)
    if pa = 0 then Prog.fail .fault
    else do
      let n := min (pageSize - srcva % pageSize) len
      Prog.modify fun t => (t.1, overlay t.2 dst n fun i => t.1.mem (pa + i))
      pure (some (dst + n, u64 (srcva + n), len - n))

/-- `copyin`, with what it leaves in its buffer whether it fails or not. -/
def copyinTo (pt srcva len : Nat) : Prog (Mm × (Nat → UInt8)) Errno Unit := do
  let _ ← Prog.loop (copyinToPass pt) len (0, srcva, len)
  pure ()

/-- Stores of single bytes from `va` on, by the translation `tr`. -/
def storeUser (tr : Nat → Option Nat) (m : Nat → UInt8) : Nat → List UInt8 → Nat → UInt8
  | _, [] => m
  | va, b :: rest =>
      storeUser tr ((tr va).elim m fun pa => Function.update m pa b) (u64 (va + 1)) rest

/-- The byte at a user address, zero where there is none. -/
def loadUser (m : Nat → UInt8) (pt va : Nat) : UInt8 := ((sv39User m pt va).map m).getD 0

end Copies

/-- The pages of a range: all leaves are pages of 4 KiB, and none is the page at physical
address 0, which `walkaddr` cannot tell from a hole. -/
structure PagedRange (m : Nat → UInt8) (pt va len : Nat) : Prop where
  va_lt : va < 18446744073709551616
  len_lt : len < 18446744073709551616
  pages : ∀ i, i < len → ∀ leaf, sv39Leaf m (u64 (va + i)) 2 pt = some leaf → leaf.level = 0
  nonzero : ∀ i, i < len → sv39User m pt (u64 (va + i)) ≠ some 0

variable {m m' : Nat → UInt8} {mm : Mm} {pt va len n : Nat}

section Translation

theorem walkLevel_word (mm : Mm) (t idx : Nat) : walkLevel t idx false mm =
    (.ok (if le64 mm.mem (t + 8 * idx) &&& pteV = 0 then none
      else some (pte2pa (le64 mm.mem (t + 8 * idx)))), mm) := by
  rw [walkLevel, Prog.bind_ok (show load64 (t + 8 * idx) mm = (.ok _, mm) from rfl)]
  by_cases hvalid : le64 mm.mem (t + 8 * idx) &&& pteV = 0
  · rw [if_neg (not_not.mpr hvalid), if_neg (by decide), if_pos hvalid, Prog.pure_apply]
  · rw [if_pos hvalid, if_neg hvalid, Prog.pure_apply]

theorem userPa_of_walk_none (h : walk pt va false mm = (.ok none, mm)) : userPa mm pt va = 0 := by
  have hpte : walkPte pt va mm = (.ok none, mm) := by
    rw [walkPte, Prog.bind_ok h, Option.elim_none, Prog.pure_apply]
  apply @userPa_of_run _ _ _ _ mm
  rw [walkaddr, Prog.bind_ok hpte, Option.elim_none, Prog.pure_apply]

/-- The address that `walkaddr` finds behind an entry of the last level. -/
theorem userPa_of_walk_some {e : Nat} (h : walk pt va false mm = (.ok (some e), mm)) :
    userPa mm pt va = if le64 mm.mem e &&& pteV ≠ 0 ∧ le64 mm.mem e &&& pteU ≠ 0 then
      pte2pa (le64 mm.mem e) + va % 4096 else 0 := by
  have hpage := pte2pa_page (le64 mm.mem e)
  apply @userPa_of_run _ _ _ _ mm
  by_cases hvalid : le64 mm.mem e &&& pteV = 0
  · have hpte : walkPte pt va mm = (.ok none, mm) := by
      rw [walkPte, Prog.bind_ok h, Option.elim_some, load64_bind, if_pos hvalid, Prog.pure_apply]
    rw [walkaddr, Prog.bind_ok hpte, Option.elim_none, if_neg fun hand => hand.1 hvalid,
      Prog.pure_apply]
  · have hpte : walkPte pt va mm = (.ok (some (e, le64 mm.mem e)), mm) := by
      rw [walkPte, Prog.bind_ok h, Option.elim_some, load64_bind, if_neg hvalid, Prog.pure_apply]
    rw [walkaddr, Prog.bind_ok hpte, Option.elim_some]
    dsimp only
    by_cases huser : le64 mm.mem e &&& pteU = 0
    · rw [if_pos huser, if_neg fun hand => hand.2 huser, Prog.pure_apply]
    · rw [if_neg huser, if_pos ⟨hvalid, huser⟩, Prog.pure_apply, pageSize, u64_of_lt (by omega)]

/-- Where leaves are pages, `walkaddr` finds the address of a user byte. -/
theorem userPa_eq (hpages : ∀ leaf, sv39Leaf mm.mem va 2 pt = some leaf → leaf.level = 0) :
    userPa mm pt va = (sv39User mm.mem pt va).getD 0 := by
  have h2 := walkLevel_word mm pt (vpn2 va)
  rw [← sv39Entry_two] at h2
  rw [sv39User]
  by_cases hvalid2 : le64 mm.mem (sv39Entry 2 pt va) &&& pteV = 0
  · rw [if_pos hvalid2] at h2
    rw [sv39Leaf_invalid hvalid2, userPa_of_walk_none (by
      rw [walk, Prog.bind_ok h2, Option.elim_none, Prog.pure_apply])]
    rfl
  rw [if_neg hvalid2] at h2
  have hnext2 := sv39Leaf_of_pages hvalid2 hpages
  rw [hnext2] at hpages ⊢
  generalize pte2pa (le64 mm.mem (sv39Entry 2 pt va)) = l1 at h2 hpages ⊢
  have h1 := walkLevel_word mm l1 (vpn1 va)
  rw [← sv39Entry_one] at h1
  by_cases hvalid1 : le64 mm.mem (sv39Entry 1 l1 va) &&& pteV = 0
  · rw [if_pos hvalid1] at h1
    rw [sv39Leaf_invalid hvalid1, userPa_of_walk_none (by
      rw [walk, Prog.bind_ok h2, Option.elim_some, Prog.bind_ok h1, Option.elim_none,
        Prog.pure_apply])]
    rfl
  rw [if_neg hvalid1] at h1
  rw [sv39Leaf_of_pages hvalid1 hpages]
  generalize pte2pa (le64 mm.mem (sv39Entry 1 l1 va)) = l0 at h1 ⊢
  have hwalk : walk pt va false mm = (.ok (some (sv39Entry 0 l0 va)), mm) := by
    rw [walk, Prog.bind_ok h2, Option.elim_some, Prog.bind_ok h1, Option.elim_some,
      Prog.pure_apply, sv39Entry_zero]
  rw [userPa_of_walk_some hwalk]
  by_cases hvalid0 : le64 mm.mem (sv39Entry 0 l0 va) &&& pteV = 0
  · rw [sv39Leaf_invalid hvalid0, if_neg fun hand => hand.1 hvalid0]
    rfl
  rw [sv39Leaf_page hvalid0, Option.bind_some]
  dsimp only
  by_cases huser : le64 mm.mem (sv39Entry 0 l0 va) &&& pteU = 0
  · rw [if_neg fun hand => hand.2 huser, if_neg fun hand => hand.2 huser]
    rfl
  · rw [if_pos ⟨hvalid0, huser⟩, if_pos ⟨rfl, huser⟩]
    rfl

/-- The bytes of one page lie next to each other. -/
theorem sv39User_add {i : Nat} (hi : va % 4096 + i < 4096) :
    sv39User m pt (va + i) = (sv39User m pt va).map (· + i) := by
  have hpage : (va + i) / 4096 = va / 4096 := by omega
  rw [sv39User, sv39User, sv39Leaf_page_congr hpage]
  cases sv39Leaf m va 2 pt with
  | none => rfl
  | some leaf =>
      rw [Option.bind_some, Option.bind_some]
      by_cases huser : leaf.level = 0 ∧ leaf.pte &&& pteU ≠ 0
      · rw [if_pos huser, if_pos huser, Option.map_some, Sv39Leaf.pa, Sv39Leaf.pa, huser.1]
        congr 1
        omega
      · rw [if_neg huser, if_neg huser, Option.map_none]

namespace PagedRange

theorem tail (h : PagedRange m pt va len) (hn : n ≤ len) :
    PagedRange m pt (u64 (va + n)) (len - n) := by
  have hlt := h.len_lt
  have hsum : ∀ i, u64 (u64 (va + n) + i) = u64 (va + (n + i)) := fun i => by
    rw [u64, u64, u64, Nat.mod_add_mod, Nat.add_assoc]
  refine ⟨Nat.mod_lt _ (by decide), by omega, fun i hi => ?_, fun i hi => ?_⟩
  · rw [hsum]
    exact h.pages (n + i) (by omega)
  · rw [hsum]
    exact h.nonzero (n + i) (by omega)

/-- `walkaddr` delivers zero exactly where the byte is not mapped. -/
theorem userPa_eq (h : PagedRange mm.mem pt va len) (hlen : len ≠ 0) :
    userPa mm pt va = (sv39User mm.mem pt va).getD 0 := by
  have hpages := h.pages 0 (by omega)
  rw [Nat.add_zero, u64_of_lt h.va_lt] at hpages
  exact OsAgentLab.userPa_eq hpages

theorem userPa_zero_iff (h : PagedRange mm.mem pt va len) (hlen : len ≠ 0) :
    userPa mm pt va = 0 ↔ sv39User mm.mem pt va = none := by
  have hne := h.nonzero 0 (by omega)
  rw [Nat.add_zero, u64_of_lt h.va_lt] at hne
  rw [h.userPa_eq hlen]
  cases hpa : sv39User mm.mem pt va with
  | none => simp
  | some pa =>
      rw [hpa] at hne
      simpa using hne

end PagedRange

end Translation

section Prefix

/-- Of the bytes of a range exactly the first `k` come before the first hole. -/
structure MappedPrefix (m : Nat → UInt8) (pt va len k : Nat) : Prop where
  le : k ≤ len
  mapped : ∀ i, i < k → (sv39User m pt (u64 (va + i))).isSome
  hole : k < len → sv39User m pt (u64 (va + k)) = none

theorem u64_add (va n i : Nat) : u64 (u64 (va + n) + i) = u64 (va + (n + i)) := by
  rw [u64, u64, u64, Nat.mod_add_mod, Nat.add_assoc]

/-- A pass over a mapped page comes before the rest. -/
theorem MappedPrefix.add {k : Nat} (hn : ∀ i, i < n → (sv39User m pt (u64 (va + i))).isSome)
    (hle : n ≤ len) (h : MappedPrefix m pt (u64 (va + n)) (len - n) k) :
    MappedPrefix m pt va len (n + k) := by
  have hk := h.le
  refine ⟨by omega, fun i hi => ?_, fun hlt => ?_⟩
  · by_cases hin : i < n
    · exact hn i hin
    · have hmapped := h.mapped (i - n) (by omega)
      rwa [u64_add, Nat.add_sub_cancel' (by omega)] at hmapped
  · rw [← u64_add]
    exact h.hole (by omega)

theorem MappedPrefix.none (hva : va < 18446744073709551616) (h : sv39User m pt va = none) :
    MappedPrefix m pt va len 0 := by
  refine ⟨Nat.zero_le _, fun i hi => absurd hi (Nat.not_lt_zero i), fun _ => ?_⟩
  rw [Nat.add_zero, u64_of_lt hva]
  exact h

theorem MappedPrefix.empty (m : Nat → UInt8) (pt va : Nat) : MappedPrefix m pt va 0 0 :=
  ⟨Nat.le_refl 0, fun i hi => absurd hi (Nat.not_lt_zero i), fun h => absurd h (Nat.lt_irrefl 0)⟩

/-- All bytes of the range are mapped when nothing is behind the prefix. -/
theorem MappedPrefix.eq_iff {k : Nat} (h : MappedPrefix m pt va len k) :
    k = len ↔ ∀ i, i < len → (sv39User m pt (u64 (va + i))).isSome := by
  constructor
  · rintro rfl
    exact h.mapped
  · intro hall
    by_contra hne
    have hle := h.le
    have hsome := hall k (by omega)
    rw [h.hole (by omega)] at hsome
    cases hsome

/-- The bytes from `va` up to the end of its page. -/
theorem sv39User_chunk {pa : Nat} (hva : va < 18446744073709551616)
    (hpa : sv39User m pt va = some pa) {i : Nat} (hi : va % 4096 + i < 4096) :
    sv39User m pt (u64 (va + i)) = some (pa + i) := by
  rw [u64_of_lt (by omega), sv39User_add hi, hpa, Option.map_some]

end Prefix

section Copyin

variable {buf : Nat → UInt8}

theorem overlay_append {dst f g h : Nat → UInt8} {off n k : Nat} (hf : ∀ i, i < n → f i = h i)
    (hg : ∀ i, i < k → g i = h (n + i)) :
    overlay (overlay dst off n f) (off + n) k g = overlay dst off (n + k) h := by
  funext x
  by_cases hsecond : off + n ≤ x ∧ x < off + n + k
  · rw [overlay_of_mem hsecond, overlay_of_mem (by omega), hg _ (by omega)]
    congr 1
    omega
  rw [overlay_of_not_mem hsecond]
  by_cases hfirst : off ≤ x ∧ x < off + n
  · rw [overlay_of_mem hfirst, overlay_of_mem (by omega), hf _ (by omega)]
  · rw [overlay_of_not_mem hfirst, overlay_of_not_mem (by omega)]

theorem overlay_zero (dst src : Nat → UInt8) (off : Nat) : overlay dst off 0 src = dst := by
  funext x
  exact overlay_of_not_mem (by omega)

/-- The passes of `copyin` fill the buffer up to the first hole. -/
theorem copyinTo_loop (fuel : Nat) :
    ∀ (off va len : Nat) (buf : Nat → UInt8), PagedRange mm.mem pt va len → len ≤ fuel →
      ∃ k last, MappedPrefix mm.mem pt va len k ∧
        Prog.loop (copyinToPass pt) fuel (off, va, len) (mm, buf) =
          (if k = len then .ok last else .err .fault,
            (mm, overlay buf off k fun i => loadUser mm.mem pt (u64 (va + i)))) := by
  induction fuel with
  | zero =>
      intro off va len buf h hfuel
      obtain rfl : len = 0 := by omega
      exact ⟨0, (off, va, 0), .empty _ _ _, by rw [if_pos rfl, overlay_zero]; rfl⟩
  | succ fuel ih =>
      intro off va len buf h hfuel
      by_cases hlen : len = 0
      · subst hlen
        exact ⟨0, (off, va, 0), .empty _ _ _, by rw [if_pos rfl, overlay_zero]; rfl⟩
      have hwalk : ∀ t : Mm × (Nat → UInt8), t.1 = mm →
          Prog.zoom Prod.fst (fun mm t => (mm, t.2)) (walkaddr pt va) t =
            (.ok (userPa mm pt va), t) := by
        rintro ⟨_, t⟩ rfl
        exact Prog.zoom_apply (walkaddr_eq _ pt va)
      cases hpa : sv39User mm.mem pt va with
      | none =>
          refine ⟨0, (off, va, len), .none h.va_lt hpa, ?_⟩
          have hpass : copyinToPass pt (off, va, len) (mm, buf) = (.err .fault, (mm, buf)) := by
            simp only [copyinToPass]
            rw [if_neg hlen, Prog.bind_ok (hwalk (mm, buf) rfl),
              if_pos ((h.userPa_zero_iff hlen).mpr hpa)]
            rfl
          rw [Prog.loop, Prog.bind_err hpass, if_neg (Ne.symm hlen), overlay_zero]
      | some pa =>
          have haddr : userPa mm pt va = pa := by
            rw [h.userPa_eq hlen, hpa, Option.getD_some]
          have hne : pa ≠ 0 := by
            rintro rfl
            rw [(h.userPa_zero_iff hlen).mp haddr] at hpa
            cases hpa
          generalize hn : min (pageSize - va % pageSize) len = n
          have hpass : copyinToPass pt (off, va, len) (mm, buf) =
              (.ok (some (off + n, u64 (va + n), len - n)),
                (mm, overlay buf off n fun i => mm.mem (pa + i))) := by
            simp only [copyinToPass]
            rw [if_neg hlen, Prog.bind_ok (hwalk (mm, buf) rfl), haddr, if_neg hne, hn]
            rfl
          have hcount : min (4096 - va % 4096) len = n := hn
          have hchunk : ∀ i, i < n → sv39User mm.mem pt (u64 (va + i)) = some (pa + i) :=
            fun i hi => sv39User_chunk h.va_lt hpa (by omega)
          obtain ⟨k, last, hk, hrun⟩ := ih (off + n) (u64 (va + n)) (len - n)
            (overlay buf off n fun i => mm.mem (pa + i)) (h.tail (by omega)) (by omega)
          refine ⟨n + k, last, .add (fun i hi => by rw [hchunk i hi]; rfl) (by omega) hk, ?_⟩
          have hle := hk.le
          have hend : (k = len - n) = (n + k = len) := propext ⟨by omega, by omega⟩
          rw [Prog.loop, Prog.bind_ok hpass, Option.elim_some, hrun]
          simp only [hend]
          rw [overlay_append (h := fun i => loadUser mm.mem pt (u64 (va + i)))]
          · intro i hi
            rw [loadUser, hchunk i hi]
            rfl
          · intro i _
            rw [u64_add]

/-- What is asked of `copyin`: it succeeds exactly when all bytes are mapped, its buffer then
has each of them, and otherwise those in front of a hole. -/
structure CopyinBytewise (mm : Mm) (pt va len : Nat) (buf : Nat → UInt8) : Prop where
  ok_iff : (copyinTo pt va len (mm, buf)).1 = .ok () ↔
    ∀ i, i < len → (sv39User mm.mem pt (u64 (va + i))).isSome
  ok_bytes : (copyinTo pt va len (mm, buf)).1 = .ok () → (copyinTo pt va len (mm, buf)).2 =
    (mm, overlay buf 0 len fun i => loadUser mm.mem pt (u64 (va + i)))
  err_prefix : (copyinTo pt va len (mm, buf)).1 ≠ .ok () →
    (copyinTo pt va len (mm, buf)).1 = .err .fault ∧
    ∃ k, k < len ∧ (∀ i, i < k → (sv39User mm.mem pt (u64 (va + i))).isSome) ∧
      (copyinTo pt va len (mm, buf)).2 =
        (mm, overlay buf 0 k fun i => loadUser mm.mem pt (u64 (va + i)))

theorem copyinTo_bytewise (h : PagedRange mm.mem pt va len) (buf : Nat → UInt8) :
    CopyinBytewise mm pt va len buf := by
  obtain ⟨k, last, hk, hloop⟩ := @copyinTo_loop mm pt len 0 va len buf h (Nat.le_refl _)
  have hle := hk.le
  have hrun : copyinTo pt va len (mm, buf) = (if k = len then .ok () else .err .fault,
      (mm, overlay buf 0 k fun i => loadUser mm.mem pt (u64 (va + i)))) := by
    by_cases hall : k = len
    · rw [if_pos hall] at hloop ⊢
      rw [copyinTo, Prog.bind_ok hloop, Prog.pure_apply]
    · rw [if_neg hall] at hloop ⊢
      rw [copyinTo, Prog.bind_err hloop]
  by_cases hall : k = len
  · rw [if_pos hall] at hrun
    refine ⟨⟨fun _ => hk.eq_iff.mp hall, fun _ => by rw [hrun]⟩, fun _ => by rw [hrun, hall],
      fun hne => ?_⟩
    rw [hrun] at hne
    exact absurd rfl hne
  · rw [if_neg hall] at hrun
    refine ⟨⟨fun hok => ?_, fun hmapped => absurd (hk.eq_iff.mpr hmapped) hall⟩, fun hok => ?_,
      fun _ => ⟨by rw [hrun], k, by omega, hk.mapped, by rw [hrun]⟩⟩
    all_goals
      rw [hrun] at hok
      cases hok

end Copyin

section Stores

variable {tr : Nat → Option Nat} {src : List UInt8} {x : Nat}

theorem storeUser_append (a b : List UInt8) :
    ∀ {m : Nat → UInt8} {va : Nat}, va < 18446744073709551616 →
      storeUser tr m va (a ++ b) = storeUser tr (storeUser tr m va a) (u64 (va + a.length)) b := by
  induction a with
  | nil =>
      intro m va hva
      rw [List.nil_append, storeUser, List.length_nil, Nat.add_zero, u64_of_lt hva]
  | cons c a ih =>
      intro m va hva
      have hnext : u64 (va + 1) < 18446744073709551616 := Nat.mod_lt _ (by decide)
      rw [List.cons_append, storeUser, storeUser, ih hnext, u64_add, List.length_cons,
        Nat.add_comm 1]

/-- Bytes that lie next to each other are stored as one copy. -/
theorem storeUser_chunk (src : List UInt8) :
    ∀ {m : Nat → UInt8} {va pa : Nat}, va < 18446744073709551616 →
      (∀ i, i < src.length → tr (u64 (va + i)) = some (pa + i)) →
      storeUser tr m va src = overlay m pa src.length fun i => src.getD i 0 := by
  induction src with
  | nil =>
      intro m va pa _ _
      rw [storeUser, List.length_nil, overlay_zero]
  | cons b src ih =>
      intro m va pa hva h
      have hfirst := h 0 (Nat.succ_pos _)
      rw [Nat.add_zero, Nat.add_zero, u64_of_lt hva] at hfirst
      have hnext : u64 (va + 1) < 18446744073709551616 := Nat.mod_lt _ (by decide)
      rw [storeUser, hfirst, Option.elim_some, @ih _ _ (pa + 1) hnext fun i hi => by
        rw [u64_add, h (1 + i) (by rw [List.length_cons]; omega)]
        congr 1
        omega]
      funext y
      by_cases hin : pa + 1 ≤ y ∧ y < pa + 1 + src.length
      · rw [overlay_of_mem hin, overlay_of_mem (by rw [List.length_cons]; omega),
          show y - pa = y - (pa + 1) + 1 by omega, List.getD_cons_succ]
      rw [overlay_of_not_mem hin]
      by_cases hy : y = pa
      · rw [hy, Function.update_self, overlay_of_mem ⟨Nat.le_refl _, by
          rw [List.length_cons]; omega⟩, Nat.sub_self, List.getD_cons_zero]
      · rw [Function.update_of_ne hy, overlay_of_not_mem (by rw [List.length_cons]; omega)]

/-- A byte that no address of the range leads to stays as it is. -/
theorem storeUser_frame (src : List UInt8) :
    ∀ {m : Nat → UInt8} {va : Nat}, va < 18446744073709551616 →
      (∀ i, i < src.length → tr (u64 (va + i)) ≠ some x) → storeUser tr m va src x = m x := by
  induction src with
  | nil =>
      intro m va _ _
      rfl
  | cons b src ih =>
      intro m va hva h
      have hfirst := h 0 (Nat.succ_pos _)
      rw [Nat.add_zero, u64_of_lt hva] at hfirst
      have hnext : u64 (va + 1) < 18446744073709551616 := Nat.mod_lt _ (by decide)
      rw [storeUser, ih hnext fun i hi => by
        rw [u64_add]
        exact h (1 + i) (by rw [List.length_cons]; omega)]
      cases hpa : tr va with
      | none => rfl
      | some pa =>
          rw [Option.elim_some, Function.update_of_ne]
          rintro rfl
          exact hfirst hpa

/-- A byte that only one address of the range leads to is the one stored there. -/
theorem storeUser_at (src : List UInt8) :
    ∀ {m : Nat → UInt8} {va i : Nat}, va < 18446744073709551616 → i < src.length →
      tr (u64 (va + i)) = some x →
      (∀ j, i < j → j < src.length → tr (u64 (va + j)) ≠ some x) →
      storeUser tr m va src x = src.getD i 0 := by
  induction src with
  | nil =>
      intro m va i _ hi _ _
      cases hi
  | cons b src ih =>
      intro m va i hva hi hpa honce
      have hnext : u64 (va + 1) < 18446744073709551616 := Nat.mod_lt _ (by decide)
      rw [storeUser]
      cases i with
      | zero =>
          rw [Nat.add_zero, u64_of_lt hva] at hpa
          rw [storeUser_frame src hnext fun j hj => by
            rw [u64_add]
            exact honce (1 + j) (by omega) (by rw [List.length_cons]; omega), hpa,
            Option.elim_some, Function.update_self, List.getD_cons_zero]
      | succ i =>
          rw [ih hnext (i := i) (by rw [List.length_cons] at hi; omega)
            (by rw [u64_add, Nat.add_comm 1]; exact hpa) fun j hj hlt => by
            rw [u64_add]
            exact honce (1 + j) (by omega) (by rw [List.length_cons]; omega),
            List.getD_cons_succ]

end Stores

section Copyout

/-- No byte of the range lies in an entry through which the range is reached. -/
def TablesApart (m : Nat → UInt8) (pt va len : Nat) : Prop :=
  ∀ i j, i < len → j < len → ∀ e ∈ sv39Entries m (u64 (va + i)) 2 pt, ∀ pa,
    sv39User m pt (u64 (va + j)) = some pa → ¬ (e ≤ pa ∧ pa < e + 8)

theorem SameEntries.user_eq (h : SameEntries m m' va 2 pt) : sv39User m' pt va = sv39User m pt va := by
  rw [sv39User, sv39User, h.leaf_eq]

/-- Stores to the bytes of the range leave the translation of the range alone. -/
theorem TablesApart.sameEntries (h : TablesApart m pt va len) {o : Nat} {src : List UInt8}
    (hsrc : o + src.length ≤ len) (hsame : ∀ i, i < len → SameEntries m m' (u64 (va + i)) 2 pt) :
    ∀ i, i < len →
      SameEntries m (storeUser (sv39User m pt) m' (u64 (va + o)) src) (u64 (va + i)) 2 pt := by
  intro i hi e he b hb
  have hva : u64 (va + o) < 18446744073709551616 := Nat.mod_lt _ (by decide)
  rw [storeUser_frame src hva fun j hj hpa => by
    rw [u64_add] at hpa
    exact h i (o + j) hi (by omega) e he (e + b) hpa ⟨by omega, by omega⟩]
  exact hsame i hi e he b hb

/-- The passes of `copyout` store the bytes up to the first hole. -/
theorem copyout_loop (h : PagedRange m pt va len) (hapart : TablesApart m pt va len) (fuel : Nat) :
    ∀ (o : Nat) (src : List UInt8) (mm : Mm), o + src.length = len → src.length ≤ fuel →
      (∀ i, i < len → SameEntries m mm.mem (u64 (va + i)) 2 pt) →
      ∃ k last, MappedPrefix m pt (u64 (va + o)) src.length k ∧
        Prog.loop (copyoutPass pt) fuel (u64 (va + o), src) mm =
          (if k = src.length then .ok last else .err .fault,
            { mm with mem := storeUser (sv39User m pt) mm.mem (u64 (va + o)) (src.take k) }) := by
  induction fuel with
  | zero =>
      intro o src mm hlen hfuel hsame
      obtain rfl : src = [] := List.length_eq_zero_iff.mp (by omega)
      exact ⟨0, (u64 (va + o), []), .empty _ _ _, rfl⟩
  | succ fuel ih =>
      intro o src mm hlen hfuel hsame
      by_cases hsrc : src = []
      · subst hsrc
        exact ⟨0, (u64 (va + o), []), .empty _ _ _, rfl⟩
      have hpos : src.length ≠ 0 := fun hzero => hsrc (List.length_eq_zero_iff.mp hzero)
      have hva : u64 (va + o) < 18446744073709551616 := Nat.mod_lt _ (by decide)
      have htail := h.tail (n := o) (by omega)
      have hsame₀ := hsame o (by omega)
      have hrange : PagedRange mm.mem pt (u64 (va + o)) 1 := by
        refine ⟨hva, by decide, fun i hi => ?_, fun i hi => ?_⟩
        all_goals
          obtain rfl : i = 0 := by omega
          rw [Nat.add_zero, u64_of_lt hva]
        · rw [hsame₀.leaf_eq]
          exact h.pages o (by omega)
        · rw [hsame₀.user_eq]
          exact h.nonzero o (by omega)
      have huser := hsame₀.user_eq
      cases hpa : sv39User m pt (u64 (va + o)) with
      | none =>
          refine ⟨0, (u64 (va + o), src), .none hva hpa, ?_⟩
          have hzero := (hrange.userPa_zero_iff one_ne_zero).mpr (huser.trans hpa)
          rw [Prog.loop, Prog.bind_err (copyoutPass_err hsrc hzero), if_neg (Ne.symm hpos)]
          rfl
      | some pa =>
          have haddr : userPa mm pt (u64 (va + o)) = pa := by
            rw [hrange.userPa_eq one_ne_zero, huser, hpa, Option.getD_some]
          have hne : userPa mm pt (u64 (va + o)) ≠ 0 := by
            intro hzero
            rw [(hrange.userPa_zero_iff one_ne_zero).mp hzero, hpa] at huser
            cases huser
          generalize hn : min (4096 - u64 (va + o) % 4096) src.length = n
          have hchunk : ∀ i, i < n → sv39User m pt (u64 (u64 (va + o) + i)) = some (pa + i) :=
            fun i hi => sv39User_chunk hva hpa (by omega)
          have htake : (src.take n).length = n := by
            rw [List.length_take]
            omega
          -- what the pass stores
          have hstore : overlay mm.mem pa n (fun i => src.getD i 0) =
              storeUser (sv39User m pt) mm.mem (u64 (va + o)) (src.take n) := by
            rw [storeUser_chunk (src.take n) hva fun i hi => hchunk i (by omega), htake]
            funext y
            by_cases hin : pa ≤ y ∧ y < pa + n
            · rw [overlay_of_mem hin, overlay_of_mem hin]
              simp only [List.getD_eq_getElem?_getD]
              rw [List.getElem?_take_of_lt (by omega)]
            · rw [overlay_of_not_mem hin, overlay_of_not_mem hin]
          have hpass := copyoutPass_ok hsrc hne hn
          rw [haddr, Mm.storeAt, hstore, u64_add] at hpass
          have hdrop : (src.drop n).length = src.length - n := List.length_drop
          have hnew : ∀ i, i < len → SameEntries m
              (storeUser (sv39User m pt) mm.mem (u64 (va + o)) (src.take n)) (u64 (va + i)) 2 pt :=
            hapart.sameEntries (by omega) hsame
          obtain ⟨k, last, hk, hrun⟩ := ih (o + n) (src.drop n) { mm with mem := _ } (by omega)
            (by omega) hnew
          rw [hdrop, ← u64_add] at hk
          have hle := hk.le
          refine ⟨n + k, last,
            .add (fun i hi => by rw [hchunk i hi]; rfl) (by omega) hk, ?_⟩
          have hend : (k = (src.drop n).length) = (n + k = src.length) :=
            propext ⟨by omega, by omega⟩
          rw [Prog.loop, Prog.bind_ok hpass, Option.elim_some, hrun, List.take_add,
            storeUser_append _ _ hva, htake, u64_add]
          simp only [hend]

/-- What is asked of `copyout`: it succeeds exactly when all bytes are mapped, it then stores
each byte at its address, otherwise only those in front of a hole, and nothing else is
changed. -/
structure CopyoutBytewise (mm : Mm) (pt va : Nat) (src : List UInt8) : Prop where
  ok_iff : (copyout pt va src mm).1 = .ok () ↔
    ∀ i, i < src.length → (sv39User mm.mem pt (u64 (va + i))).isSome
  ok_bytes : (copyout pt va src mm).1 = .ok () → (copyout pt va src mm).2 =
    { mm with mem := storeUser (sv39User mm.mem pt) mm.mem va src }
  err_prefix : (copyout pt va src mm).1 ≠ .ok () → (copyout pt va src mm).1 = .err .fault ∧
    ∃ k, k < src.length ∧ (∀ i, i < k → (sv39User mm.mem pt (u64 (va + i))).isSome) ∧
      (copyout pt va src mm).2 =
        { mm with mem := storeUser (sv39User mm.mem pt) mm.mem va (src.take k) }
  frame : ∀ x, (∀ i, i < src.length → sv39User mm.mem pt (u64 (va + i)) ≠ some x) →
    (copyout pt va src mm).2.mem x = mm.mem x

theorem SameEntries.refl (m : Nat → UInt8) (va level table : Nat) :
    SameEntries m m va level table := fun _ _ _ _ => rfl

theorem copyout_run {src : List UInt8} (h : PagedRange mm.mem pt va src.length)
    (hapart : TablesApart mm.mem pt va src.length) :
    ∃ k, MappedPrefix mm.mem pt va src.length k ∧ copyout pt va src mm =
      (if k = src.length then .ok () else .err .fault,
        { mm with mem := storeUser (sv39User mm.mem pt) mm.mem va (src.take k) }) := by
  obtain ⟨k, last, hk, hloop⟩ := copyout_loop h hapart src.length 0 src mm (Nat.zero_add _)
    (Nat.le_refl _) fun i _ => .refl _ _ _ _
  rw [Nat.add_zero, u64_of_lt h.va_lt] at hk hloop
  refine ⟨k, hk, ?_⟩
  by_cases hall : k = src.length
  · rw [if_pos hall] at hloop ⊢
    rw [copyout, Prog.bind_ok hloop, Prog.pure_apply]
  · rw [if_neg hall] at hloop ⊢
    rw [copyout, Prog.bind_err hloop]

theorem copyout_bytewise {src : List UInt8} (h : PagedRange mm.mem pt va src.length)
    (hapart : TablesApart mm.mem pt va src.length) : CopyoutBytewise mm pt va src := by
  obtain ⟨k, hk, hrun⟩ := copyout_run h hapart
  have hle := hk.le
  have hframe : ∀ x, (∀ i, i < src.length → sv39User mm.mem pt (u64 (va + i)) ≠ some x) →
      (copyout pt va src mm).2.mem x = mm.mem x := by
    intro x hx
    rw [hrun]
    exact storeUser_frame _ h.va_lt fun i hi => hx i (by rw [List.length_take] at hi; omega)
  by_cases hall : k = src.length
  · rw [if_pos hall, hall, List.take_length] at hrun
    refine ⟨⟨fun _ => hk.eq_iff.mp hall, fun _ => by rw [hrun]⟩, fun _ => by rw [hrun],
      fun hne => ?_, hframe⟩
    rw [hrun] at hne
    exact absurd rfl hne
  · rw [if_neg hall] at hrun
    refine ⟨⟨fun hok => ?_, fun hmapped => absurd (hk.eq_iff.mpr hmapped) hall⟩, fun hok => ?_,
      fun _ => ⟨by rw [hrun], k, by omega, hk.mapped, by rw [hrun]⟩, hframe⟩
    all_goals
      rw [hrun] at hok
      cases hok

/-- No two pages of the range are the same physical page. -/
def PagesOnce (m : Nat → UInt8) (pt va len : Nat) : Prop :=
  ∀ i j, i < len → j < len → ∀ p q, sv39User m pt (u64 (va + i)) = some p →
    sv39User m pt (u64 (va + j)) = some q → p / 4096 = q / 4096 →
      u64 (va + i) / 4096 = u64 (va + j) / 4096

theorem sv39User_offset {pa : Nat} (h : sv39User m pt va = some pa) : pa % 4096 = va % 4096 := by
  obtain ⟨leaf, _, hpa⟩ := Option.bind_eq_some_iff.mp h
  by_cases huser : leaf.level = 0 ∧ leaf.pte &&& pteU ≠ 0
  · rw [if_pos huser] at hpa
    obtain rfl := Option.some.inj hpa
    have hpage := pte2pa_page leaf.pte
    rw [Sv39Leaf.pa, huser.1, Nat.pow_zero, Nat.mul_one]
    omega
  · rw [if_neg huser] at hpa
    cases hpa

theorem PagesOnce.injective (h : PagesOnce m pt va len) (hrange : PagedRange m pt va len)
    {i j x : Nat} (hi : i < len) (hj : j < len) (hp : sv39User m pt (u64 (va + i)) = some x)
    (hq : sv39User m pt (u64 (va + j)) = some x) : i = j := by
  have hpage := h i j hi hj x x hp hq rfl
  have hoff := (sv39User_offset hp).symm.trans (sv39User_offset hq)
  have hlen := hrange.len_lt
  have hva := hrange.va_lt
  simp only [u64] at hpage hoff
  omega

/-- What `copyout` has stored, `copyin` reads back. -/
theorem copyout_copyin {src : List UInt8} (h : PagedRange mm.mem pt va src.length)
    (hapart : TablesApart mm.mem pt va src.length) (honce : PagesOnce mm.mem pt va src.length)
    (hok : (copyout pt va src mm).1 = .ok ()) (buf : Nat → UInt8) :
    copyinTo pt va src.length ((copyout pt va src mm).2, buf) =
      (.ok (), ((copyout pt va src mm).2, overlay buf 0 src.length fun i => src.getD i 0)) := by
  have hout := copyout_bytewise h hapart
  have hmapped := hout.ok_iff.mp hok
  have hmem := hout.ok_bytes hok
  generalize (copyout pt va src mm).2 = mm' at hmem ⊢
  have hmem : mm'.mem = storeUser (sv39User mm.mem pt) mm.mem va src := by rw [hmem]
  have hsame : ∀ i, i < src.length → SameEntries mm.mem mm'.mem (u64 (va + i)) 2 pt := by
    have hentries : ∀ i, i < src.length → SameEntries mm.mem
        (storeUser (sv39User mm.mem pt) mm.mem (u64 (va + 0)) src) (u64 (va + i)) 2 pt :=
      hapart.sameEntries (by omega) fun i _ => .refl _ _ _ _
    rw [Nat.add_zero, u64_of_lt h.va_lt] at hentries
    rw [hmem]
    exact hentries
  have hrange : PagedRange mm'.mem pt va src.length := by
    refine ⟨h.va_lt, h.len_lt, fun i hi => ?_, fun i hi => ?_⟩
    · rw [(hsame i hi).leaf_eq]
      exact h.pages i hi
    · rw [(hsame i hi).user_eq]
      exact h.nonzero i hi
  have hin := copyinTo_bytewise hrange buf
  have hok' := hin.ok_iff.mpr fun i hi => by
    rw [(hsame i hi).user_eq]
    exact hmapped i hi
  have hbytes := hin.ok_bytes hok'
  have hload : (overlay buf 0 src.length fun i => loadUser mm'.mem pt (u64 (va + i))) =
      overlay buf 0 src.length fun i => src.getD i 0 := by
    funext x
    by_cases hx : 0 ≤ x ∧ x < 0 + src.length
    · rw [overlay_of_mem hx, overlay_of_mem hx, Nat.sub_zero]
      have hxlt : x < src.length := by omega
      obtain ⟨pa, hpa⟩ := Option.isSome_iff_exists.mp (hmapped x hxlt)
      rw [loadUser, (hsame x hxlt).user_eq, hpa, Option.map_some, Option.getD_some, hmem]
      apply storeUser_at src h.va_lt hxlt hpa
      intro j hj hlt hq
      have heq := honce.injective h hxlt hlt hpa hq
      omega
    · rw [overlay_of_not_mem hx, overlay_of_not_mem hx]
  rw [← hload, ← hbytes, ← hok']

end Copyout

section Copyinstr

/-- A string of `n` characters and its final zero. -/
structure UserString (m : Nat → UInt8) (pt va n : Nat) : Prop where
  mapped : ∀ i, i ≤ n → (sv39User m pt (u64 (va + i))).isSome
  nonzero : ∀ i, i < n → loadUser m pt (u64 (va + i)) ≠ 0
  zero : loadUser m pt (u64 (va + n)) = 0

/-- The first `n` bytes of the range are characters. -/
def Characters (m : Nat → UInt8) (pt va n : Nat) : Prop :=
  ∀ i, i < n → (sv39User m pt (u64 (va + i))).isSome ∧ loadUser m pt (u64 (va + i)) ≠ 0

/-- The bytes of the range. -/
def userChars (m : Nat → UInt8) (pt va n : Nat) : List UInt8 :=
  (List.range n).map fun i => loadUser m pt (u64 (va + i))

theorem Characters.cons (hva : va < 18446744073709551616)
    (h : (sv39User m pt va).isSome ∧ loadUser m pt va ≠ 0)
    (hrest : Characters m pt (u64 (va + 1)) n) : Characters m pt va (n + 1) := by
  intro i hi
  cases i with
  | zero =>
      rw [Nat.add_zero, u64_of_lt hva]
      exact h
  | succ i =>
      have hchar := hrest i (by omega)
      rwa [u64_add, Nat.add_comm 1] at hchar

theorem UserString.cons (hva : va < 18446744073709551616)
    (h : (sv39User m pt va).isSome ∧ loadUser m pt va ≠ 0)
    (hrest : UserString m pt (u64 (va + 1)) n) : UserString m pt va (n + 1) := by
  have hchars : Characters m pt (u64 (va + 1)) n := fun i hi =>
    ⟨hrest.mapped i (by omega), hrest.nonzero i hi⟩
  have hall := hchars.cons hva h
  have hlast := hrest.mapped n (Nat.le_refl n)
  have hzero := hrest.zero
  rw [u64_add, Nat.add_comm 1] at hlast hzero
  refine ⟨fun i hi => ?_, fun i hi => (hall i hi).2, hzero⟩
  rcases Nat.lt_succ_iff_lt_or_eq.mp (Nat.lt_succ_of_le hi) with hi | rfl
  · exact (hall i hi).1
  · exact hlast

theorem userChars_succ (hva : va < 18446744073709551616) :
    userChars m pt va (n + 1) = loadUser m pt va :: userChars m pt (u64 (va + 1)) n := by
  rw [userChars, List.range_succ_eq_map, List.map_cons, Nat.add_zero, u64_of_lt hva, List.map_map,
    userChars]
  congr 1
  apply List.map_congr_left
  intro i _
  rw [Function.comp_apply, u64_add, Nat.add_comm 1]

/-- How the passes of `copyinstr` can end. -/
inductive CopyinstrEnds (mm : Mm) (pt va max : Nat) (dst : List UInt8) :
    Outcome Errno (Nat × List UInt8) → Prop
  | string (n last : Nat) (hn : n < max) (h : UserString mm.mem pt va n) :
      CopyinstrEnds mm pt va max dst (.ok (last, dst ++ userChars mm.mem pt va (n + 1)))
  | full (last : Nat) (h : Characters mm.mem pt va max) :
      CopyinstrEnds mm pt va max dst (.ok (last, dst ++ userChars mm.mem pt va max))
  | hole (k : Nat) (hk : k < max) (h : Characters mm.mem pt va k)
      (hnone : sv39User mm.mem pt (u64 (va + k)) = none) :
      CopyinstrEnds mm pt va max dst (.err .fault)

theorem copyinstr_loop (fuel : Nat) :
    ∀ (va : Nat) (dst : List UInt8), PagedRange mm.mem pt va fuel → dst.getLast? ≠ some 0 →
      ∃ r, Prog.loop (copyinstrPass pt) fuel (va, dst) mm = (r, mm) ∧
        CopyinstrEnds mm pt va fuel dst r := by
  induction fuel with
  | zero =>
      intro va dst _ _
      refine ⟨.ok (va, dst), rfl, ?_⟩
      have hnone : Characters mm.mem pt va 0 := fun i hi => absurd hi (Nat.not_lt_zero i)
      have hend := @CopyinstrEnds.full mm pt va 0 dst va hnone
      rwa [userChars, List.range_zero, List.map_nil, List.append_nil] at hend
  | succ fuel ih =>
      intro va dst h hlast
      have hva := h.va_lt
      cases hpa : sv39User mm.mem pt va with
      | none =>
          refine ⟨.err .fault, ?_, .hole 0 (Nat.succ_pos _) (fun i hi => absurd hi (Nat.not_lt_zero i)) ?_⟩
          · have hpass : copyinstrPass pt (va, dst) mm = (.err .fault, mm) := by
              simp only [copyinstrPass]
              rw [if_neg hlast, Prog.bind_ok (walkaddr_eq mm pt va),
                if_pos ((h.userPa_zero_iff (Nat.succ_ne_zero _)).mpr hpa)]
              rfl
            rw [Prog.loop, Prog.bind_err hpass]
          · rwa [Nat.add_zero, u64_of_lt hva]
      | some pa =>
          have haddr : userPa mm pt va = pa := by
            rw [h.userPa_eq (Nat.succ_ne_zero _), hpa, Option.getD_some]
          have hne : pa ≠ 0 := by
            rintro rfl
            rw [(h.userPa_zero_iff (Nat.succ_ne_zero _)).mp haddr] at hpa
            cases hpa
          have hload : loadUser mm.mem pt va = mm.mem pa := by
            rw [loadUser, hpa, Option.map_some, Option.getD_some]
          have hpass : copyinstrPass pt (va, dst) mm =
              (.ok (some (u64 (va + 1), dst ++ [loadUser mm.mem pt va])), mm) := by
            simp only [copyinstrPass]
            rw [if_neg hlast, Prog.bind_ok (walkaddr_eq mm pt va), haddr, if_neg hne, hload]
            rfl
          rw [Prog.loop, Prog.bind_ok hpass, Option.elim_some]
          by_cases hzero : loadUser mm.mem pt va = 0
          · -- the loop has met the final zero
            refine ⟨.ok (u64 (va + 1), dst ++ [loadUser mm.mem pt va]), ?_, ?_⟩
            · have hstop : (dst ++ [loadUser mm.mem pt va]).getLast? = some 0 := by
                rw [List.getLast?_append, hzero]
                rfl
              cases fuel with
              | zero => rfl
              | succ fuel =>
                  have hdone : copyinstrPass pt (u64 (va + 1), dst ++ [loadUser mm.mem pt va]) mm =
                      (.ok none, mm) := by
                    simp only [copyinstrPass]
                    rw [if_pos hstop, Prog.pure_apply]
                  rw [Prog.loop, Prog.bind_ok hdone, Option.elim_none, Prog.pure_apply]
            · have hstring : UserString mm.mem pt va 0 := by
                refine ⟨fun i hi => ?_, fun i hi => absurd hi (Nat.not_lt_zero i), ?_⟩
                · obtain rfl : i = 0 := by omega
                  rw [Nat.add_zero, u64_of_lt hva, hpa]
                  rfl
                · rwa [Nat.add_zero, u64_of_lt hva]
              have hend := @CopyinstrEnds.string mm pt va (fuel + 1) dst 0 (u64 (va + 1))
                (Nat.succ_pos fuel) hstring
              rwa [userChars_succ hva, userChars, List.range_zero, List.map_nil] at hend
          · have hchar : (sv39User mm.mem pt va).isSome ∧ loadUser mm.mem pt va ≠ 0 :=
              ⟨by rw [hpa]; rfl, hzero⟩
            have hlast' : (dst ++ [loadUser mm.mem pt va]).getLast? ≠ some 0 := by
              rw [List.getLast?_append]
              exact fun heq => hzero (Option.some.inj heq)
            obtain ⟨r, hrun, hend⟩ := ih (u64 (va + 1)) (dst ++ [loadUser mm.mem pt va])
              (by simpa using h.tail (n := 1) (by omega)) hlast'
            refine ⟨r, hrun, ?_⟩
            cases hend with
            | string n last hn hstring =>
                rw [List.append_assoc, List.singleton_append, ← userChars_succ hva]
                exact .string (n + 1) last (by omega) (hstring.cons hva hchar)
            | full last hchars =>
                rw [List.append_assoc, List.singleton_append, ← userChars_succ hva]
                exact .full last (hchars.cons hva hchar)
            | hole k hk hchars hnone =>
                rw [u64_add, Nat.add_comm 1] at hnone
                exact .hole (k + 1) (by omega) (hchars.cons hva hchar) hnone

/-- What is asked of `copyinstr`: it succeeds exactly when a zero is found among the first
`max` bytes and all bytes up to it are mapped, and delivers the string then. -/
structure CopyinstrBytewise (mm : Mm) (pt va max : Nat) : Prop where
  ok_iff : (∃ d, (copyinstr pt va max mm).1 = .ok d) ↔
    ∃ n, n < max ∧ (∀ i, i ≤ n → (sv39User mm.mem pt (u64 (va + i))).isSome) ∧
      loadUser mm.mem pt (u64 (va + n)) = 0
  ok_string : ∀ d, (copyinstr pt va max mm).1 = .ok d →
    ∃ n, n < max ∧ UserString mm.mem pt va n ∧ d = userChars mm.mem pt va (n + 1)
  frame : (copyinstr pt va max mm).2 = mm

theorem UserString.getLast (h : UserString m pt va n) :
    (userChars m pt va (n + 1)).getLast? = some 0 := by
  rw [userChars, List.range_succ, List.map_append, List.getLast?_append, ← h.zero]
  rfl

theorem Characters.getLast (h : Characters m pt va n) :
    (userChars m pt va n).getLast? ≠ some 0 := by
  intro heq
  have hmem := List.mem_of_getLast? heq
  obtain ⟨i, hi, hzero⟩ := List.mem_map.mp hmem
  exact (h i (List.mem_range.mp hi)).2 hzero

/-- A call that fails has met no string. -/
theorem CopyinstrBytewise.of_fails {max : Nat} {e : Errno}
    (hrun : copyinstr pt va max mm = (.err e, mm))
    (hnone : ∀ n, n < max → (∀ i, i ≤ n → (sv39User mm.mem pt (u64 (va + i))).isSome) →
      loadUser mm.mem pt (u64 (va + n)) ≠ 0) : CopyinstrBytewise mm pt va max := by
  refine ⟨⟨?_, ?_⟩, fun d hd => ?_, by rw [hrun]⟩
  · rintro ⟨d, hd⟩
    rw [hrun] at hd
    cases hd
  · rintro ⟨n, hn, hmapped, hzero⟩
    exact absurd hzero (hnone n hn hmapped)
  · rw [hrun] at hd
    cases hd

theorem copyinstr_bytewise {max : Nat} (h : PagedRange mm.mem pt va max) :
    CopyinstrBytewise mm pt va max := by
  obtain ⟨r, hloop, hend⟩ := copyinstr_loop max va [] h nofun
  cases hend with
  | string n last hn hstring =>
      have hrun : copyinstr pt va max mm = (.ok (userChars mm.mem pt va (n + 1)), mm) := by
        rw [copyinstr, Prog.bind_ok hloop]
        dsimp only [List.nil_append]
        rw [if_pos hstring.getLast, Prog.pure_apply]
      refine ⟨⟨fun _ => ⟨n, hn, hstring.mapped, hstring.zero⟩, fun _ => ⟨_, by rw [hrun]⟩⟩,
        fun d hd => ?_, by rw [hrun]⟩
      rw [hrun] at hd
      cases hd
      exact ⟨n, hn, hstring, rfl⟩
  | full last hchars =>
      have hrun : copyinstr pt va max mm = (.err .nametoolong, mm) := by
        rw [copyinstr, Prog.bind_ok hloop]
        dsimp only [List.nil_append]
        rw [if_neg hchars.getLast, Prog.fail_apply]
      exact .of_fails hrun fun n hn _ => (hchars n hn).2
  | hole k hk hchars hnone =>
      have hrun : copyinstr pt va max mm = (.err .fault, mm) := by
        rw [copyinstr, Prog.bind_err hloop]
      refine .of_fails hrun fun n _ hmapped => ?_
      by_cases hlt : n < k
      · exact (hchars n hlt).2
      · have hsome := hmapped k (Nat.le_of_not_lt hlt)
        rw [hnone] at hsome
        cases hsome

end Copyinstr

section Bytewise

/-- The three copies are what they are byte by byte.  The range has pages of 4 KiB, none of
them at physical address 0; what `copyout` stores lies apart from the tables that it is
stored through. -/
theorem userCopies_bytewise {src : List UInt8} (buf : Nat → UInt8)
    (h : PagedRange mm.mem pt va src.length) :
    CopyinBytewise mm pt va src.length buf ∧
    (TablesApart mm.mem pt va src.length → CopyoutBytewise mm pt va src ∧
      (PagesOnce mm.mem pt va src.length → (copyout pt va src mm).1 = .ok () →
        copyinTo pt va src.length ((copyout pt va src mm).2, buf) = (.ok (),
          ((copyout pt va src mm).2, overlay buf 0 src.length fun i => src.getD i 0)))) ∧
    CopyinstrBytewise mm pt va src.length :=
  ⟨copyinTo_bytewise h buf, fun hapart => ⟨copyout_bytewise h hapart, fun honce hok =>
    copyout_copyin h hapart honce hok buf⟩, copyinstr_bytewise h⟩

/-- Memory with three tables: the page at `0x400000` is the physical page 0, that at
`0x5fe000` the last of the tables, and that at `0x5ff000` the page behind it. -/
def threeTables : Mm where
  mem := put64 (put64 (put64 (put64 (put64 (fun _ => 0) 0x1000 (tableWord 0x2000))
    0x2010 (tableWord 0x3000)) 0x3000 (leafWord 0 22)) 0x3ff0 (leafWord 0x3000 22))
    0x3ff8 (leafWord 0x4000 22)
  freelist := 0
  satp := 0

/-- All leaves of the user range are pages. -/
theorem threeTables_pages (hva : va < userLimit) {leaf : Sv39Leaf}
    (hleaf : sv39Leaf threeTables.mem va 2 0x1000 = some leaf) : leaf.level = 0 := by
  have hlimit : userLimit = 0x1400000 := rfl
  have hroot : sv39Entry 2 0x1000 va = 0x1000 := by
    rw [sv39Entry_two, vpn2]
    omega
  have hword : le64 threeTables.mem (sv39Entry 2 0x1000 va) = tableWord 0x2000 := by
    rw [hroot]
    decide +kernel
  rw [sv39Leaf_table (by rw [hword]; decide) (by rw [hword]; decide), hword,
    show pte2pa (tableWord 0x2000) = 0x2000 from by decide] at hleaf
  have hindex : vpn1 va < 10 := by
    rw [vpn1]
    omega
  have hnot : ∀ i, i < 10 →
      le64 threeTables.mem (0x2000 + 8 * i) &&& (pteR ||| pteW ||| pteX) = 0 := by decide +kernel
  have hnext := hnot (vpn1 va) hindex
  rw [← sv39Entry_one] at hnext
  by_cases hvalid : le64 threeTables.mem (sv39Entry 1 0x2000 va) &&& pteV = 0
  · rw [sv39Leaf_invalid hvalid] at hleaf
    cases hleaf
  rw [sv39Leaf_table hvalid hnext] at hleaf
  generalize pte2pa (le64 threeTables.mem (sv39Entry 1 0x2000 va)) = l0 at hleaf
  by_cases hpage : le64 threeTables.mem (sv39Entry 0 l0 va) &&& pteV = 0
  · rw [sv39Leaf_invalid hpage] at hleaf
    cases hleaf
  · rw [sv39Leaf_page hpage] at hleaf
    cases hleaf
    rfl

theorem threeTables_paged : PagedRange threeTables.mem 0x1000 0x5ff000 2 := by
  refine ⟨by decide, by decide, fun i hi leaf hleaf => ?_, by decide +kernel⟩
  refine threeTables_pages ?_ hleaf
  rw [u64_of_lt (by omega), show userLimit = 0x1400000 from rfl]
  omega

theorem threeTables_apart : TablesApart threeTables.mem 0x1000 0x5ff000 2 := by
  intro i j hi hj e he pa hpa
  have hall : ∀ i, i < 2 → ∀ j, j < 2 → ∀ e ∈ sv39Entries threeTables.mem (u64 (0x5ff000 + i)) 2 0x1000,
      ∀ pa ∈ sv39User threeTables.mem 0x1000 (u64 (0x5ff000 + j)), ¬ (e ≤ pa ∧ pa < e + 8) := by
    decide +kernel
  exact hall i hi j hj e he pa hpa

/-- Two bytes at the start of the last of these pages. -/
theorem userCopies_bytewise_two : CopyinBytewise threeTables 0x1000 0x5ff000 2 (fun _ => 0) ∧
    CopyoutBytewise threeTables 0x1000 0x5ff000 [1, 2] ∧
    CopyinstrBytewise threeTables 0x1000 0x5ff000 2 := by
  have hrange : PagedRange threeTables.mem 0x1000 0x5ff000 [(1 : UInt8), 2].length :=
    threeTables_paged
  obtain ⟨hin, hout, hstr⟩ := userCopies_bytewise (fun _ => 0) hrange
  exact ⟨hin, (hout threeTables_apart).1, hstr⟩

/-- With these pages `copyin` of the byte at `0x400000` fails although it is mapped, and so
does `copyout` of nine zeros from the last entry of the table on: the first eight of them
clear the entry of the page of the ninth. -/
theorem userCopies_gaps :
    (∀ va leaf, va < userLimit → sv39Leaf threeTables.mem va 2 0x1000 = some leaf →
      leaf.level = 0) ∧
    ((sv39User threeTables.mem 0x1000 0x400000).isSome ∧
      (copyinTo 0x1000 0x400000 1 (threeTables, fun _ => 0)).1 = .err .fault) ∧
    (∀ i, i < 9 → (sv39User threeTables.mem 0x1000 (0x5feff8 + i)).isSome) ∧
      (copyout 0x1000 0x5feff8 (List.replicate 9 0) threeTables).1 = .err .fault :=
  ⟨fun _ _ hva hleaf => threeTables_pages hva hleaf, ⟨by decide +kernel, by decide +kernel⟩,
    by decide +kernel, by decide +kernel⟩

end Bytewise

end OsAgentLab
