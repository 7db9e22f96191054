/-
User memory byte by byte: what `copyin` reads does not depend on how the
bytes lie in pages.
-/
import OsAgentLab.Vm.PageTable

namespace OsAgentLab

/-- The value that a call delivered, or `a`. -/
def Outcome.valueD {ε α : Type} (a : α) : Outcome ε α → α
  | .ok value => value
  | _ => a

/-- The physical address of a byte of user memory, zero where there is none. -/
def userPa (mm : Mm) (pt va : Nat) : Nat := (walkaddr pt va mm).1.valueD 0

/-- The byte at a user address. -/
def userByte (mm : Mm) (pt va : Nat) : Option UInt8 :=
  if userPa mm pt va = 0 then none else some (mm.mem (userPa mm pt va))

/-- The bytes at the user addresses from `va` on, when all of them are there. -/
def userBytes (mm : Mm) (pt va : Nat) : Nat → Option (List UInt8)
  | 0 => some []
  | len + 1 =>
      (userByte mm pt va).bind fun b => (userBytes mm pt (u64 (va + 1)) len).map (b :: ·)

variable {mm : Mm} {pt va : Nat}

section Walk

theorem walkLevel_eq (mm : Mm) (pt idx : Nat) :
    ∃ r, walkLevel pt idx false mm = (.ok r, mm) := by
  rw [walkLevel, Prog.bind_ok (show load64 (pt + 8 * idx) mm = (.ok _, mm) from rfl)]
  by_cases hvalid : le64 mm.mem (pt + 8 * idx) &&& pteV ≠ 0
  · rw [if_pos hvalid]
    exact ⟨_, rfl⟩
  · rw [if_neg hvalid, if_neg (by decide)]
    exact ⟨_, rfl⟩

theorem walk_eq (mm : Mm) (pt va : Nat) : ∃ r, walk pt va false mm = (.ok r, mm) := by
  obtain ⟨l1, hl1⟩ := walkLevel_eq mm pt (vpn2 va)
  rw [walk, Prog.bind_ok hl1]
  cases l1 with
  | none => exact ⟨_, rfl⟩
  | some l1 =>
      obtain ⟨l0, hl0⟩ := walkLevel_eq mm l1 (vpn1 va)
      rw [Option.elim_some, Prog.bind_ok hl0]
      cases l0 with
      | none => exact ⟨_, rfl⟩
      | some l0 => exact ⟨_, rfl⟩

theorem walkPte_eq (mm : Mm) (pt va : Nat) : ∃ r, walkPte pt va mm = (.ok r, mm) := by
  obtain ⟨entry, hentry⟩ := walk_eq mm pt va
  rw [walkPte, Prog.bind_ok hentry]
  cases entry with
  | none => exact ⟨_, rfl⟩
  | some entry =>
      rw [Option.elim_some, Prog.bind_ok (show load64 entry mm = (.ok _, mm) from rfl)]
      by_cases hvalid : le64 mm.mem entry &&& pteV = 0
      · rw [if_pos hvalid]
        exact ⟨_, rfl⟩
      · rw [if_neg hvalid]
        exact ⟨_, rfl⟩

/-- Addresses in one page have the same entry. -/
theorem walkPte_page {va' : Nat} (h : va / 4096 = va' / 4096) :
    walkPte pt va = walkPte pt va' := by
  have h2 : vpn2 va = vpn2 va' := by
    simp only [vpn2]
    omega
  have h1 : vpn1 va = vpn1 va' := by
    simp only [vpn1]
    omega
  have h0 : vpn0 va = vpn0 va' := by
    simp only [vpn0]
    omega
  rw [walkPte, walkPte, walk, walk, h2, h1, h0]

theorem walkaddr_run (mm : Mm) (pt va : Nat) : ∃ pa, walkaddr pt va mm = (.ok pa, mm) := by
  obtain ⟨found, hfound⟩ := walkPte_eq mm pt va
  rw [walkaddr, Prog.bind_ok hfound]
  cases found with
  | none => exact ⟨0, rfl⟩
  | some found =>
      rw [Option.elim_some]
      by_cases huser : found.2 &&& pteU = 0
      · rw [if_pos huser]
        exact ⟨_, Prog.pure_apply _ _⟩
      · rw [if_neg huser]
        exact ⟨_, Prog.pure_apply _ _⟩

theorem userPa_of_run {pa : Nat} {mm' : Mm} (h : walkaddr pt va mm = (.ok pa, mm')) :
    userPa mm pt va = pa :=
  congrArg (fun r => r.1.valueD 0) h

theorem walkaddr_eq (mm : Mm) (pt va : Nat) :
    walkaddr pt va mm = (.ok (userPa mm pt va), mm) := by
  obtain ⟨pa, hpa⟩ := walkaddr_run mm pt va
  exact (userPa_of_run hpa).symm ▸ hpa

theorem pte2pa_page (pte : Nat) :
    pte2pa pte % 4096 = 0 ∧ pte2pa pte + 4096 ≤ 18446744073709551616 := by
  have hpow : (2 : Nat) ^ 12 = 4096 := by decide
  rw [pte2pa, u64, Nat.shiftLeft_eq, hpow]
  generalize pte >>> 10 = ppn
  omega

/-- The bytes of one page lie next to each other. -/
theorem userPa_add {n : Nat} (hpa : userPa mm pt va ≠ 0) (hn : va % 4096 + n < 4096) :
    userPa mm pt (va + n) = userPa mm pt va + n := by
  obtain ⟨found, hfound⟩ := walkPte_eq mm pt va
  have hfound' : walkPte pt (va + n) mm = (.ok found, mm) := by
    rw [walkPte_page (show (va + n) / 4096 = va / 4096 by omega)]
    exact hfound
  have hpa₁ : ∀ va', walkPte pt va' mm = (.ok found, mm) → userPa mm pt va' =
      found.elim 0 fun found =>
        if found.2 &&& pteU = 0 then 0 else u64 (pte2pa found.2 + va' % pageSize) := by
    intro va' h
    apply userPa_of_run
    rw [walkaddr, Prog.bind_ok h]
    cases found with
    | none => exact Prog.pure_apply _ _
    | some found =>
        rw [Option.elim_some, Option.elim_some]
        by_cases huser : found.2 &&& pteU = 0
        · rw [if_pos huser, if_pos huser, Prog.pure_apply]
        · rw [if_neg huser, if_neg huser, Prog.pure_apply]
  rw [hpa₁ va hfound] at hpa ⊢
  rw [hpa₁ (va + n) hfound']
  cases found with
  | none => exact absurd rfl hpa
  | some found =>
      rw [Option.elim_some] at hpa ⊢
      rw [Option.elim_some]
      by_cases huser : found.2 &&& pteU = 0
      · rw [if_pos huser] at hpa
        exact absurd rfl hpa
      · rw [if_neg huser, if_neg huser]
        have := pte2pa_page found.2
        simp only [pageSize, u64]
        omega

end Walk

section Bytes

theorem userBytes_add (len len' : Nat) (hva : va < 18446744073709551616) :
    userBytes mm pt va (len + len') = (userBytes mm pt va len).bind fun d =>
      (userBytes mm pt (u64 (va + len)) len').map (d ++ ·) := by
  induction len generalizing va with
  | zero =>
      rw [Nat.zero_add, Nat.add_zero, u64_of_lt hva, userBytes, Option.bind_some]
      simp
  | succ len ih =>
      have hnext : u64 (u64 (va + 1) + len) = u64 (va + (len + 1)) := by
        simp only [u64]
        omega
      have hlt : u64 (va + 1) < 18446744073709551616 := Nat.mod_lt _ (by decide)
      rw [Nat.succ_add, userBytes, userBytes, ih hlt, hnext]
      cases userByte mm pt va with
      | none => rfl
      | some b =>
          simp only [Option.bind_some]
          cases userBytes mm pt (u64 (va + 1)) len with
          | none => rfl
          | some d =>
              simp only [Option.bind_some, Option.map_some]
              cases userBytes mm pt (u64 (va + (len + 1))) len' with
              | none => rfl
              | some d' => rfl

theorem userBytes_length {len : Nat} {d : List UInt8} (h : userBytes mm pt va len = some d) :
    d.length = len := by
  induction len generalizing va d with
  | zero =>
      cases h
      rfl
  | succ len ih =>
      obtain ⟨b, _, hrest⟩ := Option.bind_eq_some_iff.mp h
      obtain ⟨d', hd', rfl⟩ := Option.map_eq_some_iff.mp hrest
      rw [List.length_cons, ih hd']

/-- The bytes up to the end of a page, or of the range. -/
theorem userBytes_page {n : Nat} (hva : va < 18446744073709551616) (hpa : userPa mm pt va ≠ 0)
    (hn : va % 4096 + n ≤ 4096) :
    userBytes mm pt va n = some ((List.range n).map fun i => mm.mem (userPa mm pt va + i)) := by
  induction n with
  | zero => rfl
  | succ n ih =>
      have hlast : userByte mm pt (u64 (va + n)) = some (mm.mem (userPa mm pt va + n)) := by
        have hadd := userPa_add hpa (show va % 4096 + n < 4096 by omega)
        rw [u64_of_lt (by omega), userByte, hadd, if_neg (by omega)]
      rw [userBytes_add n 1 hva, ih (by omega), Option.bind_some, userBytes, userBytes, hlast,
        List.range_succ, List.map_append]
      rfl

end Bytes

section Copyin

/-- A pass of `copyin` that finds its page. -/
theorem copyinPass_ok {len n : Nat} (dst : List UInt8) (hlen : len ≠ 0)
    (hpa : userPa mm pt va ≠ 0) (hn : min (4096 - va % 4096) len = n) :
    copyinPass pt (va, len, dst) mm = (.ok (some (u64 (va + n), len - n,
      dst ++ (List.range n).map fun i => mm.mem (userPa mm pt va + i))), mm) := by
  subst hn
  simp only [copyinPass]
  rw [if_neg hlen, Prog.bind_ok (walkaddr_eq mm pt va), if_neg hpa]
  rfl

/-- A pass of `copyin` that finds no page. -/
theorem copyinPass_err {len : Nat} (dst : List UInt8) (hlen : len ≠ 0)
    (hpa : userPa mm pt va = 0) : copyinPass pt (va, len, dst) mm = (.err .fault, mm) := by
  simp only [copyinPass]
  rw [if_neg hlen, Prog.bind_ok (walkaddr_eq mm pt va), if_pos hpa]
  rfl

/-- The passes of `copyin` collect the bytes of the range. -/
theorem copyin_loop (fuel len : Nat) (dst : List UInt8) (hva : va < 18446744073709551616)
    (hfuel : len ≤ fuel) :
    (∃ d a, userBytes mm pt va len = some d ∧
      Prog.loop (copyinPass pt) fuel (va, len, dst) mm = (.ok (a, 0, dst ++ d), mm)) ∨
    (userBytes mm pt va len = none ∧
      Prog.loop (copyinPass pt) fuel (va, len, dst) mm = (.err .fault, mm)) := by
  induction fuel generalizing va len dst with
  | zero =>
      obtain rfl : len = 0 := by omega
      exact Or.inl ⟨[], va, rfl, by rw [List.append_nil]; rfl⟩
  | succ fuel ih =>
      by_cases hlen : len = 0
      · subst hlen
        exact Or.inl ⟨[], va, rfl, by rw [List.append_nil]; rfl⟩
      by_cases hpa : userPa mm pt va = 0
      · refine Or.inr ⟨?_, Prog.bind_err (copyinPass_err dst hlen hpa) _⟩
        obtain ⟨n, rfl⟩ := Nat.exists_eq_succ_of_ne_zero hlen
        rw [userBytes, userByte, if_pos hpa]
        rfl
      · generalize hn : min (4096 - va % 4096) len = n
        have hpass := copyinPass_ok dst hlen hpa hn
        rw [Prog.loop, Prog.bind_ok hpass, Option.elim_some]
        have hpage : userBytes mm pt va n = _ := userBytes_page hva hpa (by omega)
        have hsplit := @userBytes_add mm pt va n (len - n) hva
        rw [Nat.add_sub_cancel' (by omega), hpage, Option.bind_some] at hsplit
        rw [hsplit]
        rcases ih (len - n)
            (dst ++ (List.range n).map fun i => mm.mem (userPa mm pt va + i))
            (show u64 (va + n) < _ from Nat.mod_lt _ (by decide)) (by omega) with
          ⟨d, a, hd, hrun⟩ | ⟨hnone, hrun⟩
        · refine Or.inl ⟨_, a, by rw [hd]; rfl, ?_⟩
          rw [hrun, List.append_assoc]
        · exact Or.inr ⟨by rw [hnone]; rfl, hrun⟩

/-- `copyin` delivers the bytes of the range, or fails when one is missing. -/
theorem copyin_eq (mm : Mm) (pt len : Nat) (hva : va < 18446744073709551616) :
    copyin pt va len mm =
      ((userBytes mm pt va len).elim (.err .fault) .ok, mm) := by
  rcases @copyin_loop mm pt va len len [] hva (Nat.le_refl len) with
    ⟨d, a, hd, hrun⟩ | ⟨hnone, hrun⟩
  · rw [copyin, Prog.bind_ok hrun, hd]
    rfl
  · rw [copyin, Prog.bind_err hrun, hnone]
    rfl

end Copyin

section Copyout

/-- The memory behind a pass of `copyout`. -/
def Mm.storeAt (mm : Mm) (pa n : Nat) (src : List UInt8) : Mm :=
  { mm with mem := overlay mm.mem pa n fun i => src.getD i 0 }

theorem copyoutPass_ok {src : List UInt8} {n : Nat} (hsrc : src ≠ [])
    (hpa : userPa mm pt va ≠ 0) (hn : min (4096 - va % 4096) src.length = n) :
    copyoutPass pt (va, src) mm =
      (.ok (some (u64 (va + n), src.drop n)), mm.storeAt (userPa mm pt va) n src) := by
  subst hn
  simp only [copyoutPass]
  rw [if_neg hsrc, Prog.bind_ok (walkaddr_eq mm pt va), if_neg hpa]
  rfl

theorem copyoutPass_err {src : List UInt8} (hsrc : src ≠ [])
    (hpa : userPa mm pt va = 0) : copyoutPass pt (va, src) mm = (.err .fault, mm) := by
  simp only [copyoutPass]
  rw [if_neg hsrc, Prog.bind_ok (walkaddr_eq mm pt va), if_pos hpa]
  rfl

end Copyout

end OsAgentLab
