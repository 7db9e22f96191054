/-
Paths compose: a walk along `p/q` is a walk along `p` and then, from the vnode that this
delivers, a walk along `q`.
-/
import OsAgentLab.Boot

namespace OsAgentLab

section Components

variable {path p q : CName}

/-- A name ends at the first slash, whatever comes behind it. -/
theorem takeName_append (name rest : CName) :
    (name ++ 47 :: rest).takeWhile (· ≠ 47) = name.takeWhile (· ≠ 47) ∧
      (name ++ 47 :: rest).dropWhile (· ≠ 47) = name.dropWhile (· ≠ 47) ++ 47 :: rest := by
  induction name with
  | nil => exact ⟨rfl, rfl⟩
  | cons c name ih =>
      by_cases hc : c = 47
      · subst hc
        exact ⟨rfl, rfl⟩
      · have hpos : decide (c ≠ 47) = true := by simpa using hc
        simp only [List.cons_append, List.takeWhile_cons, List.dropWhile_cons, hpos, if_true, ih.1,
          ih.2, and_self]

/-- One call of `path_next` takes at least one character. -/
theorem pathNext_length {name rest : CName} (h : pathNext path = some (name, rest)) :
    rest.length < path.length := by
  rw [pathNext] at h
  cases hdrop : path.dropWhile (· = 47) with
  | nil =>
      rw [hdrop] at h
      cases h
  | cons c tail =>
      rw [hdrop] at h
      cases h
      have hc := dropSlashes_head hdrop
      have hle : (c :: tail).length ≤ path.length := hdrop ▸ List.length_dropWhile_le _ path
      have hrest : ((c :: tail).dropWhile (· ≠ 47)).length ≤ tail.length := by
        rw [List.dropWhile_cons_of_pos (by simpa using hc)]
        exact List.length_dropWhile_le _ tail
      simp only [List.length_cons] at hle
      omega

theorem pathComponentsLoop_fuel {fuel : Nat} (h : path.length ≤ fuel) :
    pathComponentsLoop fuel path = pathComponents path := by
  suffices hany : ∀ n fuel (path : CName), path.length ≤ n → path.length ≤ fuel →
      pathComponentsLoop n path = pathComponentsLoop fuel path from
    (hany _ _ _ (Nat.le_refl _) h).symm
  intro n
  induction n with
  | zero =>
      intro fuel path hn hfuel
      cases List.length_eq_zero_iff.mp (Nat.le_zero.mp hn)
      cases fuel <;> rfl
  | succ n ih =>
      intro fuel path hn hfuel
      cases hnext : pathNext path with
      | none =>
          cases fuel with
          | zero =>
              cases List.length_eq_zero_iff.mp (Nat.le_zero.mp hfuel)
              rfl
          | succ fuel => rw [pathComponentsLoop, pathComponentsLoop, hnext]
      | some r =>
          obtain ⟨name, rest⟩ := r
          have hlt := pathNext_length hnext
          cases fuel with
          | zero => omega
          | succ fuel =>
              rw [pathComponentsLoop, pathComponentsLoop, hnext]
              simp only [ih fuel rest (by omega) (by omega)]

theorem pathComponents_none (h : pathNext path = none) : pathComponents path = [] := by
  rw [pathComponents]
  cases path with
  | nil => rfl
  | cons c tail => rw [List.length_cons, pathComponentsLoop, h]

theorem pathComponents_some {name rest : CName} (h : pathNext path = some (name, rest)) :
    pathComponents path = name :: pathComponents rest := by
  have hlt := pathNext_length h
  rw [← @pathComponentsLoop_fuel path (path.length + 1) (by omega), pathComponentsLoop, h]
  simp only [@pathComponentsLoop_fuel rest path.length (by omega)]

/-- The components of `p/q` are those of `p` and those of `q`. -/
theorem pathComponents_append (p q : CName) :
    pathComponents (p ++ 47 :: q) = pathComponents p ++ pathComponents q := by
  induction hn : p.length using Nat.strongRecOn generalizing p with
  | ind n ih =>
      cases hdrop : p.dropWhile (· = 47) with
      | nil =>
          have hp : pathNext p = none := by rw [pathNext, hdrop]
          have hq : pathNext (p ++ 47 :: q) = pathNext q := by
            rw [pathNext, pathNext, List.dropWhile_append, hdrop]
            rfl
          rw [pathComponents_none hp, List.nil_append]
          cases hnext : pathNext q with
          | none => rw [pathComponents_none hnext, pathComponents_none (hq.trans hnext)]
          | some r => rw [pathComponents_some hnext, pathComponents_some (hq.trans hnext)]
      | cons c tail =>
          have hp : pathNext p = some (((c :: tail).takeWhile (· ≠ 47)).take 255,
              (c :: tail).dropWhile (· ≠ 47)) := by rw [pathNext, hdrop]
          have happ : (p ++ 47 :: q).dropWhile (· = 47) = c :: (tail ++ 47 :: q) := by
            rw [List.dropWhile_append, hdrop]
            rfl
          have hpq : pathNext (p ++ 47 :: q) = some (((c :: tail).takeWhile (· ≠ 47)).take 255,
              (c :: tail).dropWhile (· ≠ 47) ++ 47 :: q) := by
            have hname := takeName_append (c :: tail) q
            rw [List.cons_append] at hname
            rw [pathNext, happ]
            simp only [hname.1, hname.2]
          have hlt := pathNext_length hp
          rw [pathComponents_some hp, pathComponents_some hpq, List.cons_append,
            ih _ (hn ▸ hlt) _ rfl]

end Components

section Walk

/-- A walk goes on where the first part of it ended. -/
theorem vfsWalk_append (first second : List CName) (cur : Option Nat) :
    vfsWalk cur (first ++ second) = (vfsWalk cur first >>= fun d => vfsWalk d second) := by
  induction first generalizing cur with
  | nil => rfl
  | cons name rest ih =>
      funext k
      rw [List.cons_append, vfsWalk, vfsWalk]
      simp only [bind, ih]
      cases vfsEnter false cur name k with
      | mk r k' => cases r <;> rfl

variable {k : Kernel} {held : List Nat} {cwd : Option Nat} {p q : CName}

/-- A stable vnode is where a walk from it starts. -/
theorem vfsLookupAt_stable {d : Nat} (h : Stable k d) (hq : q.head? ≠ some 47) :
    vfsLookupAt (some d) q k = vfsWalk (some d) (pathComponents q) k := by
  have hstart : vfsStart (some d) q k = (.ok (some d), k) := by
    simp only [vfsStart, if_neg hq, vfsFollowMount, h.fixed]
  rw [vfsLookupAt, Prog.bind_ok hstart]

theorem vfsLookupAt_two (h : Holding held k) (hcwd : CwdOf held cwd) (hp : p ≠ [])
    (hq : q.head? ≠ some 47) (hpool : ¬ NoVnode (vfsLookupAt cwd p k).2) :
    vfsLookupAt cwd (p ++ 47 :: q) k = (vfsLookupAt cwd p >>= fun d => vfsLookupAt d q) k := by
  have hhead : (p ++ 47 :: q).head? = p.head? := by
    cases p with
    | nil => exact absurd rfl hp
    | cons c rest => rfl
  have hstart : vfsStart cwd (p ++ 47 :: q) = vfsStart cwd p := by
    funext k
    simp only [vfsStart, hhead]
  have hone : vfsLookupAt cwd (p ++ 47 :: q) k =
      (vfsLookupAt cwd p >>= fun d => vfsWalk d (pathComponents q)) k := by
    rw [vfsLookupAt, vfsLookupAt, hstart, pathComponents_append]
    simp only [bind, vfsWalk_append]
    cases vfsStart cwd p k with
    | mk r k' => cases r <;> rfl
  rw [hone]
  simp only [bind]
  have hstands := (holding_walks held).lookupAt hcwd.holding p k h
  cases hrun : vfsLookupAt cwd p k with
  | mk r k₁ =>
      rw [hrun] at hstands hpool
      cases r with
      | ok d =>
          cases d with
          | none => exact absurd (And.right hstands) hpool
          | some d => exact (vfsLookupAt_stable (Holding.head hstands) hq).symm
      | err e => rfl
      | fault => rfl
      | diverges => rfl

/-- A lookup of `p/q` and a lookup of `q` from what a lookup of `p` delivers end alike: with
the same vnode in the same state, and so with the same entry and the same parents, or with
the same error. -/
theorem vfsLookupAt_composes (h : Reached held k) (hcwd : CwdOf held cwd) (hp : p ≠ [])
    (hq : q.head? ≠ some 47) (hpool : ¬ NoVnode (vfsLookupAt cwd p k).2) :
    (∀ x k', vfsLookupAt cwd (p ++ 47 :: q) k = (.ok x, k') ↔
      ∃ d k₁, vfsLookupAt cwd p k = (.ok (some d), k₁) ∧
        vfsLookupAt (some d) q k₁ = (.ok x, k')) ∧
    ∀ e k', vfsLookupAt cwd (p ++ 47 :: q) k = (.err e, k') ↔
      vfsLookupAt cwd p k = (.err e, k') ∨
        ∃ d k₁, vfsLookupAt cwd p k = (.ok (some d), k₁) ∧
          vfsLookupAt (some d) q k₁ = (.err e, k') := by
  have htwo := vfsLookupAt_two h.holding hcwd hp hq hpool
  have hstands := (holding_walks held).lookupAt hcwd.holding p k h.holding
  rw [htwo]
  simp only [bind]
  cases hrun : vfsLookupAt cwd p k with
  | mk r k₁ =>
      rw [hrun] at hstands hpool
      cases r with
      | ok d =>
          cases d with
          | none => exact absurd (And.right hstands) hpool
          | some d =>
              refine ⟨fun x k' => ⟨fun hsecond => ⟨d, k₁, rfl, hsecond⟩, ?_⟩,
                fun e k' => ⟨fun hsecond => Or.inr ⟨d, k₁, rfl, hsecond⟩, ?_⟩⟩
              · rintro ⟨_, _, ⟨⟩, hsecond⟩
                exact hsecond
              · rintro (⟨⟨⟩⟩ | ⟨_, _, ⟨⟩, hsecond⟩)
                exact hsecond
      | err e =>
          refine ⟨fun x k' => ⟨fun hok => ?_, ?_⟩, fun e' k' => ⟨Or.inl, ?_⟩⟩
          · cases hok
          · rintro ⟨_, _, ⟨⟩, _⟩
          · rintro (hfirst | ⟨_, _, ⟨⟩, _⟩)
            exact hfirst
      | fault =>
          refine ⟨fun x k' => ⟨fun hok => ?_, ?_⟩, fun e' k' => ⟨Or.inl, ?_⟩⟩
          · cases hok
          · rintro ⟨_, _, ⟨⟩, _⟩
          · rintro (hfirst | ⟨_, _, ⟨⟩, _⟩)
            exact hfirst
      | diverges =>
          refine ⟨fun x k' => ⟨fun hok => ?_, ?_⟩, fun e' k' => ⟨Or.inl, ?_⟩⟩
          · cases hok
          · rintro ⟨_, _, ⟨⟩, _⟩
          · rintro (hfirst | ⟨_, _, ⟨⟩, _⟩)
            exact hfirst

/-- The disk of `soundDisk` with an empty directory `RAM`, in cluster 3, in its root. -/
def ramDirDisk : Disk where
  sectors lba off :=
    if lba = 33 then
      ([(8, 0xFF), (9, 0xFF), (10, 0xFF), (11, 0x0F), (12, 0xFF), (13, 0xFF), (14, 0xFF),
        (15, 0x0F)].lookup off).getD 0
    else if lba = 41 then
      ([(0, 82), (1, 65), (2, 77), (3, 32), (4, 32), (5, 32), (6, 32), (7, 32), (8, 32), (9, 32),
        (10, 32), (11, 0x10), (26, 3)].lookup off).getD 0
    else soundDisk.disk.sectors lba off
  served := soundDisk.disk.served

/-- The kernel after its start on that disk. -/
def ramKernel : Kernel := (mountRoot (zeroKernel ramDirDisk)).2

/-- `/ram/../RAM` is `../RAM` from `/ram`, the root of the mount. -/
theorem vfsLookupAt_composes_ram : ∃ d k₁ k',
    vfsLookupAt none ramPath ramKernel = (.ok (some d), k₁) ∧
      vfsLookupAt (some d) [46, 46, 47, 82, 65, 77] k₁ = (.ok (some 1), k') := by
  have hfrom : ∀ k, Reached [0] k → ¬ NoVnode (vfsLookupAt none ramPath k).2 →
      (vfsLookupAt none (ramPath ++ 47 :: [46, 46, 47, 82, 65, 77]) k).1 = .ok (some 1) →
      ∃ d k₁ k', vfsLookupAt none ramPath k = (.ok (some d), k₁) ∧
        vfsLookupAt (some d) [46, 46, 47, 82, 65, 77] k₁ = (.ok (some 1), k') := by
    intro k hreached hpool hwhole
    obtain ⟨d, k₁, hfirst, hsecond⟩ := ((vfsLookupAt_composes hreached
      (fun _ hnone => by cases hnone) (by decide) (by decide) hpool).1 _ _).mp (Prod.ext hwhole rfl)
    exact ⟨d, k₁, _, hfirst, hsecond⟩
  have hboot : (mountRoot (zeroKernel ramDirDisk)).1 = .ok () := by decide +kernel
  have hrun : mountRoot (zeroKernel ramDirDisk) = (.ok (), ramKernel) := by
    rw [ramKernel, ← hboot]
  have hroot : ramKernel.root = some 0 := by decide +kernel
  have hpool : ¬ NoVnode (vfsLookupAt none ramPath ramKernel).2 := by
    unfold NoVnode
    decide +kernel
  have hwhole : (vfsLookupAt none (ramPath ++ 47 :: [46, 46, 47, 82, 65, 77]) ramKernel).1 =
      .ok (some 1) := by decide +kernel
  exact hfrom ramKernel (Reached.boot hrun hroot) hpool hwhole

end Walk

end OsAgentLab
