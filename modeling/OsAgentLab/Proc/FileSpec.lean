/-
Reference counts of open files: every entry of `g_file` counts the descriptors
that point to it, and the reference that a running call holds in a variable.
-/
import Mathlib.Data.Finset.Prod
import Mathlib.Data.Finset.Range
import OsAgentLab.Proc.Files
import OsAgentLab.RefCount
import OsAgentLab.Triple

namespace OsAgentLab

/-- The pairs of a process slot and a descriptor. -/
def descriptors : Finset (Nat × Nat) := Finset.range nproc ×ˢ Finset.range nofile

/-- What a descriptor points to. -/
def Sys.holds (s : Sys) (d : Nat × Nat) : Option Nat := (s.procs d.1).ofile d.2

/-- The reference counts are exact, up to the reference that a call holds on its
way; slots without a process hold nothing, and the current one is running. -/
structure Counted (s : Sys) (held : Option Nat) : Prop where
  ref : ∀ f, f < nfile →
    (s.files.slot f).ref = pointing descriptors s.holds f + if held = some f then 1 else 0
  used : ∀ f, f < nfile → (s.files.used f = true ↔ 1 ≤ (s.files.slot f).ref)
  lt : ∀ d ∈ descriptors, ∀ f, s.holds d = some f → f < nfile
  idle : ∀ d ∈ descriptors,
    (s.procs d.1).state = .unused ∨ (s.procs d.1).state = .zombie → s.holds d = none
  current : ∀ i, s.current = some i → i < nproc ∧ (s.procs i).state = .running

variable {s s' : Sys} {held : Option Nat} {i fd f : Nat}

theorem mem_descriptors : (i, fd) ∈ descriptors ↔ i < nproc ∧ fd < nofile := by
  simp [descriptors]

theorem Sys.holds_setOfile (o : Option Nat) :
    (s.setOfile i fd o).holds = Function.update s.holds (i, fd) o := by
  funext d
  obtain ⟨j, fd'⟩ := d
  by_cases hj : j = i
  · subst hj
    simp only [Sys.holds, Sys.setOfile, Sys.setProc_self]
    by_cases hfd : fd' = fd
    · subst hfd
      rw [Function.update_self, Function.update_self]
    · rw [Function.update_of_ne hfd, Function.update_of_ne (by simp [hfd])]
      rfl
  · rw [Function.update_of_ne (by simp [hj])]
    simp only [Sys.holds, Sys.setOfile, Sys.setProc_of_ne s hj]

namespace Counted

/-- The counts do not depend on the rest of the state. -/
theorem frame (h : Counted s held) (hfiles : s'.files = s.files)
    (hholds : ∀ d ∈ descriptors, s'.holds d = s.holds d)
    (hidle : ∀ d ∈ descriptors,
      (s'.procs d.1).state = .unused ∨ (s'.procs d.1).state = .zombie → s.holds d = none)
    (hcurrent : ∀ i, s'.current = some i → i < nproc ∧ (s'.procs i).state = .running) :
    Counted s' held where
  ref f hf := by
    rw [hfiles, pointing_congr hholds]
    exact h.ref f hf
  used f hf := by
    rw [hfiles]
    exact h.used f hf
  lt d hd f hf := by
    rw [hholds d hd] at hf
    exact h.lt d hd f hf
  idle d hd hstate := by
    rw [hholds d hd]
    exact hidle d hd hstate
  current := hcurrent

/-- A descriptor points to an entry in use. -/
theorem used_of_holds (h : Counted s held) (hi : i < nproc) (hfd : fd < nofile)
    (hf : (s.procs i).ofile fd = some f) : f < nfile ∧ s.files.used f = true := by
  have hmem : (i, fd) ∈ descriptors := mem_descriptors.mpr ⟨hi, hfd⟩
  have hlt : f < nfile := h.lt (i, fd) hmem f hf
  refine ⟨hlt, (h.used f hlt).mpr ?_⟩
  have hpos : 0 < pointing descriptors s.holds f := pointing_pos hmem hf
  rw [h.ref f hlt]
  split <;> omega

/-- A reference in a variable moves into an empty descriptor. -/
theorem store (h : Counted s (some f)) (hf : f < nfile) (hi : i < nproc) (hfd : fd < nofile)
    (hnone : (s.procs i).ofile fd = none)
    (hbusy : (s.procs i).state ≠ .unused ∧ (s.procs i).state ≠ .zombie) :
    Counted (s.setOfile i fd (some f)) none where
  ref g hg := by
    rw [Sys.holds_setOfile, pointing_set (mem_descriptors.mpr ⟨hi, hfd⟩) hnone]
    have href := h.ref g hg
    simp only [Option.some.injEq] at href
    rw [Sys.setOfile_files, href]
    simp
  used := h.used
  lt d hd g hg := by
    rw [Sys.holds_setOfile] at hg
    by_cases heq : d = (i, fd)
    · subst heq
      rw [Function.update_self] at hg
      exact Option.some.inj hg ▸ hf
    · rw [Function.update_of_ne heq] at hg
      exact h.lt d hd g hg
  idle d hd hstate := by
    by_cases hdi : d.1 = i
    · rw [hdi] at hstate
      simp only [Sys.setOfile, Sys.setProc_self] at hstate
      exact absurd hstate (by simp [hbusy])
    · rw [Sys.holds_setOfile, Function.update_of_ne (fun heq => hdi (congrArg Prod.fst heq))]
      simp only [Sys.setOfile, Sys.setProc_of_ne s hdi] at hstate
      exact h.idle d hd hstate
  current j hj := by
    have hcur := h.current j hj
    by_cases hji : j = i
    · subst hji
      simpa only [Sys.setOfile, Sys.setProc_self] using hcur
    · simpa only [Sys.setOfile, Sys.setProc_of_ne s hji] using hcur

/-- The reference of a descriptor moves into a variable. -/
theorem clear (h : Counted s none) (hi : i < nproc) (hfd : fd < nofile)
    (hsome : (s.procs i).ofile fd = some f) : Counted (s.setOfile i fd none) (some f) where
  ref g hg := by
    have hholds : s.holds (i, fd) = some f := hsome
    have hcount := pointing_clear (f := g) (mem_descriptors.mpr ⟨hi, hfd⟩) hholds
    have href := h.ref g hg
    simp only [reduceCtorEq, if_false] at href
    rw [Sys.holds_setOfile, Sys.setOfile_files, href]
    simp only [Option.some.injEq]
    rw [← hcount]
    push_cast
    omega
  used := h.used
  lt d hd g hg := by
    rw [Sys.holds_setOfile] at hg
    by_cases heq : d = (i, fd)
    · subst heq
      rw [Function.update_self] at hg
      cases hg
    · rw [Function.update_of_ne heq] at hg
      exact h.lt d hd g hg
  idle d hd hstate := by
    rw [Sys.holds_setOfile]
    by_cases heq : d = (i, fd)
    · subst heq
      exact Function.update_self ..
    · rw [Function.update_of_ne heq]
      refine h.idle d hd ?_
      by_cases hdi : d.1 = i
      · rw [hdi] at hstate ⊢
        simpa only [Sys.setOfile, Sys.setProc_self] using hstate
      · simpa only [Sys.setOfile, Sys.setProc_of_ne s hdi] using hstate
  current j hj := by
    have hcur := h.current j hj
    by_cases hji : j = i
    · subst hji
      simpa only [Sys.setOfile, Sys.setProc_self] using hcur
    · simpa only [Sys.setOfile, Sys.setProc_of_ne s hji] using hcur

/-- The table of files is exchanged for one with other counts. -/
theorem withFiles {held' : Option Nat} (h : Counted s held) {files : Pool OpenFile}
    (href : ∀ f, f < nfile →
      (files.slot f).ref + (if held = some f then 1 else 0) =
        (s.files.slot f).ref + if held' = some f then 1 else 0)
    (hused : ∀ f, f < nfile → (files.used f = true ↔ 1 ≤ (files.slot f).ref)) :
    Counted { s with files := files } held' where
  ref f hf := by
    have hold := h.ref f hf
    have hnew := href f hf
    change (files.slot f).ref = pointing descriptors s.holds f + _
    omega
  used := hused
  lt := h.lt
  idle := h.idle
  current := h.current

end Counted

section Table

/-- A new entry counts the reference that its caller holds. -/
theorem fileAlloc_spec (h : Counted s none) :
    ∃ r s', fileAlloc s = (.ok r, s') ∧ Counted s' r ∧ s'.procs = s.procs ∧
      s'.current = s.current ∧ ∀ f, r = some f → f < nfile := by
  unfold fileAlloc
  cases hfree : s.files.firstFree nfile with
  | none => exact ⟨none, s, rfl, h, rfl, rfl, fun f hf => by cases hf⟩
  | some f =>
      obtain ⟨hlt, hunused⟩ := Pool.firstFree_eq_some hfree
      refine ⟨some f, _, rfl, h.withFiles (fun g hg => ?_) (fun g hg => ?_), rfl, rfl,
        fun g hg => Option.some.inj hg ▸ hlt⟩
      · by_cases hgf : g = f
        · subst hgf
          have hnone := h.ref g hg
          have hfalse := mt (h.used g hg).mpr (by simp [hunused])
          simp only [reduceCtorEq, if_false, Pool.take_slot, if_true] at hnone ⊢
          omega
        · simp [Pool.take_slot, hgf, Ne.symm hgf]
      · by_cases hgf : g = f
        · simp [hgf]
        · simpa [hgf] using h.used g hg

/-- One more reference, held by the caller. -/
theorem fileDup_counted (hf : f < nfile) :
    Prog.Triple (fun s => Counted s none ∧ s.files.used f = true) (fileDup f)
      (fun _ s => Counted s (some f)) (fun _ _ => False) (fun _ => False) := by
  refine Prog.Triple.modify fun s ⟨h, hused⟩ => h.withFiles (fun g hg => ?_) fun g hg => ?_
  · by_cases hgf : g = f
    · simp [hgf]
    · simp [hgf, Ne.symm hgf]
  · by_cases hgf : g = f
    · subst hgf
      have hpos := (h.used g hg).mp hused
      simp only [Pool.setSlot_used, Pool.setSlot_slot, if_true, hused, true_iff]
      omega
    · simpa [hgf] using h.used g hg

/-- Stores into an open file keep its count. -/
theorem fileFill_counted (file : OpenFile) :
    Prog.Keeps (fun s => Counted s held) (fileFill f file) := by
  refine Prog.Keeps.modify fun s h => h.withFiles (fun g hg => ?_) fun g hg => ?_
  · by_cases hgf : g = f
    · simp [hgf]
    · simp [hgf]
  · by_cases hgf : g = f
    · simpa [hgf] using h.used f (hgf ▸ hg)
    · simpa [hgf] using h.used g hg

/-- The reference that the caller holds is given up. -/
theorem Counted.close (h : Counted s (some f)) (hf : f < nfile) :
    Counted { s with files := closeEntry s.files f } none := by
  have href := h.ref f hf
  simp only [if_true] at href
  refine h.withFiles (fun g hg => ?_) fun g hg => ?_
  · by_cases hgf : g = f
    · subst hgf
      unfold closeEntry
      split
      · simp [Pool.release]
        omega
      · simp
    · unfold closeEntry
      split <;> simp [Pool.release, hgf, Ne.symm hgf]
  · by_cases hgf : g = f
    · subst hgf
      have hused := h.used g hg
      unfold closeEntry
      split
      · simp [Pool.release]
      · simp only [Pool.setSlot_used, Pool.setSlot_slot, if_true, hused]
        omega
    · have hused := h.used g hg
      unfold closeEntry
      split <;> simpa [Pool.release, hgf] using hused

theorem fileClose_counted (hf : f < nfile) :
    Prog.Triple (fun s => Counted s (some f)) (fileClose f) (fun _ s => Counted s none)
      (fun _ _ => False) (fun _ => False) :=
  Prog.Triple.modify fun _ h => h.close hf

/-- A descriptor is closed and cleared. -/
theorem Counted.closeClear (h : Counted s none) (hi : i < nproc) (hfd : fd < nofile)
    (hsome : (s.procs i).ofile fd = some f) :
    Counted (({ s with files := closeEntry s.files f } : Sys).setOfile i fd none) none :=
  (h.clear hi hfd hsome).close (h.used_of_holds hi hfd hsome).1

end Table

end OsAgentLab
