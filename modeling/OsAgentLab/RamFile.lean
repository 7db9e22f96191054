/-
Files of the ramfs as byte arrays of bounded capacity, over any history of the
node table.
-/
import OsAgentLab.BoundedArray
import OsAgentLab.Boot

namespace OsAgentLab

/-- The contents of a ramfs file. -/
abbrev RamArray : Type := BoundedArray UInt8 ramfsMaxFileSize

/-- The node is a file with the contents `a`; behind its size it holds zeros. -/
structure RamfsNode.Contains (node : RamfsNode) (a : RamArray) : Prop where
  type : node.type = .file
  size : node.size = a.items.length
  data : ∀ x, x < ramfsMaxFileSize → node.data x = a.get x

/-- No node is larger than it may be, or holds anything but zeros behind its size. -/
structure RamfsNode.Tidy (node : RamfsNode) : Prop where
  size_le : node.size ≤ ramfsMaxFileSize
  zero : ∀ x, node.size ≤ x → x < ramfsMaxFileSize → node.data x = 0

/-- Every node of the table is tidy, whether it is in use or not. -/
def RamTidy (k : Kernel) : Prop := ∀ n, (k.ramNodes.slot n).Tidy

/-- A call on an open file of the ramfs. -/
inductive RamFileCall where
  | write (buf : List UInt8) (offset : Nat)
  | read (len offset : Nat)
  | truncate (size : Nat)
  | stat

/-- What such a call returns. -/
inductive RamFileResult where
  | count (n : Int)
  | data (n : Int) (bytes : List UInt8)
  | done
  | stat (st : VfsStat)
deriving DecidableEq, Repr

namespace RamFileCall

/-- The call on the vnode `vn`. -/
def run (vn : Nat) : RamFileCall → Kern RamFileResult
  | write buf offset => do
      let n ← ramfsWrite vn buf offset
      pure (.count n)
  | read len offset => do
      let (n, bytes) ← ramfsRead vn len offset
      pure (.data n bytes)
  | truncate size => do
      ramfsTruncate vn size
      pure .done
  | stat => do
      let st ← ramfsStat vn
      pure (.stat st)

/-- Offset and length of the call have a sum that fits into 64 bits. -/
def Fits : RamFileCall → Prop
  | write buf offset => offset + buf.length < 18446744073709551616
  | read len offset => offset + len < 18446744073709551616
  | truncate size => size < 18446744073709551616
  | stat => True

/-- What the call returns for a file with the contents `a`, whose node is `n`. -/
def result (n : Nat) (a : RamArray) : RamFileCall → RamFileResult
  | write buf offset => .count (BoundedArray.stored ramfsMaxFileSize offset buf.length)
  | read len offset => .data (min (a.items.length - offset) len : Nat) (a.read offset len)
  | truncate _ => .done
  | stat => .stat { stSize := a.items.length, stIno := n, stMode := 0o100644, stNlink := 1 }

/-- The contents of the file after the call. -/
def effect (a : RamArray) : RamFileCall → RamArray
  | write buf offset => a.write offset buf
  | read _ _ => a
  | truncate size => a.truncate size
  | stat => a

end RamFileCall

/-- Calls on several files, one after the other. -/
def runFileCalls : List (Nat × RamFileCall) → Kern (List RamFileResult)
  | [] => pure []
  | (vn, c) :: rest => do
      let r ← c.run vn
      let rs ← runFileCalls rest
      pure (r :: rs)

/-- The same on the arrays that the nodes stand for; `node` tells the node of a vnode. -/
def arrayCalls (node : Nat → Nat) :
    List (Nat × RamFileCall) → (Nat → RamArray) → List RamFileResult × (Nat → RamArray)
  | [], files => ([], files)
  | (vn, c) :: rest, files =>
      let ended := arrayCalls node rest
        (Function.update files (node vn) (c.effect (files (node vn))))
      (c.result (node vn) (files (node vn)) :: ended.1, ended.2)

/-- What changes the node table. -/
inductive RamCall where
  | init
  | create (dir : Nat) (name : CName) (out : Bool)
  | mkdir (dir : Nat) (name : CName) (out : Bool)
  | unlink (dir : Nat) (name : CName)
  | file (vn : Nat) (c : RamFileCall)

def RamCall.run : RamCall → Kern Unit
  | .init => do
      let _ ← ramfsInit
      pure ()
  | .create dir name out => do
      let _ ← ramfsCreate dir name out
      pure ()
  | .mkdir dir name out => do
      let _ ← ramfsMkdir dir name out
      pure ()
  | .unlink dir name => ramfsUnlink dir name
  | .file vn c => do
      let _ ← c.run vn
      pure ()

/-- A buffer does not go round the address space. -/
def RamCall.Fits : RamCall → Prop
  | .file _ c => c.Fits
  | _ => True

/-- The states after any calls with any arguments, from a cleared node table on.  Whatever
else the kernel does in between leaves the table, which is static in `ramfs.c`, alone. -/
inductive RamReached : Kernel → Prop where
  | start {k : Kernel} (hzero : ∀ n, k.ramNodes.slot n = ⟨.file, [], none, none, none, 0, fun _ => 0⟩) :
      RamReached k
  | call {k : Kernel} (h : RamReached k) (c : RamCall) (hfits : c.Fits) : RamReached (c.run k).2
  | other {k k' : Kernel} (h : RamReached k) (hsame : k'.ramNodes = k.ramNodes) : RamReached k'

variable {k k' : Kernel} {vn n : Nat} {node : RamfsNode} {a b : RamArray}

section Nodes

/-- A tidy file is some array. -/
theorem RamfsNode.Tidy.contains (h : node.Tidy) (htype : node.type = .file) :
    ∃ a, node.Contains a := by
  refine ⟨.build node.size h.size_le node.data, htype, by simp, fun x hx => ?_⟩
  rw [BoundedArray.build_get]
  by_cases hlt : x < node.size
  · rw [if_pos hlt]
  · rw [if_neg hlt]
    exact h.zero x (by omega) hx

theorem RamfsNode.Contains.tidy (h : node.Contains a) : node.Tidy where
  size_le := h.size ▸ a.length_le
  zero x hle hlt := by
    rw [h.data x hlt]
    exact a.get_of_length_le (h.size ▸ hle)

theorem RamfsNode.Contains.bytes (h : node.Contains a) {offset len : Nat} :
    a.read offset len =
      (List.range (min (node.size - offset) len)).map fun i => node.data (offset + i) := by
  rw [a.read_eq, h.size]
  apply List.map_congr_left
  intro i hi
  have hi := List.mem_range.mp hi
  have := a.length_le
  exact (h.data (offset + i) (by omega)).symm

end Nodes

section Calls

theorem Kernel.setRamNode_self (k : Kernel) (n : Nat) : k.setRamNode n (k.ramNodes.slot n) = k := by
  have hpool : k.ramNodes.setSlot n (k.ramNodes.slot n) = k.ramNodes := by
    rw [Pool.setSlot]
    congr 1
    funext j
    by_cases hj : j = n
    · rw [if_pos hj, hj]
    · rw [if_neg hj]
  rw [Kernel.setRamNode, hpool]

theorem ramfsRead_run (h : (k.ramNode vn).Contains a) (len offset : Nat) :
    ramfsRead vn len offset k =
      (.ok (((min (a.items.length - offset) len : Nat) : Int), a.read offset len), k) := by
  have hsize := h.size
  have hle := a.length_le
  have hmax : ramfsMaxFileSize = 4096 := rfl
  rw [ramfsRead]
  simp only [h.type, ne_eq, not_true_eq_false, ↓reduceIte]
  by_cases hend : (k.ramNode vn).size ≤ offset
  · rw [if_pos hend]
    have hnone : a.items.length - offset = 0 := by omega
    rw [h.bytes, hsize, hnone, Nat.zero_min]
    rfl
  · rw [if_neg hend, h.bytes, hsize, cInt_of_lt (by omega)]

theorem ramfsWrite_run (h : (k.ramNode vn).Contains a) {buf : List UInt8} {offset : Nat}
    (hfits : offset + buf.length < 18446744073709551616) :
    ∃ node, ramfsWrite vn buf offset k =
        (.ok ((BoundedArray.stored ramfsMaxFileSize offset buf.length : Nat) : Int),
          k.setRamNode (k.vnode vn).data node) ∧ node.Contains (a.write offset buf) := by
  have hsize := h.size
  have hle := a.length_le
  have hmax : ramfsMaxFileSize = 4096 := rfl
  rw [ramfsWrite]
  simp only [h.type, ne_eq, not_true_eq_false, ↓reduceIte]
  by_cases hend : ramfsMaxFileSize ≤ offset
  · rw [if_pos hend]
    refine ⟨k.ramNode vn, ?_, ?_⟩
    · rw [BoundedArray.stored, Nat.sub_eq_zero_of_le hend, Nat.min_zero, Kernel.ramNode,
        k.setRamNode_self]
      rfl
    · rw [BoundedArray.write, dif_neg (Nat.not_lt.mpr hend)]
      exact h
  rw [if_neg hend]
  generalize hcopy : (if ramfsMaxFileSize < u64 (offset + buf.length) then
    ramfsMaxFileSize - offset else buf.length) = copy
  have hstored : copy = BoundedArray.stored ramfsMaxFileSize offset buf.length := by
    rw [← hcopy, u64_of_lt hfits, BoundedArray.stored]
    split <;> omega
  have hcopyle : offset + copy ≤ ramfsMaxFileSize := by
    rw [hstored, BoundedArray.stored]
    omega
  rw [u64_of_lt (by omega), cInt_of_lt (by omega), ← hstored]
  refine ⟨_, rfl, rfl, ?_, fun x hx => ?_⟩
  · rw [BoundedArray.write, dif_pos (by omega), BoundedArray.build_length, ← hstored, ← hsize]
    simp only
    split <;> omega
  · rw [BoundedArray.write, dif_pos (by omega), BoundedArray.build_get, ← hstored]
    simp only
    by_cases hin : offset ≤ x ∧ x < offset + copy
    · rw [overlay_of_mem hin, if_pos (by omega), if_pos hin]
      rfl
    · rw [overlay_of_not_mem hin, h.data x hx]
      by_cases hlow : x < max a.items.length (offset + copy)
      · rw [if_pos hlow, if_neg hin]
      · rw [if_neg hlow]
        exact a.get_of_length_le (by omega)

theorem ramfsTruncate_run (h : (k.ramNode vn).Contains a) (size : Nat) :
    ∃ node, ramfsTruncate vn size k = (.ok (), k.setRamNode (k.vnode vn).data node) ∧
      node.Contains (a.truncate size) := by
  have hsize := h.size
  have hle := a.length_le
  rw [ramfsTruncate]
  simp only [h.type, ne_eq, not_true_eq_false, ↓reduceIte]
  refine ⟨_, rfl, rfl, (BoundedArray.build_length _).symm, fun x hx => ?_⟩
  rw [BoundedArray.truncate, BoundedArray.build_get]
  by_cases hcut : min size ramfsMaxFileSize < (k.ramNode vn).size
  · simp only [hcut, ↓reduceIte]
    by_cases hin : min size ramfsMaxFileSize ≤ x ∧
        x < min size ramfsMaxFileSize + ((k.ramNode vn).size - min size ramfsMaxFileSize)
    · rw [overlay_of_mem hin, if_neg (by omega)]
      rfl
    · rw [overlay_of_not_mem hin, h.data x hx]
      by_cases hlow : x < min size ramfsMaxFileSize
      · rw [if_pos hlow]
      · rw [if_neg hlow]
        exact a.get_of_length_le (by omega)
  · simp only [hcut, ↓reduceIte]
    rw [h.data x hx]
    by_cases hlow : x < min size ramfsMaxFileSize
    · rw [if_pos hlow]
    · rw [if_neg hlow]
      exact a.get_of_length_le (by omega)

/-- A call does to the file what it does to the array. -/
theorem RamFileCall.run_eq (h : (k.ramNode vn).Contains a) (c : RamFileCall) (hfits : c.Fits) :
    ∃ node, c.run vn k = (.ok (c.result (k.vnode vn).data a), k.setRamNode (k.vnode vn).data node) ∧
      node.Contains (c.effect a) := by
  cases c with
  | write buf offset =>
      obtain ⟨node, hrun, hnode⟩ := ramfsWrite_run h hfits
      exact ⟨node, Prog.bind_ok hrun _, hnode⟩
  | read len offset =>
      refine ⟨k.ramNode vn, ?_, h⟩
      rw [Kernel.ramNode, k.setRamNode_self]
      exact Prog.bind_ok (ramfsRead_run h len offset) _
  | truncate size =>
      obtain ⟨node, hrun, hnode⟩ := ramfsTruncate_run h size
      exact ⟨node, Prog.bind_ok hrun _, hnode⟩
  | stat =>
      refine ⟨k.ramNode vn, ?_, h⟩
      rw [Kernel.ramNode, k.setRamNode_self]
      have hstat : ramfsStat vn k =
          (.ok ⟨a.items.length, (k.vnode vn).data, 0o100644, 1⟩, k) := by
        rw [ramfsStat]
        simp only [h.type, h.size]
        rfl
      exact Prog.bind_ok hstat _

end Calls

section Histories

theorem RamfsNode.tidy_cleared (type : VnodeType) (name : CName) (parent child sibling : Option Nat) :
    (RamfsNode.mk type name parent child sibling 0 fun _ => 0).Tidy where
  size_le := Nat.zero_le _
  zero _ _ _ := rfl

theorem RamTidy.set (h : RamTidy k) (hnode : node.Tidy) (n : Nat) : RamTidy (k.setRamNode n node) := by
  intro j
  rw [Kernel.setRamNode, Pool.setSlot_slot]
  by_cases hj : j = n
  · rw [if_pos hj]
    exact hnode
  · rw [if_neg hj]
    exact h j

/-- Links and names may change. -/
theorem RamTidy.relink (h : RamTidy k) {m : Nat} (hsize : node.size = (k.ramNodes.slot m).size)
    (hdata : node.data = (k.ramNodes.slot m).data) (n : Nat) : RamTidy (k.setRamNode n node) := by
  apply h.set
  refine ⟨hsize ▸ (h m).size_le, fun x hle hlt => ?_⟩
  rw [hdata]
  exact (h m).zero x (hsize ▸ hle) hlt

theorem RamTidy.take (h : RamTidy k) (hnode : node.Tidy) (n : Nat) :
    RamTidy { k with ramNodes := k.ramNodes.take n node } := by
  intro j
  rw [Pool.take_slot]
  by_cases hj : j = n
  · rw [if_pos hj]
    exact hnode
  · rw [if_neg hj]
    exact h j

theorem ramfsFind_tidy (dir : Nat) (name : CName) : Prog.Keeps RamTidy (ramfsFind dir name) := by
  apply Prog.Keeps.of_snd
  intro k
  rw [ramfsFind]
  split <;> rfl

theorem ramfsWrapNode_tidy (n parent : Nat) : Prog.Keeps RamTidy (ramfsWrapNode n parent) := by
  intro k hk
  simp only [ramfsWrapNode, vfsAllocVnode]
  cases k.vnodes.firstFree vnodePoolSize with
  | none => exact hk
  | some i => exact hk

theorem ramfsMake_tidy (type : VnodeType) (clash : Errno) (dir : Nat) (name : CName) (out : Bool) :
    Prog.Keeps RamTidy (ramfsMake type clash dir name out) := by
  have hwrap : ∀ n, Prog.Keeps RamTidy (ramfsWrapNode n dir >>= fun vn => storeOut out vn) := by
    intro n
    apply (ramfsWrapNode_tidy n dir).bind
    intro vn
    cases out with
    | true => exact Prog.Keeps.pure _
    | false => exact Prog.Keeps.crash
  apply (ramfsFind_tidy dir name).bind
  intro found
  cases found with
  | some found =>
      apply Prog.Keeps.get_bind
      intro k
      exact Prog.Keeps.ite (Prog.Keeps.fail _) (hwrap _)
  | none =>
      apply Prog.Keeps.get_bind
      intro k
      dsimp only
      cases k.ramNodes.firstFree ramfsMaxNodes with
      | none => exact Prog.Keeps.fail _
      | some n =>
          apply (Prog.Keeps.modify fun k hk => hk.take (RamfsNode.tidy_cleared ..) n).bind
          intro _
          apply (Prog.Keeps.modify fun s hs => by
            apply RamTidy.relink (m := n) hs
            · rfl
            · rfl).bind
          intro _
          apply (Prog.Keeps.modify fun s hs => by
            apply RamTidy.relink (m := (k.vnode dir).data) hs
            · rfl
            · rfl).bind
          intro _
          exact hwrap n

theorem ramfsUnlink_tidy (dir : Nat) (name : CName) : Prog.Keeps RamTidy (ramfsUnlink dir name) := by
  apply (ramfsFind_tidy dir name).bind
  intro found
  cases found with
  | none => exact Prog.Keeps.fail _
  | some found =>
      obtain ⟨prev, child⟩ := found
      apply Prog.Keeps.get_bind
      intro k
      apply Prog.Keeps.ite (Prog.Keeps.fail _)
      have hrelease : Prog.Keeps RamTidy (Prog.modify fun k : Kernel =>
          { k with ramNodes := k.ramNodes.release child } : Kern Unit) :=
        Prog.Keeps.modify fun k hk => hk
      cases prev with
      | some p =>
          apply (Prog.Keeps.modify fun s hs => by
            apply RamTidy.relink (m := p) hs
            · rfl
            · rfl).bind
          exact fun _ => hrelease
      | none =>
          apply (Prog.Keeps.modify fun s hs => by
            apply RamTidy.relink (m := (k.vnode dir).data) hs
            · rfl
            · rfl).bind
          exact fun _ => hrelease

theorem ramfsInit_tidy : Prog.Keeps RamTidy ramfsInit := by
  apply Prog.Keeps.get_bind
  intro k
  cases k.ramNodes.firstFree ramfsMaxNodes with
  | none => exact Prog.Keeps.pure _
  | some n =>
      apply (Prog.Keeps.modify fun k hk => hk.take (RamfsNode.tidy_cleared ..) n).bind
      intro _ k hk
      rw [Prog.get_bind, vfsAllocVnode]
      cases k.vnodes.firstFree vnodePoolSize with
      | none => exact hk
      | some i => exact hk

/-- A call on a directory is refused, and a call on a file keeps it tidy. -/
theorem RamFileCall.tidy (vn : Nat) (c : RamFileCall) (hfits : c.Fits) :
    Prog.Keeps RamTidy (c.run vn) := by
  intro k hk
  by_cases htype : (k.ramNode vn).type = .file
  · obtain ⟨a, ha⟩ := (hk _).contains htype
    obtain ⟨node, hrun, hnode⟩ := c.run_eq ha hfits
    rw [hrun]
    exact hk.set hnode.tidy _
  · have hrefused : (c.run vn k).2 = k := by
      cases c with
      | write buf offset =>
          have hrun : ramfsWrite vn buf offset k = (.err .isdir, k) := if_pos htype
          exact congrArg Prod.snd (Prog.bind_err hrun _)
      | read len offset =>
          have hrun : ramfsRead vn len offset k = (.err .isdir, k) := if_pos htype
          exact congrArg Prod.snd (Prog.bind_err hrun _)
      | truncate size =>
          have hrun : ramfsTruncate vn size k = (.err .isdir, k) := if_pos htype
          exact congrArg Prod.snd (Prog.bind_err hrun _)
      | stat => rfl
    rcases hrun : c.run vn k with ⟨r, k'⟩
    rw [hrun] at hrefused
    obtain rfl : k' = k := hrefused
    cases r <;> exact hk

/-- The node table is tidy after any history. -/
theorem RamReached.tidy (h : RamReached k) : RamTidy k := by
  induction h with
  | start hzero =>
      intro n
      rw [hzero n]
      exact RamfsNode.tidy_cleared ..
  | @call k _ c hfits ih =>
      have hdone : ∀ {α : Type} {m : Kern α}, Prog.Keeps RamTidy m →
          Prog.Keeps RamTidy (m >>= fun _ => (pure () : Kern Unit)) :=
        fun hm => hm.bind fun _ => Prog.Keeps.pure ()
      apply keeps_after _ ih
      cases c with
      | init => exact hdone ramfsInit_tidy
      | create dir name out => exact hdone (ramfsMake_tidy _ _ dir name out)
      | mkdir dir name out => exact hdone (ramfsMake_tidy _ _ dir name out)
      | unlink dir name => exact ramfsUnlink_tidy dir name
      | file vn c => exact hdone (c.tidy vn hfits)
  | other _ hsame ih =>
      intro n
      rw [hsame]
      exact ih n

end Histories

section Claim

/-- The vnode `vn` belongs to the live file with the node `n`. -/
structure Kernel.RamOpen (k : Kernel) (vn n : Nat) : Prop where
  data : (k.vnode vn).data = n
  used : k.ramNodes.used n = true
  file : (k.ramNodes.slot n).type = .file

/-- The live files have the contents `files`. -/
def Kernel.RamFiles (k : Kernel) (files : Nat → RamArray) : Prop :=
  ∀ n, k.ramNodes.used n = true → (k.ramNodes.slot n).type = .file →
    (k.ramNodes.slot n).Contains (files n)

/-- Calls on one file leave the other ones alone. -/
theorem Kernel.RamFiles.set {files : Nat → RamArray} (h : k.RamFiles files)
    (hnode : node.Contains b) (n : Nat) :
    (k.setRamNode n node).RamFiles (Function.update files n b) := by
  intro j hused htype
  rw [Kernel.setRamNode, Pool.setSlot_slot] at htype ⊢
  by_cases hj : j = n
  · rw [if_pos hj, hj, Function.update_self]
    exact hnode
  · rw [if_neg hj] at htype ⊢
    rw [Function.update_of_ne hj]
    exact h j hused htype

/-- Any calls on open files do what they do to the arrays. -/
theorem runFileCalls_eq {files : Nat → RamArray} (h : k.RamFiles files) (node : Nat → Nat)
    (calls : List (Nat × RamFileCall))
    (hopen : ∀ c ∈ calls, k.RamOpen c.1 (node c.1) ∧ c.2.Fits) :
    ∃ k', runFileCalls calls k = (.ok (arrayCalls node calls files).1, k') ∧
      k'.RamFiles (arrayCalls node calls files).2 := by
  induction calls generalizing k files with
  | nil => exact ⟨k, rfl, h⟩
  | cons c rest ih =>
      obtain ⟨vn, c⟩ := c
      obtain ⟨hvn, hfits⟩ := hopen _ List.mem_cons_self
      have hcontains := h (node vn) hvn.used hvn.file
      have hdata : (k.vnode vn).data = node vn := hvn.data
      have hnode : (k.ramNode vn).Contains (files (node vn)) := by
        rw [Kernel.ramNode, hdata]
        exact hcontains
      obtain ⟨new, hrun, hnew⟩ := RamFileCall.run_eq hnode c hfits
      rw [hdata] at hrun
      obtain ⟨k', hrest, hfiles⟩ := ih (h.set hnew (node vn)) fun other hother => by
        obtain ⟨hopen', hfits'⟩ := hopen other (List.mem_cons_of_mem _ hother)
        refine ⟨⟨hopen'.data, hopen'.used, ?_⟩, hfits'⟩
        rw [Kernel.setRamNode, Pool.setSlot_slot]
        by_cases hsame : node other.1 = node vn
        · rw [if_pos hsame]
          exact hnew.type
        · rw [if_neg hsame]
          exact hopen'.file
      refine ⟨k', ?_, hfiles⟩
      rw [runFileCalls, Prog.bind_ok hrun, Prog.bind_ok hrest]
      rfl

/-- After any history of the node table its live files are bounded arrays, and any calls
on them return what the same calls on these arrays return, and leave each file with the
contents of its array. -/
theorem ramfs_refines (h : RamReached k) :
    ∃ files : Nat → RamArray, k.RamFiles files ∧
      ∀ (node : Nat → Nat) (calls : List (Nat × RamFileCall)),
        (∀ c ∈ calls, k.RamOpen c.1 (node c.1) ∧ c.2.Fits) →
        ∃ k', runFileCalls calls k = (.ok (arrayCalls node calls files).1, k') ∧
          k'.RamFiles (arrayCalls node calls files).2 := by
  have hcontents : ∀ n, ∃ a : RamArray, (k.ramNodes.slot n).type = .file →
      (k.ramNodes.slot n).Contains a := by
    intro n
    by_cases htype : (k.ramNodes.slot n).type = .file
    · obtain ⟨a, ha⟩ := (h.tidy n).contains htype
      exact ⟨a, fun _ => ha⟩
    · exact ⟨⟨[], Nat.zero_le _⟩, fun hfile => absurd hfile htype⟩
  choose files hfiles using hcontents
  have hall : k.RamFiles files := fun n _ htype => hfiles n htype
  exact ⟨files, hall, fun node calls hopen => runFileCalls_eq hall node calls hopen⟩

/-- A ramfs with one file, whose vnode and node have the number 1. -/
def oneRamFile : Kernel :=
  ((RamCall.create 0 [97] true).run (RamCall.init.run (zeroKernel ⟨fun _ _ => 0, fun _ => true⟩)).2).2

theorem oneRamFile_reached : RamReached oneRamFile := by
  have hstart : RamReached (zeroKernel ⟨fun _ _ => 0, fun _ => true⟩) := .start fun _ => rfl
  exact (hstart.call .init trivial).call (.create 0 [97] true) trivial

/-- A byte behind the end of the file is read back behind a gap of zeros. -/
theorem ramfs_refines_gap :
    ∃ k', runFileCalls [(1, .write [5] 2), (1, .read 4 0)] oneRamFile =
      (.ok [.count 1, .data 3 [0, 0, 5]], k') := by
  obtain ⟨files, hfiles, hcalls⟩ := ramfs_refines oneRamFile_reached
  have hopen : oneRamFile.RamOpen 1 1 := ⟨by decide, by decide, by decide⟩
  have hempty : files 1 = ⟨[], Nat.zero_le _⟩ := by
    have hsize := (hfiles 1 hopen.used hopen.file).size
    apply BoundedArray.ext
    apply List.length_eq_zero_iff.mp
    rw [← hsize]
    decide
  obtain ⟨k', hrun, _⟩ := hcalls (fun _ => 1) [(1, .write [5] 2), (1, .read 4 0)] (by
    intro c hc
    rcases List.mem_pair.mp hc with rfl | rfl
    · exact ⟨hopen, (by decide : 2 + 1 < 18446744073709551616)⟩
    · exact ⟨hopen, (by decide : 0 + 4 < 18446744073709551616)⟩)
  refine ⟨k', hrun.trans ?_⟩
  simp only [arrayCalls, hempty, Function.update_self]
  rfl

end Claim

end OsAgentLab
