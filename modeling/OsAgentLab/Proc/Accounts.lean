/-
The results of `sys_read` and `sys_write` on open files, and what the calls have done.
-/
import OsAgentLab.Proc.ReadTransfer
import OsAgentLab.Proc.Sizes

namespace OsAgentLab

variable {s : Sys} {i f fd addr len : Nat}

section Example

/-- A process with a ramfs file of one byte open on descriptor 3, and no user memory. -/
def byteSys : Sys where
  fs := { oneKernel (endTable 2) 0 0 with
    vnodes := ⟨fun n => n == 0, fun _ => ⟨.file, some .ramfs, 0, none, [65]⟩⟩
    ramNodes := ⟨fun n => n == 0, fun _ => ⟨.file, [65], none, none, none, 1, fun _ => 7⟩⟩ }
  mm := ⟨fun _ => 0, 0, 4096⟩
  files := ⟨fun f => f == 0, fun _ => ⟨1, true, true, 0, some 0⟩⟩
  procs _ := { Proc.zero with
    state := .running
    ofile := fun fd => if fd = 3 then some 0 else none }
  current := some 0
  nextPid := 2
  image := ⟨0, 0⟩
  sstatus := 0

theorem byteSys_open : byteSys.current = some 0 ∧ 3 < nofile ∧
    (byteSys.procs 0).ofile 3 = some 0 ∧ (byteSys.files.slot 0).off < 18446744073709551616 :=
  ⟨rfl, by decide, rfl, by decide⟩

end Example

end OsAgentLab
