/-
Byte ranges of the boot disk, `disk.c` of the firmware: a range of any position and
length is put together sector by sector.
-/
import OsAgentLab.Blk

namespace OsAgentLab

namespace Firmware

/-- The loop of `disk_read_bytes`; `read` is `virtio_blk_read` of one sector into
`g_sector_buf`, and `out` what has been copied to `dst`. -/
def diskReadLoop (read : Nat → Option Sector) :
    Nat → Nat → Nat → List UInt8 → Option (List UInt8)
  | 0, _, _, out => some out
  | fuel + 1, offset, len, out =>
      if len = 0 then some out
      else
        let sector := offset / 512
        let sectorOff := offset % 512
        let chunk := if len < 512 - sectorOff then len else 512 - sectorOff
        (read sector).bind fun buf =>
          diskReadLoop read fuel (u64 (offset + chunk)) (len - chunk)
            (out ++ (List.range chunk).map fun i => buf (sectorOff + i))

/-- `disk_read_bytes`; every pass copies a byte, so that `len` passes are enough. -/
def diskReadBytes (read : Nat → Option Sector) (offset len : Nat) : Option (List UInt8) :=
  diskReadLoop read len offset len []

/-- The sectors of a disk of `size` bytes are served, and have the bytes `disk`. -/
def Serves (read : Nat → Option Sector) (disk : Nat → UInt8) (size : Nat) : Prop :=
  ∀ s, 512 * s < size → ∃ buf, read s = some buf ∧ ∀ j, j < 512 → buf j = disk (512 * s + j)

variable {read : Nat → Option Sector} {disk : Nat → UInt8} {size : Nat}

/-- The passes of the loop append the bytes of the range. -/
theorem diskReadLoop_eq (h : Serves read disk size) (fuel : Nat) :
    ∀ (offset len : Nat) (out : List UInt8), len ≤ fuel →
      offset + len ≤ 18446744073709551616 → (∀ i, i < len → offset + i < size) →
      diskReadLoop read fuel offset len out =
        some (out ++ (List.range len).map fun i => disk (offset + i)) := by
  induction fuel with
  | zero =>
      intro offset len out hfuel _ _
      obtain rfl : len = 0 := by omega
      rw [diskReadLoop, List.range_zero, List.map_nil, List.append_nil]
  | succ fuel ih =>
      intro offset len out hfuel hend hin
      rw [diskReadLoop]
      by_cases hlen : len = 0
      · rw [if_pos hlen, hlen, List.range_zero, List.map_nil, List.append_nil]
      rw [if_neg hlen]
      have hzero := hin 0 (by omega)
      obtain ⟨buf, hbuf, hbytes⟩ := h (offset / 512) (by omega)
      dsimp only
      generalize hchunk : (if len < 512 - offset % 512 then len else 512 - offset % 512) = chunk
      have hle : 0 < chunk ∧ chunk ≤ len ∧ offset % 512 + chunk ≤ 512 := by
        rw [← hchunk]
        split <;> omega
      rw [hbuf, Option.bind_some]
      have hpart : ((List.range chunk).map fun i => buf (offset % 512 + i)) =
          (List.range chunk).map fun i => disk (offset + i) := by
        apply List.map_congr_left
        intro i hi
        have hi := List.mem_range.mp hi
        rw [hbytes _ (by omega)]
        congr 1
        omega
      rw [hpart]
      by_cases hrest : len - chunk = 0
      · -- the last pass, after which the offset may have wrapped round
        obtain rfl : chunk = len := by omega
        rw [hrest]
        cases fuel with
        | zero => rfl
        | succ fuel => rw [diskReadLoop, if_pos rfl]
      · have hnext : u64 (offset + chunk) = offset + chunk := u64_of_lt (by omega)
        rw [hnext, ih (offset + chunk) (len - chunk) _ (by omega) (by omega) fun i hi => by
          rw [Nat.add_assoc]
          exact hin (chunk + i) (by omega)]
        have hsplit : List.range len = List.range (chunk + (len - chunk)) := by
          rw [Nat.add_sub_cancel' hle.2.1]
        rw [hsplit, List.range_add, List.map_append, List.map_map, List.append_assoc]
        simp only [Function.comp_def, Nat.add_assoc]

/-- A range inside the disk is read as it is. -/
theorem diskReadBytes_eq (h : Serves read disk size) {offset len : Nat}
    (hend : offset + len ≤ 18446744073709551616) (hin : ∀ i, i < len → offset + i < size) :
    diskReadBytes read offset len = some ((List.range len).map fun i => disk (offset + i)) := by
  rw [diskReadBytes, diskReadLoop_eq h len offset len [] (Nat.le_refl len) hend hin,
    List.nil_append]

section Any

/-- The byte of a disk at a position, zero where its sector is not served. -/
def diskByte (read : Nat → Option Sector) (a : Nat) : UInt8 :=
  ((read (a / 512)).getD fun _ => 0) (a % 512)

/-- Whatever the range, the bytes that are read are those of the disk. -/
theorem diskReadLoop_some (fuel : Nat) :
    ∀ (offset len : Nat) (out bytes : List UInt8), len ≤ fuel → offset < 18446744073709551616 →
      diskReadLoop read fuel offset len out = some bytes →
      bytes = out ++ (List.range len).map fun i => diskByte read (u64 (offset + i)) := by
  induction fuel with
  | zero =>
      intro offset len out bytes hfuel _ h
      obtain rfl : len = 0 := by omega
      rw [List.range_zero, List.map_nil, List.append_nil]
      exact (Option.some.inj h).symm
  | succ fuel ih =>
      intro offset len out bytes hfuel hoff h
      rw [diskReadLoop] at h
      by_cases hlen : len = 0
      · rw [if_pos hlen] at h
        rw [hlen, List.range_zero, List.map_nil, List.append_nil]
        exact (Option.some.inj h).symm
      rw [if_neg hlen] at h
      dsimp only at h
      generalize hchunk : (if len < 512 - offset % 512 then len else 512 - offset % 512) = chunk
        at h
      have hle : 0 < chunk ∧ chunk ≤ len ∧ offset % 512 + chunk ≤ 512 := by
        rw [← hchunk]
        split <;> omega
      obtain ⟨buf, hbuf, hrest⟩ := Option.bind_eq_some_iff.mp h
      have hnext : u64 (offset + chunk) < 18446744073709551616 := Nat.mod_lt _ (by decide)
      rw [ih _ _ _ _ (by omega) hnext hrest, List.append_assoc]
      have hpart : ((List.range chunk).map fun i => buf (offset % 512 + i)) =
          (List.range chunk).map fun i => diskByte read (u64 (offset + i)) := by
        apply List.map_congr_left
        intro i hi
        have hi := List.mem_range.mp hi
        -- a sector ends at or below 2^64
        have hin : offset + i < 18446744073709551616 := by omega
        have hsector : (offset + i) / 512 = offset / 512 := by omega
        have hbyte : (offset + i) % 512 = offset % 512 + i := by omega
        rw [u64_of_lt hin, diskByte, hsector, hbyte, hbuf, Option.getD_some]
      have hsplit : List.range len = List.range (chunk + (len - chunk)) := by
        rw [Nat.add_sub_cancel' hle.2.1]
      rw [hpart, hsplit, List.range_add, List.map_append, List.map_map]
      congr 2
      apply List.map_congr_left
      intro i _
      have hsum : u64 (u64 (offset + chunk) + i) = u64 (offset + (chunk + i)) := by
        rw [u64, u64, u64, Nat.mod_add_mod, Nat.add_assoc]
      rw [Function.comp_apply, hsum]

theorem diskReadBytes_some {offset len : Nat} {bytes : List UInt8}
    (hoff : offset < 18446744073709551616) (h : diskReadBytes read offset len = some bytes) :
    bytes = (List.range len).map fun i => diskByte read (u64 (offset + i)) := by
  rw [diskReadLoop_some len offset len [] bytes (Nat.le_refl len) hoff h, List.nil_append]

end Any

end Firmware

end OsAgentLab
