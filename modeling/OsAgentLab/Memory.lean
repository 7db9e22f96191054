/-
Byte-addressed memory: 64-bit little-endian words in it, and pages of 4096
bytes that are filled and copied as a whole.
-/
import OsAgentLab.Blk

namespace OsAgentLab

/-- The 64-bit word stored at `off`. -/
def le64 (bytes : Nat → UInt8) (off : Nat) : Nat :=
  le32 bytes off + le32 bytes (off + 4) * 4294967296

/-- A store of the 64-bit word `w` at `a`. -/
def put64 (m : Nat → UInt8) (a w : Nat) : Nat → UInt8 := overlay m a 8 (byteOf w)

/-- `x` is one of the bytes of the page at `p`. -/
def InPage (p x : Nat) : Prop := p ≤ x ∧ x < p + 4096

instance (p x : Nat) : Decidable (InPage p x) := inferInstanceAs (Decidable (_ ∧ _))

/-- The address of a page. -/
def PageAligned (p : Nat) : Prop := p % 4096 = 0

/-- A page filled from `src`. -/
def putPage (m : Nat → UInt8) (p : Nat) (src : Nat → UInt8) : Nat → UInt8 :=
  overlay m p 4096 src

variable {m m' src : Nat → UInt8} {a b p q w x : Nat}

theorem le64_lt (bytes : Nat → UInt8) (off : Nat) :
    le64 bytes off < 18446744073709551616 := by
  have hlow := le32_lt bytes off
  have hhigh := le32_lt bytes (off + 4)
  simp only [le64]
  omega

/-- Only eight bytes matter to `le64`. -/
theorem le64_congr {left right : Nat → UInt8} {off off' : Nat}
    (h : ∀ i, i < 8 → left (off + i) = right (off' + i)) :
    le64 left off = le64 right off' := by
  have hlow : le32 left off = le32 right off' := le32_congr fun i hi => h i (by omega)
  have hhigh : le32 left (off + 4) = le32 right (off' + 4) := le32_congr fun i hi => by
    rw [Nat.add_assoc, Nat.add_assoc]
    exact h (4 + i) (by omega)
  rw [le64, le64, hlow, hhigh]

theorem le64_eq_zero (h : ∀ i, i < 8 → m (a + i) = 0) : le64 m a = 0 := by
  have hcongr : le64 m a = le64 (fun _ => 0) 0 := le64_congr fun i hi => h i hi
  rw [hcongr]
  rfl

/-- A stored word is read back. -/
theorem le64_put64_self (hw : w < 18446744073709551616) : le64 (put64 m a w) a = w := by
  have hbyte : ∀ i, i < 8 → put64 m a w (a + i) = byteOf w i := by
    intro i hi
    rw [put64, overlay_of_mem (by omega), Nat.add_sub_cancel_left]
  have hlow : le32 (put64 m a w) a = w % 4294967296 := by
    apply le32_of_bytes (Nat.mod_lt _ (by decide))
    all_goals
      rw [← UInt8.toNat_inj]
    · have h0 := hbyte 0 (by decide)
      rw [Nat.add_zero] at h0
      rw [h0, byteOf_toNat, byteOf_toNat]
      omega
    · rw [hbyte 1 (by decide), byteOf_toNat, byteOf_toNat]
      omega
    · rw [hbyte 2 (by decide), byteOf_toNat, byteOf_toNat]
      omega
    · rw [hbyte 3 (by decide), byteOf_toNat, byteOf_toNat]
      omega
  have hhigh : le32 (put64 m a w) (a + 4) = w / 4294967296 := by
    apply le32_of_bytes (by omega)
    all_goals
      rw [← UInt8.toNat_inj]
    · rw [hbyte 4 (by decide), byteOf_toNat, byteOf_toNat]
      omega
    · rw [Nat.add_assoc, hbyte 5 (by decide), byteOf_toNat, byteOf_toNat]
      omega
    · rw [Nat.add_assoc, hbyte 6 (by decide), byteOf_toNat, byteOf_toNat]
      omega
    · rw [Nat.add_assoc, hbyte 7 (by decide), byteOf_toNat, byteOf_toNat]
      omega
  rw [le64, hlow, hhigh]
  omega

theorem put64_of_apart (h : x < a ∨ a + 8 ≤ x) : put64 m a w x = m x :=
  overlay_of_not_mem (by omega)

theorem le64_put64_of_apart (h : b + 8 ≤ a ∨ a + 8 ≤ b) :
    le64 (put64 m a w) b = le64 m b :=
  le64_congr fun i hi => put64_of_apart (by omega)

section Pages

theorem putPage_of_mem (h : InPage p x) : putPage m p src x = src (x - p) := overlay_of_mem h

theorem putPage_of_not_mem (h : ¬ InPage p x) : putPage m p src x = m x := overlay_of_not_mem h

/-- Two pages are the same or have no byte in common. -/
theorem PageAligned.eq_of_inPage (hp : PageAligned p) (hq : PageAligned q) (h : InPage p x)
    (h' : InPage q x) : p = q := by
  simp only [PageAligned, InPage] at *
  omega

theorem InPage.word {i : Nat} (hi : i < 512) {j : Nat} (hj : j < 8) :
    InPage p (p + 8 * i + j) := by
  simp only [InPage]
  omega

/-- The words of a page depend on the bytes of the page only. -/
theorem le64_page_congr {i : Nat} (hi : i < 512) (h : ∀ x, InPage p x → m' x = m x) :
    le64 m' (p + 8 * i) = le64 m (p + 8 * i) :=
  le64_congr fun _ hj => h _ (InPage.word hi hj)

theorem le64_putPage {i : Nat} (hi : i < 512) :
    le64 (putPage m p src) (p + 8 * i) = le64 src (8 * i) :=
  le64_congr fun j hj => by
    rw [putPage_of_mem (InPage.word hi hj)]
    congr 1
    omega

/-- A store into one word of a page leaves the other words of it alone. -/
theorem le64_put64_word {i j : Nat} (h : i ≠ j) :
    le64 (put64 m (p + 8 * i) w) (p + 8 * j) = le64 m (p + 8 * j) :=
  le64_put64_of_apart (by omega)

theorem put64_of_not_inPage {i : Nat} (hi : i < 512) (h : ¬ InPage p x) :
    put64 m (p + 8 * i) w x = m x := by
  apply put64_of_apart
  simp only [InPage] at h
  omega

end Pages

end OsAgentLab
