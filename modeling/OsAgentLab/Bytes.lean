/-
Little-endian numbers in byte arrays, and the fixed-width arithmetic of the C
types `uint32_t` and `uint64_t`.
-/
import Mathlib.Data.Nat.Bitwise
import Mathlib.Tactic.Ring

namespace OsAgentLab

/-- The value of a `uint32_t` expression. -/
def u32 (n : Nat) : Nat := n % 4294967296

/-- The value of a `uint64_t` or `size_t` expression. -/
def u64 (n : Nat) : Nat := n % 18446744073709551616

/-- The value of `(int)n`. -/
def cInt (n : Nat) : Int := Int.bmod n 4294967296

theorem cInt_of_lt {n : Nat} (h : n < 2147483648) : cInt n = n := by
  unfold cInt
  exact Int.bmod_eq_of_le (by omega) (by omega)

theorem u32_of_lt {n : Nat} (h : n < 4294967296) : u32 n = n := Nat.mod_eq_of_lt h

theorem u64_of_lt {n : Nat} (h : n < 18446744073709551616) : u64 n = n :=
  Nat.mod_eq_of_lt h

theorem u32_lt (n : Nat) : u32 n < 4294967296 := Nat.mod_lt _ (by decide)

/-- The byte `(uint8_t)((n >> (8 * i)) & 0xFF)`. -/
def byteOf (n i : Nat) : UInt8 := UInt8.ofNat (n / 256 ^ i)

theorem byteOf_toNat (n i : Nat) : (byteOf n i).toNat = n / 256 ^ i % 256 := by
  simp [byteOf, UInt8.toNat_ofNat']

/-- `le16(p + off)`. -/
def le16 (bytes : Nat → UInt8) (off : Nat) : Nat :=
  (bytes off).toNat + (bytes (off + 1)).toNat * 256

/-- `le32(p + off)`. -/
def le32 (bytes : Nat → UInt8) (off : Nat) : Nat :=
  (bytes off).toNat + (bytes (off + 1)).toNat * 256 +
    (bytes (off + 2)).toNat * 65536 + (bytes (off + 3)).toNat * 16777216

theorem le16_lt (bytes : Nat → UInt8) (off : Nat) : le16 bytes off < 65536 := by
  have h0 := (bytes off).toNat_lt
  have h1 := (bytes (off + 1)).toNat_lt
  simp only [le16]
  omega

theorem le32_lt (bytes : Nat → UInt8) (off : Nat) :
    le32 bytes off < 4294967296 := by
  have h0 := (bytes off).toNat_lt
  have h1 := (bytes (off + 1)).toNat_lt
  have h2 := (bytes (off + 2)).toNat_lt
  have h3 := (bytes (off + 3)).toNat_lt
  simp only [le32]
  omega

/-- Only four bytes matter to `le32`. -/
theorem le32_congr {left right : Nat → UInt8} {off off' : Nat}
    (h : ∀ i, i < 4 → left (off + i) = right (off' + i)) :
    le32 left off = le32 right off' := by
  have h0 := h 0 (by decide)
  have h1 := h 1 (by decide)
  have h2 := h 2 (by decide)
  have h3 := h 3 (by decide)
  simp only [Nat.add_zero] at h0
  simp only [le32, h0, h1, h2, h3]

/-- A 16-bit number is put together again from its two bytes. -/
theorem le16_of_bytes {bytes : Nat → UInt8} {off n : Nat} (hn : n < 65536)
    (h0 : bytes off = byteOf n 0) (h1 : bytes (off + 1) = byteOf n 1) :
    le16 bytes off = n := by
  simp only [le16, h0, h1, byteOf_toNat]
  omega

/-- A 32-bit number is put together again from its four bytes. -/
theorem le32_of_bytes {bytes : Nat → UInt8} {off n : Nat} (hn : n < 4294967296)
    (h0 : bytes off = byteOf n 0) (h1 : bytes (off + 1) = byteOf n 1)
    (h2 : bytes (off + 2) = byteOf n 2) (h3 : bytes (off + 3) = byteOf n 3) :
    le32 bytes off = n := by
  simp only [le32, h0, h1, h2, h3, byteOf_toNat]
  omega

end OsAgentLab
