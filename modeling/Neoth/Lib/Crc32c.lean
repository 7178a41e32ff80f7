import Mathlib

/-!
# CRC-32C

The Castagnoli checksum, bit by bit over the reflected polynomial.  Remainders are
natural numbers below `2 ^ 32` (`crc32c_lt`), so that the kernel computes them.
-/

namespace Lib.Crc32c

def shift (crc : Nat) : Nat :=
  if crc % 2 = 1 then (crc >>> 1) ^^^ 0x82f63b78 else crc >>> 1

def shifts : Nat → Nat → Nat
  | 0, crc => crc
  | n + 1, crc => shifts n (shift crc)

def update (crc : Nat) (byte : UInt8) : Nat := shifts 8 (crc ^^^ byte.toNat)

def crc32c (bytes : List UInt8) : Nat := bytes.foldl update 0xffffffff ^^^ 0xffffffff

/-- The check value of the catalogue, of the digits 1 to 9. -/
example : crc32c [0x31, 0x32, 0x33, 0x34, 0x35, 0x36, 0x37, 0x38, 0x39] = 0xe3069283 := by
  decide +kernel

theorem shift_lt {crc : Nat} (h : crc < 2 ^ 32) : shift crc < 2 ^ 32 := by
  have hhalf : crc >>> 1 < 2 ^ 32 := by
    rw [Nat.shiftRight_eq_div_pow]
    omega
  unfold shift
  split
  · exact Nat.xor_lt_two_pow hhalf (by decide)
  · exact hhalf

theorem shifts_lt (n : Nat) {crc : Nat} (h : crc < 2 ^ 32) : shifts n crc < 2 ^ 32 := by
  induction n generalizing crc with
  | zero => exact h
  | succ n ih => exact ih (shift_lt h)

theorem update_lt {crc : Nat} (byte : UInt8) (h : crc < 2 ^ 32) : update crc byte < 2 ^ 32 :=
  shifts_lt 8 (Nat.xor_lt_two_pow h (byte.toNat_lt.trans (by decide)))

theorem crc32c_lt (bytes : List UInt8) : crc32c bytes < 2 ^ 32 := by
  have hfold : ∀ crc < 2 ^ 32, bytes.foldl update crc < 2 ^ 32 := by
    induction bytes with
    | nil => exact fun crc h => h
    | cons byte bytes ih => exact fun crc h => ih _ (update_lt byte h)
  exact Nat.xor_lt_two_pow (hfold _ (by decide)) (by decide)

end Lib.Crc32c
