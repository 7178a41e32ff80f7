import Mathlib

/-!
# Binary32 numbers compared

A float is its 32 bits.  `value` counts units of `2^-149`, the least subnormal, so
that every finite number is an integer; an infinity is the next power of two after
the finite ones and compares as IEEE 754 has it.  A NaN compares with nothing.
-/

namespace Lib.Binary32

def exponent (bits : UInt32) : Nat := bits.toNat / 2 ^ 23 % 2 ^ 8

def fraction (bits : UInt32) : Nat := bits.toNat % 2 ^ 23

def isNan (bits : UInt32) : Bool := exponent bits == 255 && fraction bits != 0

def isFinite (bits : UInt32) : Bool := exponent bits != 255

def magnitude (bits : UInt32) : Nat :=
  if exponent bits = 0 then fraction bits else (2 ^ 23 + fraction bits) * 2 ^ (exponent bits - 1)

/-- The number in units of `2^-149`. -/
def value (bits : UInt32) : Int :=
  if bits.toNat < 2 ^ 31 then magnitude bits else -(magnitude bits : Int)

/-- IEEE 754 `a < b`. -/
def lt (a b : UInt32) : Bool := !isNan a && !isNan b && value a < value b

example : value 0x3F800000 = 2 ^ 149 ∧ value 0xBF000000 = -2 ^ 148 ∧
    lt 0x3F000000 0x40A00000 = true := by
  decide

end Lib.Binary32
