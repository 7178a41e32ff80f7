import Mathlib

/-!
# Doubles between zero and one

A `f64` is its bit pattern.  A double `v` with `0 ≤ v ≤ 1` is `significand v / 2 ^ scale v`,
and `mulRound v factor` is `(v * factor).round()`: the product rounded to 53 bits, ties to
even, and then to an integer, halves away from zero.

* `mulRound_le`: the result is at most the factor;
* `mulCeil`: `(factor as f64 * v).ceil()`, and how far rounding can be off (`sub_le_round53`).
-/

namespace Lib.Binary64

/-- `(0.0..=1.0).contains(&v)`, which no infinity or NaN satisfies and `-0.0` does. -/
def isUnit (bits : UInt64) : Bool := bits ≤ 0x3ff0000000000000 || bits == 0x8000000000000000

def biasedExponent (bits : UInt64) : Nat := bits.toNat / 2 ^ 52 % 2 ^ 11

def significand (bits : UInt64) : Nat :=
  bits.toNat % 2 ^ 52 + if biasedExponent bits = 0 then 0 else 2 ^ 52

def scale (bits : UInt64) : Nat := 1075 - max (biasedExponent bits) 1

/-- `n / 2 ^ d` to the nearest integer, ties to even. -/
def roundEven (n d : Nat) : Nat :=
  if 2 * (n % 2 ^ d) < 2 ^ d then n / 2 ^ d
  else if 2 ^ d < 2 * (n % 2 ^ d) then n / 2 ^ d + 1
  else n / 2 ^ d + n / 2 ^ d % 2

/-- `n` with 53 significant bits. -/
def round53 (n : Nat) : Nat :=
  let dropped := n.log2 + 1 - 53
  roundEven n dropped * 2 ^ dropped

def mulRound (bits : UInt64) (factor : Nat) : Nat :=
  (2 * round53 (significand bits * factor) + 2 ^ scale bits) / 2 ^ (scale bits + 1)

/-- 0.5, 1.0, and the double next to 0.1. -/
example : mulRound 0x3fe0000000000000 1000000 = 500000 ∧
    mulRound 0x3ff0000000000000 1000000 = 1000000 ∧
    mulRound 0x3fb999999999999a 1000000 = 100000 := by
  decide +kernel

theorem roundEven_le {n d bound : Nat} (h : n ≤ bound * 2 ^ d) : roundEven n d ≤ bound := by
  have hpos : 0 < 2 ^ d := Nat.two_pow_pos d
  have hle : n / 2 ^ d ≤ bound := Nat.div_le_of_le_mul (by rw [Nat.mul_comm]; exact h)
  rcases Nat.lt_or_ge (n / 2 ^ d) bound with hlt | hge
  · have hmod : n / 2 ^ d % 2 < 2 := Nat.mod_lt _ (by decide)
    unfold roundEven
    split
    · exact hle
    · split <;> omega
  · -- nothing is left over at the bound itself
    have hq : n / 2 ^ d = bound := Nat.le_antisymm hle hge
    have hr : n % 2 ^ d = 0 := by
      have hdiv := Nat.div_add_mod n (2 ^ d)
      rw [hq, Nat.mul_comm] at hdiv
      omega
    unfold roundEven
    rw [hr, Nat.mul_zero, if_pos hpos]
    exact hle

theorem round53_le {n bound k : Nat} (h : n ≤ 2 ^ k * bound) (hk : n.log2 + 1 - 53 ≤ k) :
    round53 n ≤ 2 ^ k * bound := by
  have hsplit : 2 ^ k * bound = 2 ^ (k - (n.log2 + 1 - 53)) * bound * 2 ^ (n.log2 + 1 - 53) := by
    rw [Nat.mul_right_comm, ← Nat.pow_add, Nat.sub_add_cancel hk]
  unfold round53
  rw [hsplit] at h ⊢
  exact Nat.mul_le_mul_right _ (roundEven_le h)

theorem significand_le {bits : UInt64} (h : isUnit bits = true) :
    52 ≤ scale bits ∧ significand bits ≤ 2 ^ scale bits ∧ significand bits < 2 ^ 53 := by
  have hcases : bits.toNat ≤ 0x3ff0000000000000 ∨ bits.toNat = 0x8000000000000000 := by
    unfold isUnit at h
    rcases Bool.or_eq_true_iff.mp h with h | h
    · exact .inl (UInt64.le_iff_toNat_le.mp (of_decide_eq_true h))
    · rw [eq_of_beq h]
      exact .inr rfl
  have hexp : biasedExponent bits ≤ 1023 := by
    unfold biasedExponent
    omega
  have hsig : significand bits < 2 ^ 53 := by
    unfold significand
    split <;> omega
  have hscale : 52 ≤ scale bits := by
    unfold scale
    omega
  refine ⟨hscale, ?_, hsig⟩
  rcases Nat.eq_or_lt_of_le hexp with heq | hlt
  · -- only 1.0 has the largest exponent
    have hone : significand bits = 2 ^ 52 := by
      unfold significand
      unfold biasedExponent at heq ⊢
      rw [if_neg (by omega)]
      omega
    rw [hone]
    exact Nat.pow_le_pow_right (by decide) hscale
  · have hge : 53 ≤ scale bits := by
      unfold scale
      omega
    exact hsig.le.trans (Nat.pow_le_pow_right (by decide) hge)

theorem mulRound_le {bits : UInt64} {factor : Nat} (h : isUnit bits = true) (hf : factor < 2 ^ 52) :
    mulRound bits factor ≤ factor := by
  obtain ⟨hscale, hle, hlt⟩ := significand_le h
  have hproduct : significand bits * factor ≤ 2 ^ scale bits * factor := Nat.mul_le_mul_right _ hle
  have hlog : (significand bits * factor).log2 + 1 - 53 ≤ scale bits := by
    have hbound : significand bits * factor < 2 ^ 105 := by
      calc significand bits * factor ≤ significand bits * 2 ^ 52 := Nat.mul_le_mul_left _ hf.le
        _ < 2 ^ 53 * 2 ^ 52 := Nat.mul_lt_mul_of_pos_right hlt (by decide)
    rcases Nat.eq_zero_or_pos (significand bits * factor) with hzero | hpos
    · rw [hzero]
      exact Nat.zero_le _
    · have := (Nat.log2_lt hpos.ne').mpr hbound
      omega
  have hround := round53_le hproduct hlog
  unfold mulRound
  have hpow : 2 ^ (scale bits + 1) = 2 * 2 ^ scale bits := by rw [Nat.pow_succ, Nat.mul_comm]
  have hpos : 0 < 2 ^ scale bits := Nat.two_pow_pos _
  rw [← Nat.lt_succ_iff, Nat.div_lt_iff_lt_mul (by omega), hpow]
  calc 2 * round53 (significand bits * factor) + 2 ^ scale bits
      ≤ 2 * (2 ^ scale bits * factor) + 2 ^ scale bits := by omega
    _ < 2 * (2 ^ scale bits * factor) + 2 * 2 ^ scale bits := by omega
    _ = (factor + 1) * (2 * 2 ^ scale bits) := by ring

/-! ## Rounding up -/

/-- `(factor as f64 * v).ceil()`. -/
def mulCeil (bits : UInt64) (factor : Nat) : Nat :=
  (round53 (significand bits * round53 factor) + (2 ^ scale bits - 1)) / 2 ^ scale bits

/-- The doubles next to 0.2 and 0.8. -/
example : mulCeil 0x3fc999999999999a 15 = 3 ∧ mulCeil 0x3fc999999999999a 16 = 4 ∧
    mulCeil 0x3fe999999999999a 20 = 16 ∧ mulCeil 0x3fe999999999999a 21 = 17 := by
  decide +kernel

theorem le_roundEven (n d : Nat) : n / 2 ^ d ≤ roundEven n d := by
  unfold roundEven
  split_ifs <;> omega

theorem sub_le_round53 (n : Nat) : n - n / 2 ^ 52 ≤ round53 n := by
  have hround := Nat.mul_le_mul_right (2 ^ (n.log2 + 1 - 53)) (le_roundEven n (n.log2 + 1 - 53))
  rcases Nat.eq_zero_or_pos (n.log2 + 1 - 53) with hexact | hdropped
  · rw [hexact, Nat.pow_zero, Nat.div_one, Nat.mul_one] at hround
    unfold round53
    dsimp only
    rw [hexact, Nat.pow_zero, Nat.mul_one]
    omega
  · have hpos : n ≠ 0 := by
      rintro rfl
      simp at hdropped
    have hunit : 2 ^ (n.log2 + 1 - 53) ≤ n / 2 ^ 52 := by
      rw [Nat.le_div_iff_mul_le (by decide), ← Nat.pow_add, show n.log2 + 1 - 53 + 52 = n.log2 by
        omega]
      exact Nat.log2_self_le hpos
    have hfloor := Nat.lt_div_mul_add (a := n) (Nat.two_pow_pos (n.log2 + 1 - 53))
    unfold round53
    dsimp only
    omega

end Lib.Binary64
