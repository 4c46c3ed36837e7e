import Offside.Binary64.Basic

/-!
# Decimals and the nearest binary number

A decimal is a natural number of units of a power of ten. `Decimal.nearest` rounds it to the
nearest binary number in exact natural arithmetic: of two equally near ones the even significand
wins, and what rounds beyond the largest finite number becomes infinity.
-/

namespace Offside

-- Powers of natural numbers are their own, also where other powers are known.
attribute [local instance (2000)] instPowNat

/-- The number `digits * 10 ^ exponent`. -/
structure Decimal where
  digits : Nat
  exponent : Int
  deriving DecidableEq, Inhabited

/-- The quotient rounded to the nearest natural number, a half to the even neighbour. -/
def roundHalfEven (numerator denominator : Nat) : Nat :=
  let quotient := numerator / denominator
  let twice := 2 * (numerator % denominator)
  if twice < denominator then quotient
  else if denominator < twice then quotient + 1
  else quotient + quotient % 2

/-- Rounding moves a quotient by at most one half. -/
theorem roundHalfEven_within_half (numerator denominator : Nat) (h : 0 < denominator) :
    2 * numerator ≤ denominator * (2 * roundHalfEven numerator denominator) + denominator ∧
      denominator * (2 * roundHalfEven numerator denominator) ≤ 2 * numerator + denominator := by
  have hdiv := Nat.div_add_mod numerator denominator
  have hlt := Nat.mod_lt numerator h
  have hparity : numerator / denominator % 2 = 0 ∨ numerator / denominator % 2 = 1 := by omega
  have hexpand (n : Nat) : denominator * (2 * n) = 2 * (denominator * n) := by
    rw [Nat.mul_left_comm]
  unfold roundHalfEven
  simp only [hexpand]
  split
  · omega
  · split
    · rw [Nat.mul_add]
      omega
    · rcases hparity with hp | hp <;> rw [hp, Nat.mul_add] <;> omega

namespace Binary64

/-- The binary number nearest to `numerator / denominator`. The exponent is the least one that
leaves the significand below `2 ^ 53`; a significand that rounds up to `2 ^ 53` carries into the
exponent field, because patterns of one sign are ordered as the numbers are. -/
def ofRatio (numerator denominator : Nat) : Binary64 :=
  let units := numerator * 2 ^ (1074 : Nat)
  let shift := (units / denominator).log2 - 52
  let pattern := shift * 2 ^ (52 : Nat) + roundHalfEven units (denominator * 2 ^ shift)
  ⟨UInt64.ofNat (min pattern infinityBits)⟩

end Binary64

namespace Decimal

/-- The nearest binary number. A positive decimal of at least `10 ^ 309` is beyond the largest
finite number and one below `2 ^ -1076` is nearest to zero, so no power of ten computed here is
much larger than the digits require. -/
def nearest (d : Decimal) : Binary64 :=
  if d.digits = 0 then .zero
  else if 309 ≤ d.exponent then .infinity
  else if (d.digits.log2 : Int) + 1 + 3 * d.exponent ≤ -1076 then .zero
  else if 0 ≤ d.exponent then .ofRatio (d.digits * 10 ^ d.exponent.toNat) 1
  else .ofRatio d.digits (10 ^ (-d.exponent).toNat)

end Decimal

end Offside
