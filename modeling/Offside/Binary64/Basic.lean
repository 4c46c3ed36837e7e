/-!
# Binary floating-point numbers of 64 bits

A number is its bit pattern: one sign bit, eleven exponent bits and fifty-two fraction bits. A
finite magnitude is `significand * 2 ^ shift` units of the smallest positive number `2 ^ -1074`, so
that everything said about finite magnitudes is said with natural numbers.
-/

namespace Offside

-- Powers of natural numbers are their own, also where other powers are known.
attribute [local instance (2000)] instPowNat

/-- A 64-bit binary floating-point number, held as its bits. -/
structure Binary64 where
  bits : UInt64
  deriving DecidableEq, Inhabited

namespace Binary64

/-- What a bit pattern says about the size of the number, apart from the sign. -/
inductive Magnitude where
  | nan
  | infinite
  /-- The size `significand * 2 ^ shift * 2 ^ -1074`. -/
  | finite (significand shift : Nat)
  deriving DecidableEq

/-- The sign bit is set. -/
def isNegative (x : Binary64) : Bool := 2 ^ (63 : Nat) ≤ x.bits.toNat

/-- The eleven exponent bits. -/
def exponentField (x : Binary64) : Nat := x.bits.toNat / 2 ^ (52 : Nat) % 2 ^ (11 : Nat)

/-- The fifty-two fraction bits. -/
def fractionField (x : Binary64) : Nat := x.bits.toNat % 2 ^ (52 : Nat)

/-- The number without its sign: a zero exponent field has no hidden bit, and the largest exponent
field is kept for infinity and for what is not a number. -/
def magnitude (x : Binary64) : Magnitude :=
  if x.exponentField = 2 ^ (11 : Nat) - 1 then
    if x.fractionField = 0 then .infinite else .nan
  else if x.exponentField = 0 then .finite x.fractionField 0
  else .finite (2 ^ (52 : Nat) + x.fractionField) (x.exponentField - 1)

/-- The number is neither infinite nor a failed computation. -/
def isFinite (x : Binary64) : Bool := x.exponentField != 2 ^ (11 : Nat) - 1

/-- The pattern of positive infinity, which is the first one above all finite positive patterns. -/
def infinityBits : Nat := (2 ^ (11 : Nat) - 1) * 2 ^ (52 : Nat)

/-- Positive infinity. -/
def infinity : Binary64 := ⟨UInt64.ofNat infinityBits⟩

/-- Positive zero. -/
def zero : Binary64 := ⟨0⟩

end Binary64

end Offside
