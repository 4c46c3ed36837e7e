import Offside.Binary64.Decimal

/-!
# The shortest decimal that reads back

Every finite number is a natural number of units of `10 ^ -1074`. Cutting its digits after the
first, the second and so on gives two neighbours on coarser and coarser grids; the first grid that
holds a neighbour which reads back as the number gives its shortest decimal.
-/

namespace Offside.Binary64

-- Powers of natural numbers are their own, also where other powers are known.
attribute [local instance (2000)] instPowNat

/-- The finite magnitude as an exact decimal. -/
def exactDecimal (significand shift : Nat) : Decimal :=
  ⟨significand * 2 ^ shift * 5 ^ (1074 : Nat), -1074⟩

/-- The number of decimal digits; zero has one. -/
def digitCount (n : Nat) : Nat := (Nat.toDigits 10 n).length

/-- The candidate, if it reads back as the target. -/
def readingBack (target : Binary64) (d : Decimal) : Option Decimal :=
  if d.nearest = target then some d else none

/-- The decimal of `count` digits that reads back as `target`, the exact value being `exact`: the
neighbours of the value are tried, the nearer one first, and the larger one first if both are
equally near. -/
def onGrid (target : Binary64) (exact : Decimal) (count : Nat) : Option Decimal :=
  let dropped := digitCount exact.digits - count
  let step := 10 ^ dropped
  let below : Decimal := ⟨exact.digits / step, exact.exponent + dropped⟩
  let above : Decimal := ⟨exact.digits / step + 1, exact.exponent + dropped⟩
  if 2 * (exact.digits % step) < step then
    readingBack target below <|> readingBack target above
  else readingBack target above <|> readingBack target below

/-- A decimal of ten units is one unit of the next power. -/
def carried (d : Decimal) : Decimal :=
  if d.digits = 10 then ⟨1, d.exponent + 1⟩ else d

/-- The decimal of fewest digits that reads back as the finite magnitude, and of those the nearest
one. Seventeen digits always suffice, so the exact decimal is never used for want of one. -/
def shortest (significand shift : Nat) : Decimal :=
  if significand = 0 then ⟨0, 0⟩
  else
    let exact := exactDecimal significand shift
    let target := exact.nearest
    carried (((List.range' 1 17).findSome? (onGrid target exact)).getD exact)

end Offside.Binary64
