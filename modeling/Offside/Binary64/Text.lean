import Offside.Binary64.Shortest

/-!
# Texts of binary numbers

Three texts share the shortest digits: `plain` never uses an exponent, `literal` adds a fraction to
what would read as an integer, and `outlined` turns to an exponent for very large and very small
numbers.
-/

namespace Offside

namespace Decimal

/-- The digits, and how many of them stand before the point. -/
def spread (d : Decimal) : List Char × Int :=
  let digits := Nat.toDigits 10 d.digits
  (digits, digits.length + d.exponent)

/-- A run of zeros. -/
def zeros (count : Nat) : List Char := List.replicate count '0'

/-- The decimal without an exponent, and without a point if no digit follows it. -/
def positional (d : Decimal) : List Char :=
  let (digits, point) := d.spread
  if point ≤ 0 then '0' :: '.' :: zeros (-point).toNat ++ digits
  else if digits.length ≤ point then digits ++ zeros (point - digits.length).toNat
  else digits.take point.toNat ++ '.' :: digits.drop point.toNat

/-- The decimal with one digit before the point and an exponent of ten; a lone digit has no
point. -/
def scientific (d : Decimal) : List Char :=
  let (digits, point) := d.spread
  let fraction := digits.drop 1
  digits.take 1 ++ (if fraction.isEmpty then [] else '.' :: fraction) ++
    'e' :: (toString (point - 1)).toList

/-- The decimal is at least `10 ^ -4` and below `10 ^ 16`. -/
def isModerate (d : Decimal) : Bool :=
  d.spread.2 ≤ 16 && -3 ≤ d.spread.2

end Decimal

namespace Binary64

/-- A minus sign for a set sign bit. -/
def signed (x : Binary64) (text : List Char) : List Char :=
  if x.isNegative then '-' :: text else text

/-- Shortest digits in positional notation, whatever the size. -/
def plain (x : Binary64) : List Char :=
  match x.magnitude with
  | .nan => ['N', 'a', 'N']
  | .infinite => x.signed ['i', 'n', 'f']
  | .finite significand shift => x.signed (shortest significand shift).positional

/-- The text gets a fraction unless it shows one already. -/
def withFraction (text : List Char) : List Char :=
  if text.any fun c => c == '.' || c == 'e' || c == 'E' then text else text ++ ['.', '0']

/-- The text of the number in source code, which never reads as an integer. -/
def literal (x : Binary64) : List Char := withFraction x.plain

/-- The text of the number in an outline: positional with a fraction for zero and moderate sizes,
with an exponent of ten otherwise. -/
def outlined (x : Binary64) : List Char :=
  match x.magnitude with
  | .finite significand shift =>
    let decimal := shortest significand shift
    x.signed <|
      if significand = 0 || decimal.isModerate then withFraction decimal.positional
      else decimal.scientific
  | _ => x.plain

end Binary64

end Offside
