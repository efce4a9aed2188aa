import ShaderLift.Decimal.Shortest

/-!
# Decimal notation

A number of moderate size is written positionally, with at least one digit after the point; any other is
written with one digit before the point and an exponent.
-/

namespace ShaderLift

namespace Decimal

/-- The decimal digits, most significant first. -/
def digitChars (d : Decimal) : List Char :=
  Nat.toDigits 10 d.digits

/-- The exponent of the leading digit. -/
def leadingExponent (d : Decimal) : Int :=
  d.exponent + d.digitChars.length - 1

/-- Whether the decimal is written positionally: from `0.0001` up to, and without, `10 ^ 16`. -/
def isPositional (d : Decimal) : Bool :=
  decide (-4 ≤ d.leadingExponent) && decide (d.leadingExponent < 16)

/-- The digits with the point at its place; zeros fill the places between the digits and the point. -/
def positional (d : Decimal) : List Char :=
  if 0 ≤ d.exponent then
    d.digitChars ++ List.replicate d.exponent.toNat '0' ++ ['.', '0']
  else
    let places := (-d.exponent).toNat
    let count := d.digitChars.length
    if places < count then
      d.digitChars.take (count - places) ++ '.' :: d.digitChars.drop (count - places)
    else
      '0' :: '.' :: (List.replicate (places - count) '0' ++ d.digitChars)

/-- The leading digit, the other digits after a point if there are any, and the exponent. -/
def scientific (d : Decimal) : List Char :=
  let rest := d.digitChars.drop 1
  d.digitChars.take 1 ++ (if rest.isEmpty then [] else '.' :: rest)
    ++ 'e' :: (toString d.leadingExponent).toList

/-- The text of a decimal. -/
def text (d : Decimal) : String :=
  String.ofList (if d.isPositional then d.positional else d.scientific)

end Decimal

namespace Binary64

/-- The text of a double: the shortest decimal that reads back, with a sign if the sign bit is set. -/
def text (x : Binary64) : String :=
  if x.isNaN then
    "NaN"
  else
    let magnitude := if x.isInfinite then "inf" else x.shortest.text
    if x.isNegative then "-" ++ magnitude else magnitude

end Binary64

end ShaderLift
