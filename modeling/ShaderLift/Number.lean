import ShaderLift.Decimal.Notation

/-!
# Numbers in shader text

The numeric constants of the shading language and how they are spelled.  Every spelling is a token or is
enclosed in parentheses, so it can stand as an operand of any operator.
-/

namespace ShaderLift

/-- A numeric constant. -/
inductive Number where
  | int (value : Int)
  | float (value : Binary64)
deriving DecidableEq, Repr

namespace Number

/-- The least 32-bit integer. -/
def leastInt : Int := -2147483648

/-- The greatest 32-bit integer. -/
def greatestInt : Int := 2147483647

/-- The spelling of an integer.  The least 32-bit integer is a difference, because its magnitude is not an
integer constant of the shading language. -/
def intText (value : Int) : String :=
  if 0 ≤ value then
    toString value
  else if value = leastInt then
    "(-2147483647 - 1)"
  else
    "(" ++ toString value ++ ")"

/-- The spelling of a double.  An infinity is a constant too large to be represented, and a pattern that is
not a number is a quotient that has no value. -/
def floatText (value : Binary64) : String :=
  if value.isNaN then
    "(0.0/0.0)"
  else if value.isInfinite then
    if value.isNegative then "(-4e+100)" else "4e+100"
  else if value.isNegative then
    "(" ++ value.text ++ ")"
  else
    value.text

/-- The spelling of a number. -/
def text : Number → String
  | int value => intText value
  | float value => floatText value

end Number

end ShaderLift
