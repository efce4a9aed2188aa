/-!
# Double precision numbers

A double is kept as its bit pattern, so that every pattern is a value of its own.  The fields of the
pattern are read as natural numbers: one sign bit, eleven exponent bits, fifty-two fraction bits.
-/

namespace ShaderLift

/-- A double precision number, given by its bit pattern. -/
structure Binary64 where
  bits : UInt64
deriving DecidableEq, Repr

namespace Binary64

/-- Whether the sign bit is set; it is also set for negative zero. -/
def isNegative (x : Binary64) : Bool :=
  decide (Nat.pow 2 63 ≤ x.bits.toNat)

/-- The exponent field. -/
def biasedExponent (x : Binary64) : Nat :=
  x.bits.toNat / Nat.pow 2 52 % Nat.pow 2 11

/-- The fraction field. -/
def fraction (x : Binary64) : Nat :=
  x.bits.toNat % Nat.pow 2 52

/-- Whether the pattern is not a number. -/
def isNaN (x : Binary64) : Bool :=
  x.biasedExponent == 2047 && x.fraction != 0

/-- Whether the pattern is one of the two infinities. -/
def isInfinite (x : Binary64) : Bool :=
  x.biasedExponent == 2047 && x.fraction == 0

/-- The integer `m` of the magnitude `m · 2 ^ q` of a finite number. -/
def mantissa (x : Binary64) : Nat :=
  if x.biasedExponent = 0 then x.fraction else Nat.pow 2 52 + x.fraction

/-- The exponent `q` of the magnitude `m · 2 ^ q` of a finite number. -/
def exponent (x : Binary64) : Int :=
  max x.biasedExponent 1 - 1075

/-- Whether the next smaller magnitude is only half as far away as the next larger one. -/
def isNarrowBelow (x : Binary64) : Bool :=
  x.fraction == 0 && decide (1 < x.biasedExponent)

end Binary64

end ShaderLift
