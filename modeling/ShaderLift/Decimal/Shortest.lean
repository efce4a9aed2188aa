import ShaderLift.Decimal.Binary64

/-!
# The shortest decimal that reads back

The reals that round to a finite double form an interval around it, with its ends included exactly if
the mantissa is even.  `Binary64.shortest` looks for a point of that interval on ever finer decimal
grids.  Only the two neighbours of the number on a grid have to be tried: if any point of the grid lies in
the interval, one of them does.  The first grid with a hit has the fewest digits.

All comparisons are between natural numbers.
-/

namespace ShaderLift

/-- The decimal number `digits · 10 ^ exponent`. -/
structure Decimal where
  digits : Nat
  exponent : Int
deriving DecidableEq, Repr

namespace Binary64

/-- Whether a decimal rounds to the magnitude of the number.  Decimal and interval are compared in units of
a quarter of the last place, after clearing the denominators. -/
def readsBack (x : Binary64) (d : Decimal) : Bool :=
  let point := d.digits * Nat.pow 10 d.exponent.toNat * Nat.pow 2 (2 - x.exponent).toNat
  let quarter := Nat.pow 10 (-d.exponent).toNat * Nat.pow 2 (x.exponent - 2).toNat
  let low := (4 * x.mantissa - if x.isNarrowBelow then 1 else 2) * quarter
  let high := (4 * x.mantissa + 2) * quarter
  if x.mantissa % 2 = 0 then
    decide (low ≤ point) && decide (point ≤ high)
  else
    decide (low < point) && decide (point < high)

/-- The point of the grid of multiples of `10 ^ exponent` that reads back and is nearest to the number; of
two points that are equally near, the larger one. -/
def nearestOnGrid? (x : Binary64) (exponent : Int) : Option Decimal :=
  let numerator := x.mantissa * Nat.pow 2 x.exponent.toNat * Nat.pow 10 (-exponent).toNat
  let denominator := Nat.pow 10 exponent.toNat * Nat.pow 2 (-x.exponent).toNat
  let below : Decimal := ⟨numerator / denominator, exponent⟩
  let above : Decimal := ⟨numerator / denominator + 1, exponent⟩
  match x.readsBack below, x.readsBack above with
  | true, true =>
      if 2 * numerator < (2 * below.digits + 1) * denominator then some below else some above
  | true, false => some below
  | false, true => some above
  | false, false => none

/-- An exponent whose power of ten exceeds the magnitude of the number: `0.30103` is a little more than the
decimal logarithm of two. -/
def gridBound (x : Binary64) : Int :=
  (x.mantissa.log2 + x.exponent + 1) * 30103 / 100000 + 2

/-- All digits of the magnitude of the number. -/
def exact (x : Binary64) : Decimal :=
  if 0 ≤ x.exponent then
    ⟨x.mantissa * Nat.pow 2 x.exponent.toNat, 0⟩
  else
    ⟨x.mantissa * Nat.pow 5 (-x.exponent).toNat, x.exponent⟩

/-- The decimal with the fewest digits that reads back as the magnitude of the finite number `x`, and of
those the nearest.  Seventeen digits always suffice, so the search over grids does not run out. -/
def shortest (x : Binary64) : Decimal :=
  if x.mantissa = 0 then
    ⟨0, 0⟩
  else
    ((List.range 21).findSome? fun (step : Nat) => x.nearestOnGrid? (x.gridBound - step)).getD x.exact

end Binary64

end ShaderLift
