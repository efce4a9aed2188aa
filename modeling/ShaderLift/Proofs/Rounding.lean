import Mathlib.Algebra.Order.Field.Power
import Mathlib.Data.Rat.Cast.Order
import Mathlib.Tactic.FieldSimp
import Mathlib.Tactic.Linarith
import Mathlib.Tactic.NormNum
import Mathlib.Tactic.Positivity
import Mathlib.Tactic.Ring
import ShaderLift.Decimal.Shortest

/-!
# Decimals that read back

The magnitudes of doubles are ranked by their bit patterns without the sign.  Between the magnitudes of two successive
ranks lies a boundary, and the decimals that read back as a double lie between the boundaries below and above it.  A
boundary itself belongs to the one of the two ranks that is even, so no decimal reads back as two magnitudes.

* `Binary64.boundary_lt_succ`: the boundaries increase with the rank.
* `Binary64.bounds_of_readsBack`: where a decimal that reads back lies.
* `Binary64.rank_eq_of_readsBack`: a decimal reads back as one magnitude at most.
* `Binary64.readsBack_shortest`: the shortest decimal of a double reads back as the double.
-/

namespace ShaderLift

/-- The number that a decimal stands for. -/
def Decimal.value (d : Decimal) : ℚ :=
  d.digits * 10 ^ d.exponent

namespace Binary64

/-- The bit pattern without the sign. -/
def rank (x : Binary64) : Nat :=
  x.bits.toNat % 2 ^ 63

/-- The mantissa of a rank. -/
def mantissaAt (rank : Nat) : Nat :=
  if rank / 2 ^ 52 = 0 then rank % 2 ^ 52 else 2 ^ 52 + rank % 2 ^ 52

/-- The exponent of a rank. -/
def exponentAt (rank : Nat) : Int :=
  max (rank / 2 ^ 52 : Nat) 1 - 1075

/-- The point between the magnitudes of a rank and of the next one, at which rounding changes from one to the other. -/
def boundary (rank : Nat) : ℚ :=
  (4 * mantissaAt rank + 2) * 2 ^ (exponentAt rank - 2)

theorem biasedExponent_eq (x : Binary64) : x.biasedExponent = x.rank / 2 ^ 52 := by
  show x.bits.toNat / 2 ^ 52 % 2 ^ 11 = x.bits.toNat % 2 ^ 63 / 2 ^ 52
  omega

theorem fraction_eq (x : Binary64) : x.fraction = x.rank % 2 ^ 52 := by
  show x.bits.toNat % 2 ^ 52 = x.bits.toNat % 2 ^ 63 % 2 ^ 52
  omega

theorem mantissa_eq (x : Binary64) : x.mantissa = mantissaAt x.rank := by
  rw [mantissa, biasedExponent_eq, fraction_eq]
  rfl

theorem exponent_eq (x : Binary64) : x.exponent = exponentAt x.rank := by
  rw [exponent, biasedExponent_eq]
  rfl

/-- A mantissa is even if and only if its rank is. -/
theorem mantissaAt_mod_two (rank : Nat) : mantissaAt rank % 2 = rank % 2 := by
  rw [mantissaAt]
  split <;> omega

/-- The next rank has the next mantissa, or starts with the next exponent. -/
theorem mantissaAt_succ (rank : Nat) :
    (mantissaAt (rank + 1) = mantissaAt rank + 1 ∧ exponentAt (rank + 1) = exponentAt rank ∧
        ((rank + 1) % 2 ^ 52 ≠ 0 ∨ (rank + 1) / 2 ^ 52 = 1)) ∨
      (2 * mantissaAt (rank + 1) = mantissaAt rank + 1 ∧ exponentAt (rank + 1) = exponentAt rank + 1 ∧
        (rank + 1) % 2 ^ 52 = 0 ∧ 1 < (rank + 1) / 2 ^ 52) := by
  simp only [mantissaAt, exponentAt]
  by_cases hlast : (rank + 1) % 2 ^ 52 = 0
  · by_cases hfirst : rank / 2 ^ 52 = 0
    · left
      split_ifs <;> omega
    · right
      split_ifs <;> omega
  · left
    split_ifs <;> omega

/-- Twice as large a power of two. -/
theorem two_zpow_succ {q q' : Int} (h : q' = q + 1) : (2 : ℚ) ^ (q' - 2) = 2 * 2 ^ (q - 2) := by
  rw [h, show q + 1 - 2 = 1 + (q - 2) by ring, zpow_add₀ two_ne_zero, zpow_one]

theorem boundary_lt_succ (rank : Nat) : boundary rank < boundary (rank + 1) := by
  have hpos : (0 : ℚ) < 2 ^ (exponentAt rank - 2) := by positivity
  rw [boundary, boundary]
  rcases mantissaAt_succ rank with ⟨hmantissa, hexponent, -⟩ | ⟨hmantissa, hexponent, -⟩
  · rw [hmantissa, hexponent]
    push_cast
    nlinarith
  · have hcast : (2 * mantissaAt (rank + 1) : ℚ) = mantissaAt rank + 1 := by exact_mod_cast hmantissa
    rw [two_zpow_succ hexponent]
    nlinarith

theorem boundary_strictMono : StrictMono boundary :=
  strictMono_nat_of_lt_succ boundary_lt_succ

/-- The lower end of the interval around a double is the boundary below its rank. -/
theorem boundary_eq_lower {x : Binary64} {below : Nat} (h : x.rank = below + 1) :
    (((4 * x.mantissa - if x.isNarrowBelow then 1 else 2 : Nat) : ℚ)) * 2 ^ (x.exponent - 2) = boundary below := by
  have hnarrow : x.isNarrowBelow = decide (x.rank % 2 ^ 52 = 0 ∧ 1 < x.rank / 2 ^ 52) := by
    rw [isNarrowBelow, fraction_eq, biasedExponent_eq, Bool.decide_and]
    rfl
  rw [boundary, hnarrow, mantissa_eq, exponent_eq, h]
  rcases mantissaAt_succ below with ⟨hmantissa, hexponent, hwide⟩ | ⟨hmantissa, hexponent, hnarrow⟩
  · have hcount : 4 * mantissaAt (below + 1) - 2 = 4 * mantissaAt below + 2 := by omega
    rw [if_neg (by rw [decide_eq_true_iff]; omega), hcount, hexponent]
    push_cast
    rfl
  · have hcount : 2 * (4 * mantissaAt (below + 1) - 1) = 4 * mantissaAt below + 2 := by omega
    have hcast : (2 : ℚ) * (4 * mantissaAt (below + 1) - 1 : Nat) = 4 * mantissaAt below + 2 := by
      exact_mod_cast hcount
    rw [if_pos (decide_eq_true hnarrow), two_zpow_succ hexponent, ← hcast]
    ring

/-! ## Reading back -/

/-- A power of a rational as a quotient of powers with natural exponents. -/
theorem pow_toNat {a : ℚ} (ha : a ≠ 0) (k : Int) : a ^ k.toNat = a ^ k * a ^ (-k).toNat := by
  rw [← zpow_natCast, ← zpow_natCast, ← zpow_add₀ ha]
  congr 1
  omega

/-- A decimal is compared with multiples of a quarter of the last place of a double. -/
theorem scaled_le_iff (count : Nat) (q : Int) (d : Decimal) :
    (count * (Nat.pow 10 (-d.exponent).toNat * Nat.pow 2 (q - 2).toNat) ≤
        d.digits * Nat.pow 10 d.exponent.toNat * Nat.pow 2 (2 - q).toNat ↔
      (count : ℚ) * 2 ^ (q - 2) ≤ d.value) ∧
    (d.digits * Nat.pow 10 d.exponent.toNat * Nat.pow 2 (2 - q).toNat ≤
        count * (Nat.pow 10 (-d.exponent).toNat * Nat.pow 2 (q - 2).toNat) ↔
      d.value ≤ (count : ℚ) * 2 ^ (q - 2)) := by
  have hten := pow_toNat (show (10 : ℚ) ≠ 0 by norm_num) d.exponent
  have htwo := pow_toNat (show (2 : ℚ) ≠ 0 by norm_num) (q - 2)
  rw [neg_sub] at htwo
  have hscale : (0 : ℚ) < 10 ^ (-d.exponent).toNat * 2 ^ (2 - q).toNat := by positivity
  have hcount : ((count * (Nat.pow 10 (-d.exponent).toNat * Nat.pow 2 (q - 2).toNat) : Nat) : ℚ) =
      count * 2 ^ (q - 2) * (10 ^ (-d.exponent).toNat * 2 ^ (2 - q).toNat) := by
    push_cast [Nat.pow_eq]
    rw [htwo]
    ring
  have hpoint : ((d.digits * Nat.pow 10 d.exponent.toNat * Nat.pow 2 (2 - q).toNat : Nat) : ℚ) =
      d.value * (10 ^ (-d.exponent).toNat * 2 ^ (2 - q).toNat) := by
    push_cast [Nat.pow_eq]
    rw [hten, Decimal.value]
    ring
  constructor
  · rw [← mul_le_mul_iff_left₀ hscale, ← hcount, ← hpoint, Nat.cast_le]
  · rw [← mul_le_mul_iff_left₀ hscale, ← hcount, ← hpoint, Nat.cast_le]

/-- Which decimals read back: those between the ends of an interval. -/
theorem readsBack_iff (x : Binary64) (d : Decimal) :
    x.readsBack d = true ↔
      let low : ℚ := (4 * x.mantissa - if x.isNarrowBelow then 1 else 2 : Nat) * 2 ^ (x.exponent - 2)
      let high : ℚ := (4 * x.mantissa + 2 : Nat) * 2 ^ (x.exponent - 2)
      if x.mantissa % 2 = 0 then low ≤ d.value ∧ d.value ≤ high else low < d.value ∧ d.value < high := by
  have hlow := scaled_le_iff (4 * x.mantissa - if x.isNarrowBelow then 1 else 2) x.exponent d
  have hhigh := scaled_le_iff (4 * x.mantissa + 2) x.exponent d
  simp only [readsBack]
  split
  · rw [Bool.and_eq_true, decide_eq_true_iff, decide_eq_true_iff, hlow.1, hhigh.2]
  · rw [Bool.and_eq_true, decide_eq_true_iff, decide_eq_true_iff, ← Nat.not_le, ← Nat.not_le, hlow.2, hhigh.1,
      not_le, not_le]

/-- A decimal that reads back lies between the boundaries around the rank.  The boundaries are included if the rank is
even. -/
theorem bounds_of_readsBack {x : Binary64} {d : Decimal} (h : x.readsBack d = true) :
    d.value ≤ boundary x.rank ∧ (x.rank % 2 = 1 → d.value ≠ boundary x.rank) ∧
      ∀ below, x.rank = below + 1 →
        boundary below ≤ d.value ∧ (x.rank % 2 = 1 → d.value ≠ boundary below) := by
  have hupper : ((4 * x.mantissa + 2 : Nat) : ℚ) * 2 ^ (x.exponent - 2) = boundary x.rank := by
    rw [boundary, mantissa_eq, exponent_eq]
    push_cast
    rfl
  have hparity : x.mantissa % 2 = x.rank % 2 := by rw [mantissa_eq, mantissaAt_mod_two]
  have hinterval := (x.readsBack_iff d).mp h
  simp only [hupper] at hinterval
  split at hinterval
  · refine ⟨hinterval.2, by omega, ?_⟩
    intro below hrank
    rw [boundary_eq_lower hrank] at hinterval
    exact ⟨hinterval.1, by omega⟩
  · refine ⟨hinterval.2.le, fun _ => hinterval.2.ne, ?_⟩
    intro below hrank
    rw [boundary_eq_lower hrank] at hinterval
    exact ⟨hinterval.1.le, fun _ => hinterval.1.ne'⟩

theorem rank_le_of_readsBack {x y : Binary64} {d d' : Decimal} (hx : x.readsBack d = true)
    (hy : y.readsBack d' = true) (hvalue : d.value = d'.value) : y.rank ≤ x.rank := by
  by_contra hlt
  obtain ⟨below, hbelow⟩ : ∃ below, y.rank = below + 1 := ⟨y.rank - 1, by omega⟩
  obtain ⟨hle, hne, -⟩ := bounds_of_readsBack hx
  obtain ⟨-, -, hlower⟩ := bounds_of_readsBack hy
  obtain ⟨hge, hne'⟩ := hlower below hbelow
  rw [← hvalue] at hge hne'
  rcases Nat.lt_or_ge x.rank below with hfar | hnear
  · have hboundary := boundary_strictMono hfar
    linarith
  · -- The two are neighbours, and the decimal is the boundary between them.
    have hrank : x.rank = below := by omega
    rw [hrank] at hle hne
    have hboundary := le_antisymm hle hge
    rcases Nat.mod_two_eq_zero_or_one below with heven | hodd
    · exact hne' (by omega) hboundary
    · exact hne hodd hboundary

/-- Decimals of one value read back as one magnitude at most. -/
theorem rank_eq_of_readsBack {x y : Binary64} {d d' : Decimal} (hx : x.readsBack d = true)
    (hy : y.readsBack d' = true) (hvalue : d.value = d'.value) : x.rank = y.rank :=
  Nat.le_antisymm (rank_le_of_readsBack hy hx hvalue.symm) (rank_le_of_readsBack hx hy hvalue)

/-! ## The shortest decimal -/

/-- A decimal on a grid is only taken if it reads back. -/
theorem readsBack_of_nearestOnGrid? {x : Binary64} {exponent : Int} {d : Decimal}
    (h : x.nearestOnGrid? exponent = some d) : x.readsBack d = true := by
  simp only [nearestOnGrid?] at h
  split at h
  · rename_i hbelow habove
    split at h
    · cases h
      exact hbelow
    · cases h
      exact habove
  · rename_i hbelow _
    cases h
    exact hbelow
  · rename_i _ habove
    cases h
    exact habove
  · cases h

/-- All digits of a magnitude stand for the magnitude. -/
theorem value_exact (x : Binary64) : x.exact.value = x.mantissa * 2 ^ x.exponent := by
  rw [exact]
  split
  · rename_i hexponent
    simp only [Decimal.value, zpow_zero, mul_one]
    push_cast [Nat.pow_eq]
    rw [← zpow_natCast, Int.toNat_of_nonneg hexponent]
  · rename_i hexponent
    have hfive : (5 : ℚ) ^ (-x.exponent).toNat = 5 ^ (-x.exponent) := by
      rw [← zpow_natCast, Int.toNat_of_nonneg (by omega)]
    simp only [Decimal.value]
    push_cast [Nat.pow_eq]
    rw [hfive, zpow_neg, show (10 : ℚ) = 5 * 2 by norm_num, mul_zpow]
    field_simp

theorem readsBack_exact (x : Binary64) : x.readsBack x.exact = true := by
  have hpower : (0 : ℚ) < 2 ^ (x.exponent - 2) := by positivity
  -- The magnitude is four times the mantissa in units of a quarter of the last place.
  have hvalue : x.exact.value = ((4 * x.mantissa : Nat) : ℚ) * 2 ^ (x.exponent - 2) := by
    rw [value_exact, zpow_sub₀ two_ne_zero]
    push_cast
    ring
  rw [readsBack_iff]
  simp only [hvalue, mul_le_mul_iff_left₀ hpower, mul_lt_mul_iff_left₀ hpower, Nat.cast_le, Nat.cast_lt]
  split
  · omega
  · split <;> omega

theorem readsBack_shortest (x : Binary64) : x.readsBack x.shortest = true := by
  rw [shortest]
  split
  · rename_i hzero
    have hexact : x.exact.value = (⟨0, 0⟩ : Decimal).value := by
      rw [value_exact, hzero, Decimal.value, Nat.cast_zero, zero_mul, zero_mul]
    have hreads := readsBack_exact x
    rw [readsBack_iff, hexact] at hreads
    exact (readsBack_iff x _).mpr hreads
  · cases hfound : (List.range 21).findSome? fun (step : Nat) => x.nearestOnGrid? (x.gridBound - step) with
    | none => exact readsBack_exact x
    | some d =>
        obtain ⟨step, -, hstep⟩ := List.exists_of_findSome?_eq_some hfound
        exact readsBack_of_nearestOnGrid? hstep

/-- Sign and rank make up the bit pattern. -/
theorem eq_of_rank_eq {x y : Binary64} (hsign : x.isNegative = y.isNegative) (hrank : x.rank = y.rank) : x = y := by
  have hbits : x.bits.toNat = y.bits.toNat := by
    have hx := x.bits.toNat_lt
    have hy := y.bits.toNat_lt
    have hneg : 2 ^ 63 ≤ x.bits.toNat ↔ 2 ^ 63 ≤ y.bits.toNat := decide_eq_decide.mp hsign
    rw [rank, rank] at hrank
    omega
  obtain ⟨bits⟩ := x
  obtain ⟨bits'⟩ := y
  exact congrArg Binary64.mk (UInt64.toNat_inj.mp hbits)

/-- Doubles of one sign whose shortest decimals have one value are the same. -/
theorem eq_of_value_shortest {x y : Binary64} (hsign : x.isNegative = y.isNegative)
    (hvalue : x.shortest.value = y.shortest.value) : x = y :=
  eq_of_rank_eq hsign (rank_eq_of_readsBack x.readsBack_shortest y.readsBack_shortest hvalue)

end Binary64

end ShaderLift
