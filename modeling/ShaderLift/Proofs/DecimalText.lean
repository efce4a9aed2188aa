import Mathlib.Data.List.TakeWhile
import ShaderLift.Decimal.Notation
import ShaderLift.Proofs.Rounding

/-!
# Reading decimal notation

The text of a decimal is one numeral: digits with a point or an exponent, or both.  `numeralValue` reads the number that
a numeral stands for, whichever notation it is in.

* `Decimal.numeralValue_text`: the text of a decimal stands for the value of the decimal.
* `Decimal.isNumeral_text`: the text of a decimal is a numeral.
-/

namespace ShaderLift

/-- The number that digits with or without a point stand for. -/
def pointValue (cs : List Char) : ℚ :=
  let whole := cs.takeWhile (· != '.')
  let places := (cs.dropWhile (· != '.')).tail
  Nat.ofDigitChars 10 (whole ++ places) 0 / 10 ^ places.length

/-- The number that digits with or without a sign stand for. -/
def signedValue : List Char → Int
  | '-' :: cs => -Nat.ofDigitChars 10 cs 0
  | cs => Nat.ofDigitChars 10 cs 0

/-- The number that a numeral with or without an exponent stands for. -/
def numeralValue (cs : List Char) : ℚ :=
  pointValue (cs.takeWhile (· != 'e')) * 10 ^ signedValue (cs.dropWhile (· != 'e')).tail

/-- Whether characters can go on in a numeral: digits, points and exponents, with a sign after the start of an
exponent. -/
def isNumeralRun : Bool → List Char → Bool
  | _, [] => true
  | inExponent, c :: cs =>
      (c.isDigit || c == '.' || c == 'e' || inExponent && (c == '+' || c == '-')) && isNumeralRun (c == 'e') cs

/-- Characters are a numeral if they start with a digit and go on in a numeral. -/
def IsNumeral (cs : List Char) : Prop :=
  (∃ first ∈ cs.head?, first.isDigit = true) ∧ isNumeralRun false cs = true

/-! ## Values of texts -/

section Reading

variable {before after : List Char} {c : Char}

theorem bne_of_not_mem (h : c ∉ before) (other : Char) (hother : other ∈ before) : (other != c) = true := by
  rw [bne_iff_ne]
  rintro rfl
  exact h hother

/-- Characters are split at the first `c`. -/
theorem takeWhile_ne (h : c ∉ before) : (before ++ c :: after).takeWhile (· != c) = before := by
  rw [List.takeWhile_append_of_pos (bne_of_not_mem h), List.takeWhile_cons_of_neg (by simp), List.append_nil]

theorem dropWhile_ne (h : c ∉ before) : (before ++ c :: after).dropWhile (· != c) = c :: after := by
  rw [List.dropWhile_append_of_pos (bne_of_not_mem h), List.dropWhile_cons_of_neg (by simp)]

theorem takeWhile_ne_self (h : c ∉ before) : before.takeWhile (· != c) = before :=
  List.takeWhile_eq_self_iff.mpr (bne_of_not_mem h)

theorem dropWhile_ne_self (h : c ∉ before) : before.dropWhile (· != c) = [] :=
  List.dropWhile_eq_nil_iff.mpr (bne_of_not_mem h)

theorem pointValue_point (h : '.' ∉ before) :
    pointValue (before ++ '.' :: after) = Nat.ofDigitChars 10 (before ++ after) 0 / 10 ^ after.length := by
  simp only [pointValue, takeWhile_ne h, dropWhile_ne h, List.tail_cons]

theorem pointValue_digits (h : '.' ∉ before) : pointValue before = Nat.ofDigitChars 10 before 0 := by
  simp only [pointValue, takeWhile_ne_self h, dropWhile_ne_self h, List.tail_nil, List.append_nil, List.length_nil,
    pow_zero, div_one]

theorem numeralValue_exponent (h : 'e' ∉ before) :
    numeralValue (before ++ 'e' :: after) = pointValue before * 10 ^ signedValue after := by
  simp only [numeralValue, takeWhile_ne h, dropWhile_ne h, List.tail_cons]

theorem numeralValue_point (h : 'e' ∉ before) : numeralValue before = pointValue before := by
  rw [numeralValue, takeWhile_ne_self h, dropWhile_ne_self h]
  exact mul_one _

end Reading

/-- An integer is written with its digits, behind a sign if it is negative. -/
theorem toList_toString_int (k : Int) :
    (toString k).toList = if 0 ≤ k then Nat.toDigits 10 k.toNat else '-' :: Nat.toDigits 10 (-k).toNat := by
  rw [Int.toString_eq_repr, Int.repr_eq_if, Nat.repr_eq_ofList_toDigits, Nat.repr_eq_ofList_toDigits]
  split
  · rw [String.toList_ofList]
  · rw [String.toList_append, String.toList_ofList, String.toList_ofList]
    rfl

theorem isDigit_of_mem_toDigits {n : Nat} {c : Char} (h : c ∈ Nat.toDigits 10 n) : c.isDigit = true :=
  Nat.isDigit_of_mem_toDigits (by decide) (by decide) h

theorem signedValue_toString (k : Int) : signedValue (toString k).toList = k := by
  rw [toList_toString_int]
  split
  · rename_i hk
    have hfirst : ∀ cs, Nat.toDigits 10 k.toNat ≠ '-' :: cs := by
      intro cs hcs
      have hdigit := isDigit_of_mem_toDigits (hcs ▸ List.mem_cons_self)
      cases hdigit
    rw [signedValue, Nat.ofDigitChars_ten_toDigits, Int.toNat_of_nonneg hk]
    exact hfirst
  · rename_i hk
    show -(Nat.ofDigitChars 10 (Nat.toDigits 10 (-k).toNat) 0 : Int) = k
    rw [Nat.ofDigitChars_ten_toDigits]
    omega

namespace Decimal

variable (d : Decimal)

theorem isDigit_of_mem_digitChars {c : Char} (h : c ∈ d.digitChars) : c.isDigit = true :=
  isDigit_of_mem_toDigits h

theorem ofDigitChars_digitChars (init : Nat) :
    Nat.ofDigitChars 10 d.digitChars init = 10 ^ d.digitChars.length * init + d.digits := by
  rw [Nat.ofDigitChars_eq_ofDigitChars_zero, digitChars, Nat.ofDigitChars_ten_toDigits]

theorem length_digitChars_pos : 0 < d.digitChars.length :=
  Nat.length_toDigits_pos

/-- A character that is no digit is not among the digits. -/
theorem not_mem_digitChars {c : Char} (h : c.isDigit = false) : c ∉ d.digitChars := by
  intro hc
  rw [d.isDigit_of_mem_digitChars hc] at h
  cases h

theorem numeralValue_positional : numeralValue d.positional = d.value := by
  have hpoint := d.not_mem_digitChars (show '.'.isDigit = false from rfl)
  have hexponent := d.not_mem_digitChars (show 'e'.isDigit = false from rfl)
  rw [positional]
  split
  · rename_i hnonneg
    have hpower : (10 : ℚ) ^ d.exponent = 10 ^ d.exponent.toNat := by
      rw [← zpow_natCast, Int.toNat_of_nonneg hnonneg]
    rw [numeralValue_point (by simp [hexponent]), pointValue_point (by simp [hpoint])]
    rw [Nat.ofDigitChars_append, Nat.ofDigitChars_append, ofDigitChars_digitChars, Nat.ofDigitChars_replicate_zero,
      Nat.ofDigitChars_cons, Nat.ofDigitChars_nil, value, hpower]
    push_cast
    simp
    ring
  · rename_i hneg
    have hpower : (10 : ℚ) ^ d.exponent = 1 / 10 ^ (-d.exponent).toNat := by
      rw [← zpow_natCast, Int.toNat_of_nonneg (by omega), zpow_neg, one_div, inv_inv]
    dsimp only
    split
    · -- The point falls among the digits.
      rename_i hplaces
      have hlength : (d.digitChars.drop (d.digitChars.length - (-d.exponent).toNat)).length = (-d.exponent).toNat := by
        rw [List.length_drop]
        omega
      rw [numeralValue_point, pointValue_point (fun h => hpoint (List.mem_of_mem_take h)), List.take_append_drop,
        ofDigitChars_digitChars, hlength, value, hpower]
      · push_cast
        ring
      · rw [List.mem_append, List.mem_cons]
        rintro (h | h | h)
        · exact hexponent (List.mem_of_mem_take h)
        · cases h
        · exact hexponent (List.mem_of_mem_drop h)
    · -- The point falls before all digits, so that zeros stand between.
      rename_i hplaces
      have hlength : (List.replicate ((-d.exponent).toNat - d.digitChars.length) '0' ++ d.digitChars).length =
          (-d.exponent).toNat := by
        rw [List.length_append, List.length_replicate]
        omega
      rw [numeralValue_point (by simp [hexponent]), ← List.singleton_append, pointValue_point (by simp), hlength,
        Nat.ofDigitChars_append, Nat.ofDigitChars_append, Nat.ofDigitChars_replicate_zero, ofDigitChars_digitChars,
        value, hpower]
      simp [Nat.ofDigitChars_cons, Nat.ofDigitChars_nil]
      ring

theorem numeralValue_scientific : numeralValue d.scientific = d.value := by
  have hpoint := d.not_mem_digitChars (show '.'.isDigit = false from rfl)
  have hexponent := d.not_mem_digitChars (show 'e'.isDigit = false from rfl)
  have hpos := d.length_digitChars_pos
  have hmantissa : pointValue (d.digitChars.take 1 ++
      if (d.digitChars.drop 1).isEmpty then [] else '.' :: d.digitChars.drop 1) =
        d.digits / 10 ^ (d.digitChars.length - 1) := by
    split
    · rename_i hrest
      have hone : d.digitChars.take 1 = d.digitChars := by
        have hsplit := List.take_append_drop 1 d.digitChars
        rwa [List.isEmpty_iff.mp hrest, List.append_nil] at hsplit
      have hlength : d.digitChars.length - 1 = 0 := by
        have hdrop := congrArg List.length (List.isEmpty_iff.mp hrest)
        rwa [List.length_drop] at hdrop
      rw [List.append_nil, hone, pointValue_digits hpoint, ofDigitChars_digitChars, hlength]
      simp
    · rw [pointValue_point (fun h => hpoint (List.mem_of_mem_take h)), List.take_append_drop, ofDigitChars_digitChars,
        List.length_drop]
      simp
  have hnone : 'e' ∉ d.digitChars.take 1 ++
      if (d.digitChars.drop 1).isEmpty then [] else '.' :: d.digitChars.drop 1 := by
    rw [List.mem_append, not_or]
    refine ⟨fun h => hexponent (List.mem_of_mem_take h), ?_⟩
    split
    · exact List.not_mem_nil
    · rw [List.mem_cons]
      rintro (h | h)
      · cases h
      · exact hexponent (List.mem_of_mem_drop h)
  have hpower : (10 : ℚ) ^ d.leadingExponent = 10 ^ d.exponent * 10 ^ (d.digitChars.length - 1) := by
    rw [← zpow_natCast, ← zpow_add₀ (by norm_num), leadingExponent]
    congr 1
    omega
  rw [scientific, numeralValue_exponent hnone, hmantissa, signedValue_toString, hpower, value]
  field_simp

/-- The text of a decimal stands for the value of the decimal. -/
theorem numeralValue_text : numeralValue d.text.toList = d.value := by
  rw [text, String.toList_ofList]
  split
  · exact d.numeralValue_positional
  · exact d.numeralValue_scientific

end Decimal

/-! ## Texts are numerals -/

theorem isNumeralRun_point (cs : List Char) : isNumeralRun false ('.' :: cs) = isNumeralRun false cs := rfl

theorem isNumeralRun_of_false {cs : List Char} (h : isNumeralRun false cs = true) (inExponent : Bool) :
    isNumeralRun inExponent cs = true := by
  cases inExponent with
  | false => exact h
  | true =>
      cases cs with
      | nil => rfl
      | cons c cs => grind [isNumeralRun]

/-- Digits can stand in front of what goes on in a numeral. -/
theorem isNumeralRun_digits {digits rest : List Char} (hdigits : ∀ c ∈ digits, c.isDigit = true)
    (hrest : isNumeralRun false rest = true) (inExponent : Bool) :
    isNumeralRun inExponent (digits ++ rest) = true := by
  induction digits generalizing inExponent with
  | nil => exact isNumeralRun_of_false hrest inExponent
  | cons c digits ih =>
      rw [List.cons_append, isNumeralRun, hdigits c List.mem_cons_self, Bool.true_or, Bool.true_or, Bool.true_or,
        Bool.true_and]
      exact ih (fun c hc => hdigits c (List.mem_cons_of_mem _ hc)) _

/-- A numeral starts with digits. -/
theorem isNumeral_digits {digits rest : List Char} (hdigits : ∀ c ∈ digits, c.isDigit = true) (hne : digits ≠ [])
    (hrest : isNumeralRun false rest = true) : IsNumeral (digits ++ rest) := by
  refine ⟨?_, isNumeralRun_digits hdigits hrest false⟩
  cases digits with
  | nil => exact absurd rfl hne
  | cons c digits => exact ⟨c, rfl, hdigits c List.mem_cons_self⟩

theorem isNumeralRun_of_digits {digits : List Char} (hdigits : ∀ c ∈ digits, c.isDigit = true) :
    isNumeralRun false digits = true := by
  rw [← List.append_nil digits]
  exact isNumeralRun_digits hdigits rfl false

theorem isNumeralRun_toDigits (n : Nat) : isNumeralRun false (Nat.toDigits 10 n) = true :=
  isNumeralRun_of_digits fun _ hc => isDigit_of_mem_toDigits hc

theorem isNumeralRun_toString (k : Int) : isNumeralRun true (toString k).toList = true := by
  rw [toList_toString_int]
  split
  · exact isNumeralRun_of_false (isNumeralRun_toDigits _) true
  · exact isNumeralRun_toDigits _

namespace Decimal

variable (d : Decimal)

theorem isNumeral_positional : IsNumeral d.positional := by
  have hpos := d.length_digitChars_pos
  have hdigits (c : Char) (hc : c ∈ d.digitChars) := d.isDigit_of_mem_digitChars hc
  have hzeros (n : Nat) (c : Char) (hc : c ∈ List.replicate n '0') : c.isDigit = true := by
    rw [(List.mem_replicate.mp hc).2]
    rfl
  rw [positional]
  split
  · refine isNumeral_digits ?_ ?_ rfl
    · intro c hc
      exact (List.mem_append.mp hc).elim (hdigits c) (hzeros _ c)
    · exact List.append_ne_nil_of_left_ne_nil (List.length_pos_iff.mp hpos) _
  · dsimp only
    split
    · refine isNumeral_digits (fun c hc => hdigits c (List.mem_of_mem_take hc)) ?_ ?_
      · rw [← List.length_pos_iff, List.length_take]
        omega
      · rw [isNumeralRun_point]
        exact isNumeralRun_of_digits fun c hc => hdigits c (List.mem_of_mem_drop hc)
    · refine isNumeral_digits (fun c hc => by rw [List.mem_singleton.mp hc]; rfl) (List.cons_ne_nil '0' []) ?_
      rw [isNumeralRun_point]
      exact isNumeralRun_of_digits fun c hc => (List.mem_append.mp hc).elim (hzeros _ c) (hdigits c)

theorem isNumeral_scientific : IsNumeral d.scientific := by
  have hpos := d.length_digitChars_pos
  have hdigits (c : Char) (hc : c ∈ d.digitChars) := d.isDigit_of_mem_digitChars hc
  have hexponent : isNumeralRun false ('e' :: (toString d.leadingExponent).toList) = true :=
    isNumeralRun_toString _
  rw [scientific, List.append_assoc]
  refine isNumeral_digits (fun c hc => hdigits c (List.mem_of_mem_take hc)) ?_ ?_
  · rw [← List.length_pos_iff, List.length_take]
    omega
  · split
    · exact hexponent
    · rw [List.cons_append, isNumeralRun_point]
      exact isNumeralRun_digits (fun c hc => hdigits c (List.mem_of_mem_drop hc)) hexponent false

/-- The text of a decimal is a numeral. -/
theorem isNumeral_text : IsNumeral d.text.toList := by
  rw [text, String.toList_ofList]
  split
  · exact d.isNumeral_positional
  · exact d.isNumeral_scientific

/-- The text of a decimal has a point or an exponent, so it is not the text of an integer. -/
theorem point_or_exponent_mem_text : '.' ∈ d.text.toList ∨ 'e' ∈ d.text.toList := by
  rw [text, String.toList_ofList]
  split
  · rw [positional]
    split
    · simp
    · dsimp only
      split <;> simp
  · rw [scientific]
    simp

end Decimal

end ShaderLift
