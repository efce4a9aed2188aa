import ShaderLift.Number
import ShaderLift.Proofs.DecimalText

/-!
# Texts of numbers

The text of a number is a numeral or stands in parentheses.  It determines the number, except that all patterns which
are not a number have the same text.

* `Number.text_cases`: the forms of the texts.
* `Number.eq_of_text`, `Number.text_eq_iff`: when two numbers have the same text.
-/

namespace ShaderLift

/-! ## Doubles -/

theorem mem_toString_int {k : Int} {c : Char} (h : c ∈ (toString k).toList) : c.isDigit = true ∨ c = '-' := by
  rw [toList_toString_int] at h
  split at h
  · exact .inl (isDigit_of_mem_toDigits h)
  · rw [List.mem_cons] at h
    exact h.symm.imp_left isDigit_of_mem_toDigits

theorem not_mem_toString_int (k : Int) {c : Char} (hdigit : c.isDigit = false) (hminus : c ≠ '-') :
    c ∉ (toString k).toList := by
  intro h
  rcases mem_toString_int h with hc | hc
  · exact Bool.false_ne_true (hdigit.symm.trans hc)
  · exact hminus hc

/-- The characters of a decimal. -/
theorem Decimal.mem_text {d : Decimal} {c : Char} (h : c ∈ d.text.toList) :
    c.isDigit = true ∨ c = '.' ∨ c = 'e' ∨ c = '-' := by
  have hdigits (hc : c ∈ d.digitChars) := d.isDigit_of_mem_digitChars hc
  have htake (n : Nat) (hc : c ∈ d.digitChars.take n) := hdigits (List.mem_of_mem_take hc)
  have hdrop (n : Nat) (hc : c ∈ d.digitChars.drop n) := hdigits (List.mem_of_mem_drop hc)
  have hzeros (n : Nat) (hc : c ∈ List.replicate n '0') : c.isDigit = true := by
    rw [(List.mem_replicate.mp hc).2]
    rfl
  have hzero (hc : c = '0') : c.isDigit = true := by
    rw [hc]
    rfl
  rw [text, String.toList_ofList] at h
  split at h
  · rw [positional] at h
    split at h
    · grind
    · dsimp only at h
      split at h
      · grind
      · grind
  · rw [scientific] at h
    have hexponent (hc : c ∈ (toString d.leadingExponent).toList) := mem_toString_int hc
    grind

namespace Number

/-- The text of a double that is not a number. -/
theorem floatText_of_isNaN {x : Binary64} (hnan : x.isNaN = true) : floatText x = "(0.0/0.0)" := by
  rw [floatText, if_pos hnan]

/-- The text of an infinity. -/
theorem floatText_of_isInfinite {x : Binary64} (hnan : x.isNaN = false) (hinf : x.isInfinite = true) :
    floatText x = if x.isNegative then "(-4e+100)" else "4e+100" := by
  simp only [floatText, hnan, hinf, Bool.false_eq_true, if_true, if_false]

/-- The text of a finite double. -/
theorem floatText_of_finite {x : Binary64} (hnan : x.isNaN = false) (hinf : x.isInfinite = false) :
    floatText x = if x.isNegative then "(" ++ ("-" ++ x.shortest.text) ++ ")" else x.shortest.text := by
  simp only [floatText, Binary64.text, hnan, hinf, Bool.false_eq_true, if_false]
  split <;> rfl

/-- What the characters tell about the double: whether it is a number, whether it is finite and which sign it has. -/
theorem mem_floatText_iff (x : Binary64) :
    ('/' ∈ (floatText x).toList ↔ x.isNaN = true) ∧
      ('+' ∈ (floatText x).toList ↔ x.isNaN = false ∧ x.isInfinite = true) ∧
      (x.isNaN = false → ('(' ∈ (floatText x).toList ↔ x.isNegative = true)) := by
  have hnone {c : Char} (hdigit : c.isDigit = false) (hother : ¬ (c = '.' ∨ c = 'e' ∨ c = '-')) :
      c ∉ x.shortest.text.toList := by
    intro hmem
    rcases Decimal.mem_text hmem with hc | hc
    · exact Bool.false_ne_true (hdigit.symm.trans hc)
    · exact hother hc
  cases hnan : x.isNaN with
  | true =>
      rw [floatText_of_isNaN hnan]
      simp
  | false =>
      cases hinf : x.isInfinite with
      | true =>
          rw [floatText_of_isInfinite hnan hinf]
          cases x.isNegative <;> decide
      | false =>
          have hslash := hnone (c := '/') (by decide) (by decide)
          have hplus := hnone (c := '+') (by decide) (by decide)
          have hparen := hnone (c := '(') (by decide) (by decide)
          rw [floatText_of_finite hnan hinf]
          cases x.isNegative <;> simp [hslash, hplus, hparen]

theorem eq_of_isInfinite {x y : Binary64} (hneg : x.isNegative = y.isNegative) (hx : x.isInfinite = true)
    (hy : y.isInfinite = true) : x = y := by
  refine Binary64.eq_of_rank_eq hneg ?_
  simp only [Binary64.isInfinite, Binary64.biasedExponent_eq, Binary64.fraction_eq, Bool.and_eq_true, beq_iff_eq]
    at hx hy
  omega

/-- The text of a double determines it, unless it is not a number. -/
theorem eq_of_floatText {x y : Binary64} (h : floatText x = floatText y) :
    x = y ∨ x.isNaN = true ∧ y.isNaN = true := by
  obtain ⟨hxnan, hxinf, hxneg⟩ := mem_floatText_iff x
  obtain ⟨hynan, hyinf, hyneg⟩ := mem_floatText_iff y
  rw [h] at hxnan hxinf hxneg
  have hnan : x.isNaN = y.isNaN := Bool.eq_iff_iff.mpr (hxnan.symm.trans hynan)
  cases hx : x.isNaN with
  | true => exact .inr ⟨rfl, hnan.symm.trans hx⟩
  | false =>
      left
      have hy : y.isNaN = false := hnan.symm.trans hx
      have hneg : x.isNegative = y.isNegative := Bool.eq_iff_iff.mpr ((hxneg hx).symm.trans (hyneg hy))
      have hinf : x.isInfinite = y.isInfinite := by
        rw [and_iff_right hx] at hxinf
        rw [and_iff_right hy] at hyinf
        exact Bool.eq_iff_iff.mpr (hxinf.symm.trans hyinf)
      cases hxi : x.isInfinite with
      | true => exact eq_of_isInfinite hneg hxi (hinf.symm.trans hxi)
      | false =>
          rw [floatText_of_finite hx hxi, floatText_of_finite hy (hinf.symm.trans hxi), ← hneg] at h
          have htext : x.shortest.text = y.shortest.text := by
            split at h
            · exact String.toList_inj.mp (by simpa using congrArg String.toList h)
            · exact h
          refine Binary64.eq_of_value_shortest hneg ?_
          rw [← Decimal.numeralValue_text, htext, Decimal.numeralValue_text]

/-! ## Integers and doubles -/

theorem toString_int_injective {a b : Int} (h : toString a = toString b) : a = b := by
  rw [← signedValue_toString a, h, signedValue_toString]

/-- What the characters tell about the integer: whether it is negative and whether it is the least one. -/
theorem mem_intText_iff (a : Int) :
    ('(' ∈ (intText a).toList ↔ a < 0) ∧ (' ' ∈ (intText a).toList ↔ a = leastInt) := by
  have hparen := not_mem_toString_int a (show '('.isDigit = false from rfl) (by decide)
  have hblank := not_mem_toString_int a (show ' '.isDigit = false from rfl) (by decide)
  rw [intText]
  split
  · rename_i hnonneg
    simp only [hparen, hblank, false_iff, leastInt]
    omega
  · rename_i hneg
    split
    · rename_i hleast
      simp [hleast, leastInt]
    · rename_i hleast
      simp only [String.toList_append, List.mem_append, hparen, hblank, hleast]
      simp
      omega

/-- The text of an integer determines it. -/
theorem eq_of_intText {a b : Int} (h : intText a = intText b) : a = b := by
  obtain ⟨haneg, haleast⟩ := mem_intText_iff a
  obtain ⟨hbneg, hbleast⟩ := mem_intText_iff b
  rw [h] at haneg haleast
  have hneg := haneg.symm.trans hbneg
  have hleast := haleast.symm.trans hbleast
  by_cases hb : b = leastInt
  · rw [hb, hleast.mpr hb]
  · have ha : a ≠ leastInt := fun ha => hb (hleast.mp ha)
    by_cases hnonneg : 0 ≤ b
    · rw [intText, intText, if_pos (by omega), if_pos hnonneg] at h
      exact toString_int_injective h
    · rw [intText, intText, if_neg (by omega), if_neg hnonneg, if_neg ha, if_neg hb] at h
      exact toString_int_injective (String.toList_inj.mp (by simpa using congrArg String.toList h))

/-- The same number, with one pattern for all that are not a number. -/
def canonical : Number → Number
  | int value => int value
  | float value => if value.isNaN then float ⟨0x7ff8000000000000⟩ else float value

theorem text_canonical (n : Number) : n.canonical.text = n.text := by
  cases n with
  | int value => rfl
  | float value =>
      rw [canonical]
      split
      · rename_i hnan
        exact (floatText_of_isNaN (by decide)).trans (floatText_of_isNaN hnan).symm
      · rfl

/-- An integer is written without points and exponents, a double with one of them. -/
theorem intText_ne_floatText (a : Int) (x : Binary64) : intText a ≠ floatText x := by
  have hint {c : Char} (hc : c = '.' ∨ c = 'e') : c ∉ (intText a).toList := by
    have hnone : c ∉ (toString a).toList := by
      rcases hc with rfl | rfl <;> exact not_mem_toString_int a (by decide) (by decide)
    rw [intText]
    split
    · exact hnone
    · split
      · rcases hc with rfl | rfl <;> decide
      · rw [String.toList_append, String.toList_append, List.mem_append, List.mem_append]
        rcases hc with rfl | rfl <;> simpa using hnone
  have hfloat : '.' ∈ (floatText x).toList ∨ 'e' ∈ (floatText x).toList := by
    cases hnan : x.isNaN with
    | true =>
        rw [floatText_of_isNaN hnan]
        decide
    | false =>
        cases hinf : x.isInfinite with
        | true =>
            rw [floatText_of_isInfinite hnan hinf]
            cases x.isNegative <;> decide
        | false =>
            rw [floatText_of_finite hnan hinf]
            refine x.shortest.point_or_exponent_mem_text.imp ?_ ?_ <;> split <;> simp
  intro h
  rw [← h] at hfloat
  exact hfloat.elim (hint (.inl rfl)) (hint (.inr rfl))

/-- Whether a number is a double that is not a number. -/
def isNaN : Number → Bool
  | int _ => false
  | float value => value.isNaN

theorem canonical_of_isNaN {n : Number} (h : n.isNaN = true) : n.canonical = float ⟨0x7ff8000000000000⟩ := by
  cases n with
  | int value => cases h
  | float value => exact if_pos h

/-- The text of a number determines it, unless it is a double that is not a number. -/
theorem eq_of_text {a b : Number} (h : a.text = b.text) : a = b ∨ a.isNaN = true ∧ b.isNaN = true := by
  cases a with
  | int a =>
      cases b with
      | int b => exact .inl (congrArg int (eq_of_intText h))
      | float y => exact absurd h (intText_ne_floatText a y)
  | float x =>
      cases b with
      | int b => exact absurd h.symm (intText_ne_floatText b x)
      | float y => exact (eq_of_floatText h).imp_left (congrArg float)

/-- Numbers have the same text if and only if they are equal or both are not a number. -/
theorem text_eq_iff (a b : Number) : a.text = b.text ↔ a.canonical = b.canonical := by
  constructor
  · intro h
    rcases eq_of_text h with rfl | ⟨ha, hb⟩
    · rfl
    · rw [canonical_of_isNaN ha, canonical_of_isNaN hb]
  · intro h
    rw [← text_canonical a, h, text_canonical b]

/-! ## Forms -/

/-- The text of a number is a numeral, or it starts with a sign in parentheses, or it is a certain quotient. -/
theorem text_cases (n : Number) :
    IsNumeral n.text.toList ∨ (∃ body, n.text.toList = '(' :: '-' :: (body ++ [')']) ∧ ')' ∉ body) ∨
      n.text = "(0.0/0.0)" := by
  have hclosing {c : Char} (hc : c.isDigit = true) : c ≠ ')' := by
    rintro rfl
    cases hc
  cases n with
  | int a =>
      rw [text, intText]
      split
      · rename_i hnonneg
        left
        rw [toList_toString_int, if_pos hnonneg, ← List.append_nil (Nat.toDigits 10 a.toNat)]
        exact isNumeral_digits (fun _ hc => isDigit_of_mem_toDigits hc) Nat.toDigits_ne_nil rfl
      · rename_i hneg
        right
        left
        split
        · -- The least integer is written as a difference, since its absolute value is above the greatest one.
          exact ⟨"2147483647 - 1".toList, by decide, by decide⟩
        · refine ⟨Nat.toDigits 10 (-a).toNat, ?_, fun hmem => hclosing (isDigit_of_mem_toDigits hmem) rfl⟩
          rw [String.toList_append, String.toList_append, toList_toString_int, if_neg hneg]
          rfl
  | float x =>
      rw [text]
      cases hnan : x.isNaN with
      | true => exact .inr (.inr (floatText_of_isNaN hnan))
      | false =>
          cases hinf : x.isInfinite with
          | true =>
              rw [floatText_of_isInfinite hnan hinf]
              split
              · exact .inr (.inl ⟨"4e+100".toList, by decide, by decide⟩)
              · exact .inl ⟨⟨'4', by decide⟩, by decide⟩
          | false =>
              rw [floatText_of_finite hnan hinf]
              split
              · refine .inr (.inl ⟨x.shortest.text.toList, ?_, ?_⟩)
                · simp
                · intro hmem
                  rcases Decimal.mem_text hmem with hc | hc
                  · exact hclosing hc rfl
                  · exact absurd hc (by decide)
              · exact .inl x.shortest.isNumeral_text

end Number

end ShaderLift
