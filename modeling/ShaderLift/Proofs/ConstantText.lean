import ShaderLift.Instruction.Basic
import ShaderLift.Proofs.NumberText

/-!
# Reading constants

The text of an integer is an integer expression: numerals with signs, differences and parentheses.  `Denotes` is the
grammar of these expressions and gives their values.  `evaluate` reads one from left to right, which shows that tokens
have one value at most.

* `IntegerToken.Denotes.unique`: an integer expression has one value.
* `Number.ofText_intText`: the tokens of the text of an integer.
* `Number.denotes_intText_iff`: the value of the text of an integer is the integer.
* `Literal.text_determines_literal`: what the texts of literals tell about the literals.
-/

namespace ShaderLift

/-- What integer expressions are made of. -/
inductive IntegerToken where
  | numeral (value : Nat)
  | minus
  | opening
  | closing
  /-- A character that is no part of an integer expression. -/
  | unknown (c : Char)
deriving DecidableEq, Repr

namespace IntegerToken

/-- The tokens of a character that is not a digit; a blank has none. -/
def ofChar : Char → List IntegerToken
  | ' ' => []
  | '-' => [minus]
  | '(' => [opening]
  | ')' => [closing]
  | c => [unknown c]

/-- The tokens of characters that follow on digits with the given value, or on no digits.  A numeral goes on as long as
digits follow. -/
def scan : Option Nat → List Char → List IntegerToken
  | digits, [] => digits.toList.map numeral
  | digits, c :: cs =>
      if c.isDigit then
        scan (some (10 * digits.getD 0 + (c.toNat - '0'.toNat))) cs
      else
        digits.toList.map numeral ++ ofChar c ++ scan none cs

/-- The tokens of a text. -/
def ofText (text : String) : List IntegerToken :=
  scan none text.toList

theorem scan_digits {digits : List Char} (h : ∀ c ∈ digits, c.isDigit = true) (n : Nat) (rest : List Char) :
    scan (some n) (digits ++ rest) = scan (some (Nat.ofDigitChars 10 digits n)) rest := by
  induction digits generalizing n with
  | nil => rfl
  | cons c digits ih =>
      rw [List.cons_append, scan, if_pos (h c List.mem_cons_self), Option.getD_some,
        ih fun c hc => h c (List.mem_cons_of_mem _ hc), Nat.ofDigitChars_cons]

/-- The digits of a number are read as the number. -/
theorem scan_toDigits (n : Nat) (rest : List Char) :
    scan none (Nat.toDigits 10 n ++ rest) = scan (some n) rest := by
  have hvalue := Nat.ofDigitChars_ten_toDigits (n := n)
  have hdigits (c : Char) (hc : c ∈ Nat.toDigits 10 n) : c.isDigit = true := isDigit_of_mem_toDigits hc
  cases hlist : Nat.toDigits 10 n with
  | nil => exact absurd hlist Nat.toDigits_ne_nil
  | cons c digits =>
      rw [hlist] at hvalue hdigits
      rw [Nat.ofDigitChars_cons] at hvalue
      rw [List.cons_append, scan, if_pos (hdigits c List.mem_cons_self), Option.getD_none,
        scan_digits fun c hc => hdigits c (List.mem_cons_of_mem _ hc), hvalue]

/-! ## Integer expressions -/

/-- The tokens are an integer expression with the given value.  Differences group to the left, so what stands behind a
minus is an operand: a numeral, another operand with a sign, or an expression in parentheses. -/
inductive Denotes : (operand : Bool) → List IntegerToken → Int → Prop
  | numeral (operand : Bool) (n : Nat) : Denotes operand [.numeral n] n
  | negative (operand : Bool) {tokens : List IntegerToken} {v : Int} (h : Denotes true tokens v) :
      Denotes operand (.minus :: tokens) (-v)
  | parens (operand : Bool) {tokens : List IntegerToken} {v : Int} (h : Denotes false tokens v) :
      Denotes operand (.opening :: (tokens ++ [.closing])) v
  | difference {ls rs : List IntegerToken} {a b : Int} (hleft : Denotes false ls a) (hright : Denotes true rs b) :
      Denotes false (ls ++ .minus :: rs) (a - b)

/-- What waits for an operand: the value that it is subtracted from, if there is one, and whether its sign changes. -/
structure Awaiting where
  left : Option Int := none
  negated : Bool := false

/-- The value once the operand is there. -/
def Awaiting.apply (p : Awaiting) (operand : Int) : Int :=
  let value := if p.negated then -operand else operand
  match p.left with
  | none => value
  | some left => left - value

/-- Where a reader stands: before an operand, or behind one with the value so far. -/
inductive Reader where
  | before (p : Awaiting)
  | behind (value : Int)

/-- Reads an integer expression from left to right; `outer` is what waits for the parentheses that are open. -/
def evaluate : List Awaiting → Reader → List IntegerToken → Option Int
  | outer, .before p, .numeral n :: rest => evaluate outer (.behind (p.apply n)) rest
  | outer, .before p, .minus :: rest => evaluate outer (.before { p with negated := !p.negated }) rest
  | outer, .before p, .opening :: rest => evaluate (p :: outer) (.before {}) rest
  | outer, .behind value, .minus :: rest => evaluate outer (.before { left := some value }) rest
  | p :: outer, .behind value, .closing :: rest => evaluate outer (.behind (p.apply value)) rest
  | [], .behind value, [] => some value
  | _, _, _ => none

namespace Denotes

variable {operand : Bool} {tokens : List IntegerToken} {v v' : Int}

/-- An expression is read as its value, whatever follows.  Only an operand may be waited for by a sign or a
difference. -/
theorem evaluate_append (h : Denotes operand tokens v) (outer : List Awaiting) (p : Awaiting)
    (hp : operand = false → p = {}) (rest : List IntegerToken) :
    evaluate outer (.before p) (tokens ++ rest) = evaluate outer (.behind (p.apply v)) rest := by
  -- A difference is only read where nothing waits, since it would group with what waits for it.
  induction h generalizing outer p rest with
  | numeral operand n => rfl
  | @negative operand tokens v h ih =>
      have hsign : Awaiting.apply { p with negated := !p.negated } v = p.apply (-v) := by
        cases hnegated : p.negated <;> simp [Awaiting.apply, hnegated]
      rw [List.cons_append, evaluate, ih _ _ (fun h => by cases h), hsign]
  | @parens operand tokens v h ih =>
      rw [List.cons_append, List.append_assoc, evaluate, ih _ _ fun _ => rfl]
      rfl
  | @difference ls rs a b hleft hright ihLeft ihRight =>
      rw [hp rfl, List.append_assoc, ihLeft _ _ fun _ => rfl, List.cons_append, evaluate,
        ihRight _ _ (fun h => by cases h)]
      rfl

/-- An integer expression has one value. -/
theorem unique (h : Denotes false tokens v) (h' : Denotes false tokens v') : v = v' := by
  have hv := h.evaluate_append [] {} (fun _ => rfl) []
  have hv' := h'.evaluate_append [] {} (fun _ => rfl) []
  exact Option.some.inj (hv.symm.trans hv')

end Denotes

end IntegerToken

open IntegerToken (Denotes ofText scan scan_toDigits)

/-! ## Texts of integers -/

namespace Number

/-- The tokens of the text of an integer. -/
theorem ofText_intText (x : Int) :
    ofText (intText x) =
      if 0 ≤ x then [.numeral x.toNat]
      else if x = leastInt then [.opening, .minus, .numeral 2147483647, .minus, .numeral 1, .closing]
      else [.opening, .minus, .numeral (-x).toNat, .closing] := by
  rw [intText]
  split
  · rename_i hnonneg
    rw [ofText, toList_toString_int, if_pos hnonneg, ← List.append_nil (Nat.toDigits 10 x.toNat), scan_toDigits]
    rfl
  · rename_i hneg
    split
    · decide
    · have htext : ("(" ++ toString x ++ ")").toList = '(' :: '-' :: (Nat.toDigits 10 (-x).toNat ++ [')']) := by
        rw [String.toList_append, String.toList_append, toList_toString_int, if_neg hneg]
        rfl
      have hscan : ofText ("(" ++ toString x ++ ")") =
          .opening :: .minus :: scan none (Nat.toDigits 10 (-x).toNat ++ [')']) := by
        rw [ofText, htext]
        rfl
      rw [hscan, scan_toDigits]
      rfl

theorem denotes_intText (x : Int) : Denotes false (ofText (intText x)) x := by
  rw [ofText_intText]
  split
  · rename_i hnonneg
    have hx := Denotes.numeral false x.toNat
    rwa [Int.toNat_of_nonneg hnonneg] at hx
  · rename_i hneg
    split
    · rename_i hleast
      rw [hleast]
      exact .parens false (.difference (.negative false (.numeral true 2147483647)) (.numeral true 1))
    · have hx := Denotes.parens false (.negative false (.numeral true (-x).toNat))
      rwa [Int.toNat_of_nonneg (by omega), Int.neg_neg] at hx

/-- The value of the text of an integer is the integer. -/
theorem denotes_intText_iff (x value : Int) : Denotes false (ofText (intText x)) value ↔ value = x := by
  constructor
  · intro h
    exact h.unique (denotes_intText x)
  · rintro rfl
    exact denotes_intText value

/-- An integer of 32 bits is written with numerals of 31 bits. -/
theorem le_of_numeral_mem {x : Int} (hleast : -2 ^ 31 ≤ x) (hgreatest : x ≤ 2 ^ 31 - 1) {n : Nat}
    (h : .numeral n ∈ ofText (intText x)) : n ≤ 2 ^ 31 - 1 := by
  rw [ofText_intText] at h
  split at h
  · rw [List.mem_singleton, IntegerToken.numeral.injEq] at h
    omega
  · split at h
    · simp only [List.mem_cons, reduceCtorEq, IntegerToken.numeral.injEq, List.not_mem_nil, or_false, false_or] at h
      omega
    · rename_i hneg hother
      -- The least integer has a spelling of its own because its magnitude would exceed the bound.
      have hmagnitude : n = (-x).toNat := by simpa using h
      rw [leastInt] at hother
      omega

end Number

/-! ## Literals -/

/-- Whether a literal is a double that is not a number. -/
def Literal.isNaN : Literal → Bool
  | number value => value.isNaN
  | _ => false

theorem Literal.exists_number_of_text? {literal : Literal} {text : String} (h : literal.text? = some text) :
    ∃ value : Number, literal = number value ∧ value.text = text := by
  cases literal with
  | number value => exact ⟨value, rfl, Option.some.inj h⟩
  | _ => cases h

/-- Literals with the same text are the same or both not a number.  Read as an integer expression, the text of an
integer has the integer as its only value; and no numeral in the text of an integer of 32 bits exceeds the greatest
one. -/
theorem Literal.text_determines_literal :
    (∀ (a b : Literal) (text : String), a.text? = some text → b.text? = some text →
        a = b ∨ a.isNaN = true ∧ b.isNaN = true) ∧
      ∀ x : Int, ∃ text, (number (.int x)).text? = some text ∧
        (∀ value, Denotes false (ofText text) value ↔ value = x) ∧
        (-2 ^ 31 ≤ x → x ≤ 2 ^ 31 - 1 → ∀ n, .numeral n ∈ ofText text → n ≤ 2 ^ 31 - 1) := by
  constructor
  · intro a b text ha hb
    obtain ⟨a, rfl, hatext⟩ := exists_number_of_text? ha
    obtain ⟨b, rfl, hbtext⟩ := exists_number_of_text? hb
    exact (Number.eq_of_text (hatext.trans hbtext.symm)).imp_left (congrArg number)
  · intro x
    refine ⟨Number.intText x, rfl, Number.denotes_intText_iff x, ?_⟩
    intro hleast hgreatest n hn
    exact Number.le_of_numeral_mem hleast hgreatest hn

/-- Two doubles that are not a number, and the least integer. -/
theorem Literal.text_determines_literal_least :
    (number (.float ⟨0x7ff8000000000000⟩)).text? = some "(0.0/0.0)" ∧
      (number (.float ⟨0xfff0000000000001⟩)).text? = some "(0.0/0.0)" ∧
      ((number (.float ⟨0x7ff8000000000000⟩)).isNaN = true ∧ (number (.float ⟨0xfff0000000000001⟩)).isNaN = true) ∧
      ∃ text, (number (.int (-2147483648))).text? = some text ∧
        Denotes false (ofText text) (-2147483648) ∧
        ∀ n, .numeral n ∈ ofText text → n ≤ 2 ^ 31 - 1 := by
  obtain ⟨hsame, hint⟩ := text_determines_literal
  have hquiet : (number (.float ⟨0x7ff8000000000000⟩)).text? = some "(0.0/0.0)" := by decide
  have hsignaling : (number (.float ⟨0xfff0000000000001⟩)).text? = some "(0.0/0.0)" := by decide
  refine ⟨hquiet, hsignaling, ?_, ?_⟩
  · exact (hsame _ _ _ hquiet hsignaling).resolve_left (by decide)
  · obtain ⟨text, htext, hvalue, hnumerals⟩ := hint (-2147483648)
    exact ⟨text, htext, (hvalue _).mpr rfl, hnumerals (by decide) (by decide)⟩

end ShaderLift
