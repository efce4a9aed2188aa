import ShaderLift.Proofs.ExprGrammar
import ShaderLift.Proofs.StructuredProgram

/-!
# The text of structured programs

A structured program has a text of its own, which is given here without lines and without the expressions of lifted
functions.  An expression is written for a level: operators of earlier groups of the grammar are put in parentheses.
A body is written with one more tab in front of each of its lines.

* `Source.text`, `Command.text`, `Nesting.text`: the texts of expressions, commands and programs.
* `Source.textAt_of_expr?`: the expression that an expression of a program stands for has the same text.
* `Nesting.text_of_print?`: the lines of the nested statements of a program have the text of the program.
-/

namespace ShaderLift

/-! ## Numbers and operators -/

/-- How a number is written in a program.  A sign goes with parentheses, and the least 32-bit integer is written as a
difference. -/
def Number.spelling : Number → String
  | int value =>
      if value = -2147483648 then "(-2147483647 - 1)"
      else if value < 0 then "(-" ++ toString value.natAbs ++ ")"
      else toString value.natAbs
  | float value =>
      if value.isNaN then "(0.0/0.0)"
      else
        let magnitude := if value.isInfinite then "4e+100" else value.shortest.text
        if value.isNegative then "(-" ++ magnitude ++ ")" else magnitude

theorem Number.spelling_int (value : Int) : spelling (.int value) = intText value := by
  rw [spelling, intText, leastInt, Int.toString_eq_repr, Int.repr_eq_if]
  by_cases hnonneg : 0 ≤ value
  · have hleast : value ≠ -2147483648 := by omega
    have hneg : ¬ value < 0 := by omega
    have habs : value.natAbs = value.toNat := by omega
    rw [if_neg hleast, if_neg hneg, if_pos hnonneg, if_pos hnonneg, habs]
    rfl
  · have hneg : value < 0 := by omega
    have habs : value.natAbs = (-value).toNat := by omega
    rw [if_neg hnonneg, if_neg hnonneg, if_pos hneg, habs, ← String.append_assoc]
    rfl

theorem Number.spelling_float (value : Binary64) : spelling (.float value) = floatText value := by
  rw [spelling]
  cases hnan : value.isNaN with
  | true => rw [floatText_of_isNaN hnan, if_pos rfl]
  | false =>
      cases hinf : value.isInfinite with
      | true =>
          rw [floatText_of_isInfinite hnan hinf]
          cases value.isNegative <;> rfl
      | false =>
          rw [floatText_of_finite hnan hinf, ← String.append_assoc]
          cases value.isNegative <;> rfl

theorem Number.spelling_eq_text (n : Number) : n.spelling = n.text := by
  cases n with
  | int value => exact spelling_int value
  | float value => exact spelling_float value

/-- The operators with their signs, from those that bind most loosely to those that bind most tightly. -/
def operatorSigns : List (Operator × String) :=
  [(.eq, "=="), (.ne, "!="), (.lt, "<"), (.le, "<="), (.gt, ">"), (.ge, ">="), (.add, "+"), (.sub, "-"), (.mul, "*"),
    (.div, "/")]

/-- The sign of an operator. -/
def Operator.sign (op : Operator) : String :=
  (operatorSigns.lookup op).getD ""

theorem Operator.sign_eq_symbol (op : Operator) : op.sign = op.symbol := by
  cases op <;> rfl

/-! ## Expressions -/

namespace Source

mutual

/-- The text of an expression in a place where operators of the group `level` or a later one need no parentheses.
A constant that is no number has no text. -/
def textAt (level : Nat) : Source → String
  | literal (.number value) => value.spelling
  | literal _ => ""
  | var name => name
  | binary op left right =>
      let text := left.textAt op.level ++ " " ++ op.sign ++ " " ++ right.textAt (op.level + 1)
      if op.level < level then "(" ++ text ++ ")" else text
  | call callee args => callee ++ "(" ++ ", ".intercalate (argTexts args) ++ ")"

/-- The texts of arguments. -/
def argTexts : List Source → List String
  | [] => []
  | arg :: rest => arg.textAt 0 :: argTexts rest

end

/-- The text of an expression. -/
def text (e : Source) : String :=
  e.textAt 0

end Source

theorem Expr.argsText_eq_intercalate : (args : List Expr) → argsText args = ", ".intercalate (args.map text)
  | [] => rfl
  | [arg] => by rw [argsText, List.map_singleton, String.intercalate_singleton]
  | arg :: next :: rest => by
      rw [argsText, argsText_eq_intercalate (next :: rest), List.map_cons, List.map_cons, List.map_cons,
        String.intercalate_cons_cons]
      intro h
      cases h

/-- What binds tightly enough is not put in parentheses. -/
theorem Expr.parenthesized_of_le {level precedence : Nat} (h : level ≤ precedence) (text : String) :
    parenthesized (decide (precedence < level)) text = text := by
  rw [decide_eq_false (Nat.not_lt.mpr h)]
  rfl

namespace Source

mutual

/-- The expression that an expression of a program stands for has the same text, in parentheses where the level asks for
them. -/
theorem textAt_of_expr? {level : Nat} (hlevel : level ≤ Expr.atomPrecedence) :
    (e : Source) → {expr : Expr} → e.expr? = some expr →
      e.textAt level = Expr.parenthesized (decide (expr.precedence < level)) expr.text
  | literal (.number value), expr, h => by
      cases h
      exact value.spelling_eq_text.trans (Expr.parenthesized_of_le hlevel _).symm
  | var name, expr, h => by
      cases h
      exact (Expr.parenthesized_of_le hlevel _).symm
  | binary op left right, expr, h => by
      simp only [expr?, Option.bind_eq_bind, Option.bind_eq_some_iff] at h
      obtain ⟨leftExpr, hleft, rightExpr, hright, hexpr⟩ := h
      cases hexpr
      have hatom := Expr.precedence_lt_atom op
      -- Operators group to the left, so the right operand is written for the next level.
      have hlast : decide (rightExpr.precedence < op.precedence + 1) = decide (rightExpr.precedence ≤ op.precedence) :=
        decide_eq_decide.mpr Nat.lt_succ_iff
      rw [textAt, op.level_eq_precedence, op.sign_eq_symbol, textAt_of_expr? (Nat.le_of_lt hatom) left hleft,
        textAt_of_expr? hatom right hright, hlast, Expr.precedence, Expr.text]
      by_cases hloose : op.precedence < level
      · rw [if_pos hloose, decide_eq_true hloose]
        rfl
      · rw [if_neg hloose, decide_eq_false hloose]
        rfl
  | call callee args, expr, h => by
      simp only [expr?, Option.bind_eq_bind, Option.bind_eq_some_iff] at h
      obtain ⟨exprs, hargs, hexpr⟩ := h
      cases hexpr
      rw [textAt, argTexts_of_argExprs? args hargs, ← Expr.argsText_eq_intercalate]
      exact (Expr.parenthesized_of_le hlevel _).symm

theorem argTexts_of_argExprs? :
    (args : List Source) → {exprs : List Expr} → argExprs? args = some exprs → argTexts args = exprs.map Expr.text
  | [], exprs, h => by
      cases h
      rfl
  | arg :: rest, exprs, h => by
      simp only [argExprs?, Option.bind_eq_bind, Option.bind_eq_some_iff] at h
      obtain ⟨expr, harg, others, hrest, hexprs⟩ := h
      cases hexprs
      rw [argTexts, textAt_of_expr? (Nat.zero_le _) arg harg, Expr.parenthesized_of_le (Nat.zero_le _),
        argTexts_of_argExprs? rest hrest, List.map_cons]

end

/-- Outside of other expressions no parentheses are needed. -/
theorem text_of_expr? {e : Source} {expr : Expr} (h : e.expr? = some expr) : expr.text = e.text := by
  rw [text, textAt_of_expr? (Nat.zero_le _) e h, Expr.parenthesized_of_le (Nat.zero_le _)]

end Source

/-! ## Programs -/

/-- The text of a command after assignments to the variables `earlier`.  In front of the first assignment to a variable
that is not there from the start stands the name of its type. -/
def Command.text (typeName : TypeId → String) (types seeded : Scope) (earlier : List String) : Command → String
  | assign name value =>
      let declared := if (seeded name).isSome ∨ name ∈ earlier then none else types name
      (declared.map fun type => typeName type ++ " ").getD "" ++ name ++ " = " ++ value.text ++ ";"
  | eval value => value.text ++ ";"
  | ret (some value) => "return " ++ value.text ++ ";"
  | ret none => "return;"

/-- Lines of text with one more tab in front. -/
def indented (lines : List String) : List String :=
  lines.map fun line => "\t" ++ line

/-- The lines of text of a program after assignments to the variables `earlier`. -/
def Nesting.text (typeName : TypeId → String) (types seeded : Scope) : List String → StructuredProgram → List String
  | _, nil => []
  | earlier, leaf command rest =>
      command.text typeName types seeded earlier :: rest.text typeName types seeded (earlier ++ command.stores)
  | earlier, ifThen e body rest =>
      ["if (" ++ e.text ++ ") \x7b"] ++ indented (body.text typeName types seeded earlier) ++ ["\x7d"]
        ++ rest.text typeName types seeded (earlier ++ body.stores)
  | earlier, ifElse e body other rest =>
      ["if (" ++ e.text ++ ") \x7b"] ++ indented (body.text typeName types seeded earlier) ++ ["\x7d else \x7b"]
        ++ indented (other.text typeName types seeded (earlier ++ body.stores)) ++ ["\x7d"]
        ++ rest.text typeName types seeded (earlier ++ body.stores ++ other.stores)

/-- The statement of a command has the text of the command. -/
theorem Command.text_of_print? {types seeded : Scope} {earlier : List String} {command : Command}
    {statement : Statement} (table : TypeTable) (h : command.print? types seeded earlier = some statement) :
    statement.text table = command.text table.name types seeded earlier := by
  cases command with
  | assign name value =>
      simp only [print?, Option.bind_eq_bind, Option.bind_eq_some_iff] at h
      obtain ⟨expr, hexpr, h⟩ := h
      have htext := Source.text_of_expr? hexpr
      split at h
      · rename_i hknown
        cases h
        rw [Statement.text, text, htext, if_pos hknown, Option.map_none, Option.getD_none, String.empty_append]
      · rename_i hunknown
        obtain ⟨type, htype, h⟩ := Option.bind_eq_some_iff.mp h
        cases h
        rw [Statement.text, text, htext, if_neg hunknown, htype, Option.map_some, Option.getD_some]
  | eval value =>
      simp only [print?, Option.bind_eq_bind, Option.bind_eq_some_iff] at h
      obtain ⟨expr, hexpr, h⟩ := h
      cases h
      rw [Statement.text, text, Source.text_of_expr? hexpr]
  | ret value =>
      cases value with
      | none =>
          cases h
          rfl
      | some value =>
          simp only [print?, Option.bind_eq_bind, Option.bind_eq_some_iff] at h
          obtain ⟨expr, hexpr, h⟩ := h
          cases h
          rw [Statement.text, text, Source.text_of_expr? hexpr]

theorem indentation_succ (depth : Nat) : indentation (depth + 1) = indentation depth ++ "\t" := by
  rw [indentation, List.replicate_succ', String.ofList_append]
  rfl

/-- One level of depth is one tab. -/
theorem map_indented (depth : Nat) (lines : List String) :
    (indented lines).map (indentation depth ++ ·) = lines.map (indentation (depth + 1) ++ ·) := by
  rw [indented, List.map_map]
  apply List.map_congr_left
  intro line _
  rw [Function.comp_apply, ← String.append_assoc, ← indentation_succ]

/-- The lines of the nested statements of a program have the text of the program, at any depth. -/
theorem Nesting.text_of_print? {types seeded : Scope} {earlier : List String} {p : StructuredProgram}
    {nested : Nesting Statement Expr} (table : TypeTable) (h : p.print? types seeded earlier = some nested)
    (depth : Nat) :
    (nested.lines depth).map (Line.text table) =
      (p.text table.name types seeded earlier).map (indentation depth ++ ·) := by
  -- The lines of a body are one level deeper, and its text has one more tab in front of each line.
  induction p generalizing earlier nested depth with
  | nil =>
      cases h
      rfl
  | leaf command rest ih =>
      simp only [print?, Option.bind_eq_bind, Option.bind_eq_some_iff] at h
      obtain ⟨statement, hstatement, after, hafter, h⟩ := h
      cases h
      rw [lines, text, List.map_cons, List.map_cons, ih hafter, Line.text, Command.text_of_print? table hstatement]
  | ifThen e body rest ihBody ihRest =>
      simp only [print?, Option.bind_eq_bind, Option.bind_eq_some_iff] at h
      obtain ⟨condition, hcondition, inner, hinner, after, hafter, h⟩ := h
      cases h
      simp only [lines, text, List.map_cons, List.map_append, List.cons_append, List.nil_append,
        List.append_assoc, map_indented, ihBody hinner, ihRest hafter, Line.text, Statement.text,
        Source.text_of_expr? hcondition]
  | ifElse e body other rest ihBody ihOther ihRest =>
      simp only [print?, Option.bind_eq_bind, Option.bind_eq_some_iff] at h
      obtain ⟨condition, hcondition, inner, hinner, alternative, halternative, after, hafter, h⟩ := h
      cases h
      simp only [lines, text, List.map_cons, List.map_append, List.cons_append, List.nil_append,
        List.append_assoc, map_indented, ihBody hinner, ihOther halternative, ihRest hafter, Line.text, Statement.text,
        Source.text_of_expr? hcondition]

theorem Nesting.indented_of_print? {types seeded : Scope} {earlier : List String} {p : StructuredProgram}
    {nested : Nesting Statement Expr} (table : TypeTable) (h : p.print? types seeded earlier = some nested) :
    (nested.lines 1).map (Line.text table) = indented (p.text table.name types seeded earlier) := by
  have htab : indentation 1 = "\t" := by decide
  rw [text_of_print? table h, htab, indented]

end ShaderLift
