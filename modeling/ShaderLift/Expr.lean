import ShaderLift.Number
import ShaderLift.Operator

/-!
# Expressions

The expressions that lifting builds on the operand stack, and their text.  An operand is put in parentheses
exactly where the grouping would otherwise be read differently: on the left if it binds less tightly than the
operator, on the right also if it binds equally, since all operators group to the left.
-/

namespace ShaderLift

/-- An expression of the shading language. -/
inductive Expr where
  | number (value : Number)
  | var (name : String)
  | binary (op : Operator) (left right : Expr)
  | call (callee : String) (args : List Expr)
deriving Repr

namespace Expr

/-- How tightly an expression that is not an operator application binds. -/
def atomPrecedence : Nat := 255

/-- How tightly the outermost operator binds. -/
def precedence : Expr → Nat
  | binary op _ _ => op.precedence
  | _ => atomPrecedence

/-- A text in parentheses if the condition holds. -/
def parenthesized (condition : Bool) (text : String) : String :=
  if condition then "(" ++ text ++ ")" else text

mutual

/-- The text of an expression. -/
def text : Expr → String
  | number value => value.text
  | var name => name
  | binary op left right =>
      parenthesized (decide (left.precedence < op.precedence)) left.text ++ " " ++ op.symbol ++ " "
        ++ parenthesized (decide (right.precedence ≤ op.precedence)) right.text
  | call callee args => callee ++ "(" ++ argsText args ++ ")"

/-- The texts of the arguments of a call, divided by commas. -/
def argsText : List Expr → String
  | [] => ""
  | [arg] => arg.text
  | arg :: rest => arg.text ++ ", " ++ argsText rest

end

end Expr

end ShaderLift
