import ShaderLift.Expr
import ShaderLift.TypeTable.Basic

/-!
# Lines of a function body

A lifted body is a list of lines.  Each line holds one statement, or one edge of a conditional block, and the
depth to which it is indented.
-/

namespace ShaderLift

/-- What stands on a line. -/
inductive Statement where
  /-- The declaration of a variable with its first value. -/
  | declare (type : TypeId) (name : String) (value : Expr)
  | assign (name : String) (value : Expr)
  /-- An expression whose value is dropped. -/
  | eval (value : Expr)
  | ret (value : Option Expr)
  /-- The start of an `if` body. -/
  | openIf (condition : Expr)
  /-- The end of an `if` body and the start of its `else` body. -/
  | openElse
  /-- The end of a body. -/
  | close
deriving Repr

/-- The text of a statement, with the types named as in the table. -/
def Statement.text (types : TypeTable) : Statement → String
  | declare type name value => types.name type ++ " " ++ name ++ " = " ++ value.text ++ ";"
  | assign name value => name ++ " = " ++ value.text ++ ";"
  | eval value => value.text ++ ";"
  | ret (some value) => "return " ++ value.text ++ ";"
  | ret none => "return;"
  | openIf condition => "if (" ++ condition.text ++ ") \x7b"
  | openElse => "\x7d else \x7b"
  | close => "\x7d"

/-- A statement and the depth to which it is indented. -/
structure Line where
  depth : Nat
  statement : Statement
deriving Repr

/-- The indentation of a line: one tab for each level. -/
def indentation (depth : Nat) : String :=
  String.ofList (List.replicate depth '\t')

/-- The text of a line. -/
def Line.text (types : TypeTable) (line : Line) : String :=
  indentation line.depth ++ line.statement.text types

end ShaderLift
