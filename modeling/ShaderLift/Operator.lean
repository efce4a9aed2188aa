/-!
# Binary operators

The ten binary operators of the shading language, their spelling in shader text and how tightly
they bind there.
-/

namespace ShaderLift

/-- A binary operator of the shading language. -/
inductive Operator where
  | add
  | sub
  | mul
  | div
  | lt
  | le
  | gt
  | ge
  | eq
  | ne
deriving DecidableEq, Repr

namespace Operator

/-- The operators that compute a number. -/
def arithmetic : List Operator :=
  [add, sub, mul, div]

/-- The operators that compare their operands. -/
def comparison : List Operator :=
  [lt, le, gt, ge, eq, ne]

/-- Whether the operator compares its operands. -/
def isComparison (op : Operator) : Bool :=
  comparison.contains op

/-- The spelling of the operator in shader text. -/
def symbol : Operator → String
  | add => "+"
  | sub => "-"
  | mul => "*"
  | div => "/"
  | lt => "<"
  | le => "<="
  | gt => ">"
  | ge => ">="
  | eq => "=="
  | ne => "!="

/-- The name of the operator in instruction listings. -/
def name : Operator → String
  | add => "Add"
  | sub => "Sub"
  | mul => "Mul"
  | div => "Div"
  | lt => "Lt"
  | le => "Le"
  | gt => "Gt"
  | ge => "Ge"
  | eq => "Eq"
  | ne => "Ne"

/-- How tightly the operator binds: multiplicative over additive over ordering over equality. -/
def precedence : Operator → Nat
  | mul | div => 4
  | add | sub => 3
  | lt | le | gt | ge => 2
  | eq | ne => 1

end Operator

end ShaderLift
