import ShaderLift.Instruction.Basic
import ShaderLift.Text.Quoted

/-!
# Instruction listings

How literals and instructions are written in reports and error messages.
-/

namespace ShaderLift

/-- A word with its argument in parentheses. -/
private def applied (word argument : String) : String :=
  word ++ "(" ++ argument ++ ")"

/-- A literal in a listing. -/
def Literal.listing : Literal → String
  | number (.int value) => applied "Int" (toString value)
  | number (.float value) => applied "Float" value.text
  | bool value => applied "Bool" (if value then "true" else "false")
  | str value => applied "Str" (Text.quoted value)
  | none => "None"

/-- An instruction in a listing. -/
def Instruction.listing : Instruction → String
  | pushConst literal => applied "PushConst" literal.listing
  | loadLocal name => applied "LoadLocal" (Text.quoted name)
  | loadName name => applied "LoadName" (Text.quoted name)
  | loadGlobal name => applied "LoadGlobal" (Text.quoted name)
  | storeLocal name => applied "StoreLocal" (Text.quoted name)
  | binary op => applied "Binary" op.name
  | call count => applied "Call" (toString count)
  | pop => "Pop"
  | ret => "Return"
  | jumpIfFalse target => applied "JumpIfFalse" (toString target)
  | jump target => applied "Jump" (toString target)

end ShaderLift
