import ShaderLift.Number
import ShaderLift.Operator

/-!
# Stack instructions

The input of lifting: functions whose bodies are flat lists of instructions for a stack machine, with jumps to
instruction indices.
-/

namespace ShaderLift

/-- A constant of the stack language.  Shaders can only express the numbers among them. -/
inductive Literal where
  | number (value : Number)
  | bool (value : Bool)
  | str (value : String)
  | none
deriving DecidableEq, Repr

/-- The spelling of a literal in shader text, if it has one. -/
def Literal.text? : Literal → Option String
  | number value => some value.text
  | _ => Option.none

/-- An instruction of the stack machine. -/
inductive Instruction where
  /-- Push a constant. -/
  | pushConst (literal : Literal)
  /-- Push a variable. -/
  | loadLocal (name : String)
  /-- Push a variable or, if there is none of that name, a callable. -/
  | loadName (name : String)
  /-- Push a callable. -/
  | loadGlobal (name : String)
  /-- Pop a value into a variable. -/
  | storeLocal (name : String)
  /-- Pop the right and the left operand and push the result. -/
  | binary (op : Operator)
  /-- Pop the arguments, last one first, and the callable below them, and push the result. -/
  | call (count : Nat)
  /-- Pop a value and drop it. -/
  | pop
  /-- Leave the function, with the value on the stack if there is one. -/
  | ret
  /-- Pop a condition and go to the target unless it holds. -/
  | jumpIfFalse (target : Nat)
  /-- Go to the target. -/
  | jump (target : Nat)
deriving DecidableEq, Repr

/-- The same jump to another target; any other instruction has no target to change. -/
def Instruction.retarget? (target : Nat) : Instruction → Option Instruction
  | jumpIfFalse _ => some (jumpIfFalse target)
  | jump _ => some (jump target)
  | _ => none

/-- A function of the stack language. -/
structure StackFunction where
  name : String
  params : List String
  body : List Instruction
deriving DecidableEq, Repr

end ShaderLift
