import ShaderLift.Block
import ShaderLift.Expr
import ShaderLift.Instruction.Listing
import ShaderLift.TypeTable.Basic

/-!
# Lifting errors

Why a function cannot be lifted: a cause and the place where it was noticed.  The wording of all messages is
here.
-/

namespace ShaderLift

/-- Where an error was noticed. -/
inductive Location where
  /-- Before the first instruction. -/
  | declaration
  | instruction (index : Nat)
  /-- After the last instruction. -/
  | functionEnd
deriving DecidableEq, Repr

/-- The text of a location. -/
def Location.text : Location → String
  | declaration => "declaration"
  | instruction index => "instruction #" ++ toString index
  | functionEnd => "end of function"

/-- The kinds of lifting errors. -/
inductive ErrorKind where
  | unsupportedInstruction
  | unknownIdentifier
  | typeMismatch
  | arityMismatch
  | malformedControlFlow
  /-- A fault of lifting itself; no function is refused for it. -/
  | internal
deriving DecidableEq, Repr

/-- Why a function cannot be lifted. -/
inductive Cause where
  /-- An integer constant that does not fit 32 bits. -/
  | intOutOfRange (value : Int)
  /-- A constant that is not a number. -/
  | notANumber (literal : Literal)
  | unknownVariable (name : String)
  | unknownFunction (name : String)
  /-- An operator that cannot be applied. -/
  | operator (error : TypeError)
  /-- A callable where a value is needed. -/
  | callableAsValue (name : String)
  /-- A value where a callable is needed. -/
  | notCallable (value : Expr) (type : TypeId)
  /-- A call whose arguments no signature with their number accepts. -/
  | noSignature (callee : String) (args : List TypeId)
  /-- A condition that is not of type `bool`. -/
  | notACondition (condition : Expr) (type : TypeId)
  /-- A return of another type than an earlier one. -/
  | returnConflict (expected found : TypeId)
  /-- Another number of argument types than the function has parameters. -/
  | argumentTypeCount (function : String) (expected found : Nat)
  /-- A call with a number of arguments that no signature has. -/
  | argumentCount (callee : String) (expected : List Nat) (found : Nat)
  /-- A value is needed and there is none. -/
  | emptyStack
  /-- A call with fewer values on the stack than it takes. -/
  | shortStack (count available : Nat)
  /-- The stack ran out below the arguments of a call. -/
  | missingCallee
  /-- A return with more than one value on the stack. -/
  | returnValues (count : Nat)
  /-- Values left on the stack where a body starts or ends. -/
  | leftAtBoundary (count : Nat)
  /-- Values left on the stack at the end of the function. -/
  | leftAtEnd (count : Nat)
  /-- A body that is still open at the end of the function. -/
  | openBlock
  /-- A jump that does not fit the nesting of blocks. -/
  | flow (error : FlowError)
deriving Repr

namespace Cause

/-- The kind of an error with this cause. -/
def kind : Cause → ErrorKind
  | intOutOfRange _ | notANumber _ | flow (.backwardBranch _) | flow (.backwardJump _) =>
      .unsupportedInstruction
  | unknownVariable _ | unknownFunction _ => .unknownIdentifier
  | operator _ | callableAsValue _ | notCallable _ _ | noSignature _ _ | notACondition _ _
  | returnConflict _ _ => .typeMismatch
  | argumentTypeCount _ _ _ | argumentCount _ _ _ => .arityMismatch
  | emptyStack | shortStack _ _ | returnValues _ | leftAtBoundary _ | leftAtEnd _ | openBlock
  | flow _ => .malformedControlFlow
  | missingCallee => .internal

/-- What a message with this cause starts with. -/
def heading : Cause → String
  | unknownVariable name | unknownFunction name => "unknown identifier `" ++ name ++ "`"
  | cause =>
      match cause.kind with
      | .unsupportedInstruction => "unsupported instruction"
      | .unknownIdentifier => "unknown identifier"
      | .typeMismatch => "type mismatch"
      | .arityMismatch => "arity mismatch"
      | .malformedControlFlow => "malformed control flow"
      | .internal => "internal error"

/-- The text of a cause, with the types named as in the table. -/
def text (types : TypeTable) : Cause → String
  | intOutOfRange value => "integer constant " ++ toString value ++ " does not fit a 32-bit `int`"
  | notANumber literal =>
      "only integer and float constants are supported, found " ++ literal.listing
  | unknownVariable _ => "unknown variable"
  | unknownFunction _ => "unauthorized function"
  | operator error => error.message types
  | callableAsValue name => "function `" ++ name ++ "` cannot be used as a value"
  | notCallable value type =>
      "`" ++ value.text ++ "` of type `" ++ types.name type ++ "` is not callable"
  | noSignature callee args =>
      "no variant of `" ++ callee ++ "` accepts (" ++ ", ".intercalate (args.map types.name) ++ ")"
  | notACondition condition type =>
      "condition `" ++ condition.text ++ "` has type `" ++ types.name type ++ "`, expected `bool`"
  | returnConflict expected found =>
      "return type can only be unique: `" ++ types.name expected ++ "` was returned before, now `"
        ++ types.name found ++ "`"
  | argumentTypeCount function expected found =>
      "expected " ++ toString expected ++ " argument type(s) for `" ++ function ++ "`, found "
        ++ toString found
  | argumentCount callee expected found =>
      "expected " ++ " or ".intercalate (expected.map toString) ++ " argument(s) for `" ++ callee
        ++ "`, found " ++ toString found
  | emptyStack => "operand stack is empty"
  | shortStack count available =>
      "call with " ++ toString count ++ " argument(s) on an operand stack of "
        ++ toString available ++ " value(s)"
  | missingCallee => "the operand stack ran out below the arguments of a call"
  | returnValues count => "return with " ++ toString count ++ " values on the operand stack"
  | leftAtBoundary count =>
      toString count ++ " value(s) left on the operand stack at a block boundary"
  | leftAtEnd count => toString count ++ " value(s) left on the operand stack"
  | openBlock => "unterminated conditional block"
  | flow error => error.message

end Cause

/-- Why and where lifting a function failed. -/
structure LiftError where
  location : Location
  cause : Cause
deriving Repr

/-- The text of a lifting error, with the types named as in the table. -/
def LiftError.message (types : TypeTable) (e : LiftError) : String :=
  e.cause.heading ++ " at " ++ e.location.text ++ ": " ++ e.cause.text types

end ShaderLift
