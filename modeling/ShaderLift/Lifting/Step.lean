import ShaderLift.Lifting.Event
import ShaderLift.Lifting.State

/-!
# Lifting one instruction

`State.step` gives the state after an instruction and what happened at it: at most one line, and a report if a
variable gets a value of another type.
-/

namespace ShaderLift

namespace State

/-- The state together with a line at its depth. -/
def emit (s : State) (statement : Statement) : State × List Event :=
  (s, [.emitted ⟨s.depth, statement⟩])

/-- Lifts a constant. -/
def pushLiteral (c : Context) (s : State) : Literal → Except Cause State
  | .number (.int value) =>
      if Number.leastInt ≤ value ∧ value ≤ Number.greatestInt then
        .ok (s.push (c.prim .int) (.number (.int value)))
      else
        .error (.intOutOfRange value)
  | .number (.float value) => .ok (s.push (c.prim .float) (.number (.float value)))
  | literal => .error (.notANumber literal)

/-- Lifts the use of a callable. -/
def pushFunction (c : Context) (s : State) (name : String) : Except Cause State :=
  match c.resolve name with
  | some callable => .ok (s.pushCallable callable)
  | none => .error (.unknownFunction name)

/-- Lifts the assignment of a value to a variable.  The first one declares the variable; a later one of another
type is reported and leaves the declared type. -/
def store (s : State) (name : String) (value : Operand) : State × List Event :=
  match s.scope name with
  | some declared =>
      let report := if declared = value.type then [] else [.retyped name declared value.type]
      let (s, line) := s.emit (.assign name value.expr)
      (s, report ++ line)
  | none =>
      { s with scope := s.scope.declare name value.type }.emit (.declare value.type name value.expr)

/-- Lifts the application of an operator. -/
def applyOperator (c : Context) (s : State) (op : Operator) : Except Cause State := do
  let (right, s) ← s.popOperand
  let (left, s) ← s.popOperand
  match c.types.operatorType op left.type right.type with
  | .ok type => pure (s.push type (.binary op left.expr right.expr))
  | .error error => throw (.operator error)

/-- Lifts a call.  The first signature that accepts the arguments gives the type of the result. -/
def call (c : Context) (s : State) (count : Nat) : Except Cause State :=
  if s.stack.length < count + 1 then
    .error (.shortStack count s.stack.length)
  else do
    let (args, s) ← s.popOperands count
    match s.stack with
    | [] => throw .missingCallee
    | .operand operand :: _ => throw (.notCallable operand.expr operand.type)
    | .callable callee :: rest =>
        let types := args.map Operand.type
        match callee.signature? c.types types with
        | some signature =>
            pure ({ s with stack := rest }.push signature.result
              (.call callee.name (args.map Operand.expr)))
        | none =>
            if callee.hasArity count then
              throw (.noSignature callee.name types)
            else
              throw (.argumentCount callee.name callee.arities count)

/-- Records the type of a return, which is the same for all returns of a function. -/
def recordReturn (s : State) (type : TypeId) : Except Cause State :=
  match s.returns with
  | none => .ok { s with returns := some type }
  | some expected => if expected = type then .ok s else .error (.returnConflict expected type)

/-- Lifts a return of the only value on the stack, or of none. -/
def leave (c : Context) (s : State) : Except Cause (State × List Event) :=
  match s.stack with
  | [] => do
      let s ← s.recordReturn (c.prim .void)
      pure (s.emit (.ret none))
  | [_] => do
      let (value, s) ← s.popOperand
      let s ← s.recordReturn value.type
      pure (s.emit (.ret (some value.expr)))
  | values => .error (.returnValues values.length)

/-- Lifts a conditional jump: it opens an `if` body. -/
def branch (c : Context) (length index : Nat) (s : State) (target : Nat) :
    Except Cause (State × List Event) := do
  let (condition, s) ← s.popOperand
  if condition.type ≠ c.prim .bool then
    throw (.notACondition condition.expr condition.type)
  s.checkBoundary
  match s.blocks.openIf length index target with
  | .ok blocks =>
      pure ({ s with blocks := blocks }, [.emitted ⟨blocks.depth - 1, .openIf condition.expr⟩])
  | .error error => throw (.flow error)

/-- Lifts a jump: it does nothing or turns an `if` body into an `else` body. -/
def jump (length index : Nat) (s : State) (target : Nat) : Except Cause (State × List Event) := do
  s.checkBoundary
  match s.blocks.jump length index target with
  | .ok .nothing => pure (s, [])
  | .ok (.beginElse blocks) =>
      pure ({ s with blocks := blocks }, [.emitted ⟨blocks.depth - 1, .openElse⟩])
  | .error error => throw (.flow error)

/-- Lifts the instruction at `index` of a function of the given length. -/
def step (c : Context) (length index : Nat) (s : State) :
    Instruction → Except Cause (State × List Event)
  | .pushConst literal => do pure (← s.pushLiteral c literal, [])
  | .loadLocal name =>
      match s.scope name with
      | some type => .ok (s.push type (.var name), [])
      | none => .error (.unknownVariable name)
  | .loadName name =>
      match s.scope name with
      | some type => .ok (s.push type (.var name), [])
      | none => do pure (← s.pushFunction c name, [])
  | .loadGlobal name => do pure (← s.pushFunction c name, [])
  | .storeLocal name => do
      let (value, s) ← s.popOperand
      pure (s.store name value)
  | .binary op => do pure (← s.applyOperator c op, [])
  | .call count => do pure (← s.call c count, [])
  | .pop => do
      let (value, s) ← s.popOperand
      pure (s.emit (.eval value.expr))
  | .ret => s.leave c
  | .jumpIfFalse target => s.branch c length index target
  | .jump target => s.jump length index target

end State

end ShaderLift
