import ShaderLift.Block
import ShaderLift.Callable
import ShaderLift.Expr
import ShaderLift.Lifting.Error
import ShaderLift.Dialect

/-!
# Lifting states

What lifting knows at an instruction: the types of the variables, the type returned so far, the values on the
operand stack as expressions, and the open blocks.
-/

namespace ShaderLift

/-- The types of the variables in scope. -/
abbrev Scope := String → Option TypeId

namespace Scope

/-- The scope without variables. -/
def empty : Scope := fun _ => none

/-- Adds a variable, or gives another type to one of that name. -/
def declare (scope : Scope) (name : String) (type : TypeId) : Scope :=
  fun other => if other = name then some type else scope other

@[simp] theorem declare_self (scope : Scope) (name : String) (type : TypeId) :
    scope.declare name type name = some type := by
  simp [declare]

@[simp] theorem declare_of_ne (scope : Scope) {name other : String} (type : TypeId)
    (h : other ≠ name) : scope.declare name type other = scope other := by
  simp [declare, h]

/-- Adds variables in order, so that the last of several of one name counts. -/
def declareAll (scope : Scope) (declarations : List (String × TypeId)) : Scope :=
  declarations.foldl (fun scope (name, type) => scope.declare name type) scope

end Scope

/-- What a function is lifted against: the types, the handles of the built-in types and the callables, of which
the first with a name is the one that is called. -/
structure Context where
  types : TypeTable
  prim : Primitive → TypeId
  callables : List Callable

/-- The callable that a name refers to. -/
def Context.resolve (c : Context) (name : String) : Option Callable :=
  c.callables.find? (·.name == name)

/-- A typed expression. -/
structure Operand where
  type : TypeId
  expr : Expr
deriving Repr

/-- An entry of the operand stack. -/
inductive Value where
  | operand (operand : Operand)
  | callable (callable : Callable)
deriving Repr

/-- The state of lifting between two instructions. -/
structure State where
  scope : Scope
  /-- The type of the returns so far. -/
  returns : Option TypeId := none
  /-- The operand stack, top first. -/
  stack : List Value := []
  blocks : Blocks := []

namespace State

/-- The depth of the next line. -/
def depth (s : State) : Nat :=
  s.blocks.depth

/-- Pushes a typed expression. -/
def push (s : State) (type : TypeId) (expr : Expr) : State :=
  { s with stack := .operand ⟨type, expr⟩ :: s.stack }

/-- Pushes a callable. -/
def pushCallable (s : State) (callable : Callable) : State :=
  { s with stack := .callable callable :: s.stack }

/-- Takes the value from the top of the stack. -/
def popOperand (s : State) : Except Cause (Operand × State) :=
  match s.stack with
  | [] => .error .emptyStack
  | .callable callable :: _ => .error (.callableAsValue callable.name)
  | .operand operand :: rest => .ok (operand, { s with stack := rest })

/-- Takes values from the top of the stack and returns them in the order in which they were pushed. -/
def popOperands : Nat → State → Except Cause (List Operand × State)
  | 0, s => .ok ([], s)
  | count + 1, s => do
      let (last, s) ← s.popOperand
      let (others, s) ← popOperands count s
      pure (others ++ [last], s)

/-- Taking a value makes the stack one shorter. -/
theorem length_of_popOperand_eq_ok {s next : State} {operand : Operand}
    (h : s.popOperand = .ok (operand, next)) :
    next.stack.length + 1 = s.stack.length := by
  unfold popOperand at h
  split at h
  · cases h
  · cases h
  · rename_i hstack
    cases h
    simp [hstack]

/-- Taking `count` values makes the stack shorter by as many. -/
theorem length_of_popOperands_eq_ok {count : Nat} {s next : State} {operands : List Operand}
    (h : s.popOperands count = .ok (operands, next)) :
    next.stack.length + count = s.stack.length := by
  induction count generalizing s next operands with
  | zero =>
      cases h
      rfl
  | succ count ih =>
      simp only [popOperands, bind, Except.bind] at h
      split at h
      · cases h
      · rename_i taken htaken
        split at h
        · cases h
        · rename_i others hothers
          have hone := length_of_popOperand_eq_ok htaken
          have hrest := ih hothers
          cases h
          omega

/-- Where a body starts or ends, no value may be left on the stack. -/
def checkBoundary (s : State) : Except Cause Unit :=
  if s.stack.isEmpty then .ok () else .error (.leftAtBoundary s.stack.length)

end State

end ShaderLift
