import ShaderLift.TypeTable.Basic

/-!
# Callables and function tables

A callable has a name and a list of signatures.  A call takes the first signature that accepts the types of its
arguments.  A function table holds the built-in callables, one for each name.
-/

namespace ShaderLift

/-- What a function takes and returns. -/
structure Signature where
  result : TypeId
  inputs : List TypeId
deriving DecidableEq, Repr

/-- Whether arguments of the given types can be passed: as many as there are inputs, each of which converts to
the input at its place. -/
def Signature.accepts (s : Signature) (types : TypeTable) (args : List TypeId) : Bool :=
  args.length == s.inputs.length
    && (args.zip s.inputs).all fun (arg, input) => types.converts arg input

/-- Something that can be called by name. -/
structure Callable where
  name : String
  signatures : List Signature
deriving DecidableEq, Repr

namespace Callable

/-- The first signature that accepts the arguments. -/
def signature? (c : Callable) (types : TypeTable) (args : List TypeId) : Option Signature :=
  c.signatures.find? (·.accepts types args)

/-- The number of inputs of each signature. -/
def arities (c : Callable) : List Nat :=
  c.signatures.map (·.inputs.length)

/-- Whether some signature has that many inputs. -/
def hasArity (c : Callable) (count : Nat) : Bool :=
  c.arities.contains count

end Callable

/-- The built-in callables, in the order in which their names were first added. -/
structure FunctionTable where
  callables : List Callable := []
deriving DecidableEq, Repr

namespace FunctionTable

/-- The callable with a name. -/
def find? (t : FunctionTable) (name : String) : Option Callable :=
  t.callables.find? (·.name == name)

/-- Adds a callable.  If there is one of that name already, it gets the new signatures after its own. -/
def add (t : FunctionTable) (c : Callable) : FunctionTable :=
  if t.callables.any (·.name == c.name) then
    { callables := t.callables.map fun d =>
        if d.name == c.name then { d with signatures := d.signatures ++ c.signatures } else d }
  else
    { callables := t.callables ++ [c] }

/-- The names of the callables in code point order. -/
def sortedNames (t : FunctionTable) : List String :=
  (t.callables.map (·.name)).mergeSort fun a b => decide (a ≤ b)

end FunctionTable

end ShaderLift
