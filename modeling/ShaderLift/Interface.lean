import ShaderLift.TypeTable.Basic

/-!
# Shader interfaces

The variables through which a shader communicates, and their declarations in shader text.
-/

namespace ShaderLift

/-- The stage of the pipeline that a shader is meant for. -/
inductive Stage where
  | vertex
  | fragment
deriving DecidableEq, Repr

/-- How a variable communicates.  Inputs and outputs may have a location. -/
inductive Channel where
  | input (location : Option Nat)
  | output (location : Option Nat)
  | uniform
deriving DecidableEq, Repr

/-- The location of a channel. -/
def Channel.location? : Channel → Option Nat
  | input location => location
  | output location => location
  | uniform => none

/-- A variable of an interface. -/
structure InterfaceVar where
  channel : Channel
  type : TypeId
  name : String
deriving DecidableEq, Repr

/-- The variables of a shader in the order in which they were added, and its stage if it was set. -/
structure Interface where
  vars : List InterfaceVar := []
  stage : Option Stage := none
deriving DecidableEq, Repr

namespace Interface

/-- One change of an interface. -/
inductive Edit where
  | stage (stage : Stage)
  | declare (v : InterfaceVar)
deriving DecidableEq, Repr

/-- Performs an edit.  Variables are never merged, and the last stage set counts. -/
def apply (i : Interface) : Edit → Interface
  | .stage stage => { i with stage := some stage }
  | .declare v => { i with vars := i.vars ++ [v] }

/-- The interface made by edits, starting from the empty one. -/
def ofEdits (edits : List Edit) : Interface :=
  edits.foldl apply {}

/-- Whether the interface has no variables; the stage does not matter. -/
def isEmpty (i : Interface) : Bool :=
  i.vars.isEmpty

end Interface

/-- The layout qualifier for a location, with the blank that follows it. -/
def layoutText : Option Nat → String
  | some location => "layout(location = " ++ toString location ++ ") "
  | none => ""

/-- The keywords in front of the type of a declaration. -/
def Channel.text : Channel → String
  | input location => layoutText location ++ "in"
  | output location => layoutText location ++ "out"
  | uniform => "uniform"

/-- The declaration of a variable. -/
def InterfaceVar.text (types : TypeTable) (v : InterfaceVar) : String :=
  v.channel.text ++ " " ++ types.name v.type ++ " " ++ v.name ++ ";"

/-- The declarations of an interface, one on each line. -/
def Interface.text (types : TypeTable) (i : Interface) : String :=
  "\n".intercalate (i.vars.map (·.text types))

end ShaderLift
