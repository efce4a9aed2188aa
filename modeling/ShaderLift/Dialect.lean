import ShaderLift.Callable
import ShaderLift.TypeTable.Edit

/-!
# Dialects

A dialect is what lifting knows about the shading language: its types, its built-in functions and the handles of
the types that the instructions themselves give rise to.
-/

namespace ShaderLift

/-- The built-in types of the shading language. -/
inductive Primitive where
  | void
  | bool
  | int
  | float
  | vec2
  | vec3
  | vec4
  | mat2
  | mat3
  | mat4
deriving DecidableEq, Repr

namespace Primitive

/-- The built-in types in the order in which they stand in the standard dialect. -/
def all : List Primitive :=
  [void, bool, int, float, vec2, vec3, vec4, mat2, mat3, mat4]

/-- The name of a built-in type. -/
def name : Primitive → String
  | void => "void"
  | bool => "bool"
  | int => "int"
  | float => "float"
  | vec2 => "vec2"
  | vec3 => "vec3"
  | vec4 => "vec4"
  | mat2 => "mat2"
  | mat3 => "mat3"
  | mat4 => "mat4"

/-- The built-in type with a name. -/
def ofName? (name : String) : Option Primitive :=
  all.find? (·.name == name)

/-- The vector type with `n` components. -/
def vec? : Nat → Option Primitive
  | 2 => some vec2
  | 3 => some vec3
  | 4 => some vec4
  | _ => none

/-- The square matrix type with `n` columns. -/
def mat? : Nat → Option Primitive
  | 2 => some mat2
  | 3 => some mat3
  | 4 => some mat4
  | _ => none

/-- The handle of a built-in type in the standard dialect: its place in the order. -/
def standard (p : Primitive) : TypeId :=
  .pos (all.idxOf p)

end Primitive

/-- The types and functions that stack functions are lifted against. -/
structure Dialect where
  types : TypeTable := .empty
  functions : FunctionTable := {}
  /-- The handles that stand for the built-in types.  There need not be types at them. -/
  prim : Primitive → TypeId := fun _ => .null

namespace Dialect

/-- The dialect without types and functions, in which the null handle stands for every built-in type. -/
def empty : Dialect := {}

/-- Lets another handle stand for a built-in type; the type table stays as it is. -/
def setPrim (d : Dialect) (p : Primitive) (id : TypeId) : Dialect :=
  { d with prim := fun q => if q = p then id else d.prim q }

/-- The handle that stands for the vector type with `n` components. -/
def vec? (d : Dialect) (n : Nat) : Option TypeId :=
  (Primitive.vec? n).map d.prim

/-- The handle that stands for the square matrix type with `n` columns. -/
def mat? (d : Dialect) (n : Nat) : Option TypeId :=
  (Primitive.mat? n).map d.prim

/-- One change of a dialect. -/
inductive Edit where
  | type (edit : TypeTable.Edit)
  | function (callable : Callable)
  | primitive (primitive : Primitive) (type : TypeId)
deriving DecidableEq, Repr

/-- Performs an edit. -/
def apply (d : Dialect) : Edit → Dialect
  | .type edit => { d with types := d.types.apply edit }
  | .function callable => { d with functions := d.functions.add callable }
  | .primitive primitive type => d.setPrim primitive type

/-- Performs edits in order. -/
def applyAll (d : Dialect) (edits : List Edit) : Dialect :=
  edits.foldl apply d

end Dialect

/-! ## The standard dialect -/

namespace Standard

open Primitive Operator

/-- Adds the operator rules of vectors and matrices of one size: both are added and subtracted, and matrices
multiply matrices and vectors. -/
def addLinearRules (t : TypeTable) (vec mat : Primitive) : TypeTable :=
  t |>.addRules vec.standard [add, sub] vec.standard vec.standard
    |>.addRules mat.standard [add, sub, mul] mat.standard mat.standard
    |>.addRule mat.standard mul vec.standard vec.standard

/-- The built-in types with their operator rules.  Mixed arithmetic of `int` and `float` gives `float`, and
every comparison gives `bool`. -/
def types : TypeTable :=
  let named := all.foldl (fun t p => (t.add p.name).1) TypeTable.empty
  let scalars := named
    |>.addRules int.standard arithmetic int.standard int.standard
    |>.addRules int.standard arithmetic float.standard float.standard
    |>.addRules float.standard arithmetic int.standard float.standard
    |>.addRules float.standard arithmetic float.standard float.standard
    |>.addRules int.standard comparison int.standard bool.standard
    |>.addRules int.standard comparison float.standard bool.standard
    |>.addRules float.standard comparison int.standard bool.standard
    |>.addRules float.standard comparison float.standard bool.standard
    |>.addRules bool.standard [eq, ne] bool.standard bool.standard
    |>.addConversion int.standard float.standard
  addLinearRules (addLinearRules (addLinearRules scalars vec2 mat2) vec3 mat3) vec4 mat4

/-- The function that makes a value of a type from `count` values of another. -/
def constructorOf (p : Primitive) (count : Nat) (input : Primitive) : Callable where
  name := p.name
  signatures := [⟨p.standard, List.replicate count input.standard⟩]

/-- The built-in functions: vectors are made from floats and matrices from their columns. -/
def functions : FunctionTable where
  callables :=
    [constructorOf vec2 2 float, constructorOf mat2 2 vec2,
      constructorOf vec3 3 float, constructorOf mat3 3 vec3,
      constructorOf vec4 4 float, constructorOf mat4 4 vec4]

end Standard

/-- The dialect with the built-in types and functions of the shading language. -/
def Dialect.standard : Dialect where
  types := Standard.types
  functions := Standard.functions
  prim := Primitive.standard

end ShaderLift
