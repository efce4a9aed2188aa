import ShaderLift.Interface
import ShaderLift.Lifting.Body
import ShaderLift.Shader

/-!
# Lifting functions

`lift` turns a stack function into a shader.  Calls refer to the bound shaders first and to the functions of the
dialect second.
-/

namespace ShaderLift

/-- What calls and types of a function refer to. -/
def Context.ofDialect (d : Dialect) (bound : List Shader) : Context where
  types := d.types
  prim := d.prim
  callables := bound.map Shader.callable ++ d.functions.callables

/-- The variables that are in scope at the start: those of the interface, then the parameters. -/
def initialScope (interface : Interface) (params : List (TypeId × String)) : Scope :=
  Scope.empty
    |>.declareAll (interface.vars.map fun v => (v.name, v.type))
    |>.declareAll (params.map fun (type, name) => (name, type))

/-- The shader made from a lifted body. -/
def Shader.ofBody (d : Dialect) (function : StackFunction) (params : List (TypeId × String))
    (bound : List Shader) (interface : Interface) (result : TypeId) (body : List Line) : Shader where
  name := function.name
  params := params
  result := result
  body := body
  ownText :=
    (if interface.isEmpty then "" else interface.text d.types ++ "\n\n")
      ++ functionText d.types function.name result params (body.map (·.text d.types))
  dependencies := bound

/-- Lifts a function with parameters of the given types.  A function without a return gives `void`. -/
def lift (d : Dialect) (function : StackFunction) (args : List TypeId) (bound : List Shader)
    (interface : Interface) : Run Shader :=
  Run.after [.started function.name] <|
    if args.length ≠ function.params.length then
      .fail .declaration (.argumentTypeCount function.name function.params.length args.length)
    else
      let params := args.zip function.params
      let run := State.liftBody (.ofDialect d bound) (initialScope interface params) function.body
      run.bind fun s =>
        let result := s.returns.getD (d.prim .void)
        Run.after [.finished result run.lines.length bound.length] <|
          .pure (.ofBody d function params bound interface result run.lines)

end ShaderLift
