import ShaderLift.Callable
import ShaderLift.Line

/-!
# Lifted shaders

A lifted shader holds its own text and the shaders it may call.  Its full text consists of the full texts of these,
in order, and its own text, so that everything is defined before it is used.
-/

namespace ShaderLift

/-- A lifted function. -/
structure Shader where
  name : String
  params : List (TypeId × String)
  result : TypeId
  /-- The lines of the body. -/
  body : List Line
  /-- The declarations of the interface and the function. -/
  ownText : String
  /-- The shaders that calls in the body may refer to. -/
  dependencies : List Shader

/-- The text of a function definition. -/
def functionText (types : TypeTable) (name : String) (result : TypeId)
    (params : List (TypeId × String)) (lines : List String) : String :=
  types.name result ++ " " ++ name ++ " ("
    ++ ", ".intercalate (params.map fun (type, param) => types.name type ++ " " ++ param)
    ++ ") \x7b\n" ++ "\n".intercalate lines ++ "\n\x7d"

/-- The line that states the version of the shading language. -/
def versionText (version : Nat) : String :=
  "#version " ++ toString version ++ "\n"

namespace Shader

/-- The shader as something that can be called. -/
def callable (s : Shader) : Callable where
  name := s.name
  signatures := [⟨s.result, s.params.map (·.1)⟩]

mutual

/-- The full text of a shader. -/
def text : Shader → String
  | ⟨_, _, _, _, ownText, dependencies⟩ => dependencyText dependencies ++ ownText

/-- The full texts of shaders, each followed by a newline. -/
def dependencyText : List Shader → String
  | [] => ""
  | s :: rest => s.text ++ "\n" ++ dependencyText rest

end

end Shader

end ShaderLift
