import ShaderLift.Lift

/-!
# Programs

A program is a list of functions to be lifted in order, each of which may bind shaders lifted before it.
-/

namespace ShaderLift

/-- A function to be lifted, with all that lifting needs. -/
structure Job where
  dialect : Dialect := .standard
  function : StackFunction
  args : List TypeId := []
  /-- The places in the program of the shaders to bind. -/
  bind : List Nat := []
  interface : Interface := {}

/-- What became of a job. -/
inductive Build where
  /-- The function was lifted, successfully or not. -/
  | lifted (run : Run Shader)
  /-- A shader to bind was missing, so lifting was not tried. -/
  | unbound

namespace Build

/-- The shader, if there is one. -/
def shader? : Build → Option Shader
  | lifted run => run.outcome.toOption
  | unbound => none

/-- The text that goes with a job that was not tried. -/
def unboundMessage : String :=
  "a bound shader failed to build"

/-- Performs a job after the jobs with the given builds. -/
def ofJob (earlier : List Build) (job : Job) : Build :=
  match job.bind.mapM fun place => earlier[place]?.bind shader? with
  | some bound => lifted (lift job.dialect job.function job.args bound job.interface)
  | none => unbound

/-- Performs jobs in order. -/
def ofJobs (jobs : List Job) : List Build :=
  jobs.foldl (fun earlier job => earlier ++ [ofJob earlier job]) []

end Build

end ShaderLift
