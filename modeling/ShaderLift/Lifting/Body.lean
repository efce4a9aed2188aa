import ShaderLift.Lifting.Step

/-!
# Lifting a body

Before each instruction, and after the last one, the conditional bodies that end there are closed.  A function
body is lifted if in the end no conditional body is open and no value is left on the stack.
-/

namespace ShaderLift

namespace State

/-- The lines that close the bodies that end at `index`, each at the depth of the body around it. -/
def closingLines (index : Nat) : Blocks → List Line
  | [] => []
  | block :: outer =>
      if block.stop = index then
        ⟨Blocks.depth outer, .close⟩ :: closingLines index outer
      else
        []

/-- Closes the bodies that end at `index`. -/
def close (s : State) (index : Nat) : Run State :=
  match closingLines index s.blocks with
  | [] => .pure s
  | lines =>
      match s.checkBoundary with
      | .ok () => ⟨lines.map .emitted, .ok { s with blocks := s.blocks.close index }⟩
      | .error cause => .fail (.instruction index) cause

/-- Lifts one instruction in the state in which it is reached. -/
def visit (c : Context) (length index : Nat) (s : State) (instruction : Instruction) : Run State :=
  let report := Event.visited index instruction s.depth
  match s.step c length index instruction with
  | .ok (next, events) => ⟨report :: events, .ok next⟩
  | .error cause => ⟨[report], .error ⟨.instruction index, cause⟩⟩

/-- Lifts the instructions from `index` on. -/
def liftFrom (c : Context) (length : Nat) : Nat → State → List Instruction → Run State
  | index, s, [] => s.close index
  | index, s, instruction :: rest =>
      (s.close index).bind fun s =>
        (s.visit c length index instruction).bind fun s =>
          liftFrom c length (index + 1) s rest

/-- Lifting may be interrupted before any instruction: what comes before it is lifted as a list of its own, which
closes the bodies that end at the instruction. -/
theorem liftFrom_append_cons (c : Context) (length index : Nat) (s : State)
    (before after : List Instruction) (instruction : Instruction) :
    liftFrom c length index s (before ++ instruction :: after) =
      (liftFrom c length index s before).bind fun s =>
        (s.visit c length (index + before.length) instruction).bind fun s =>
          liftFrom c length (index + before.length + 1) s after := by
  induction before generalizing index s with
  | nil => rfl
  | cons first before ih =>
      have hindex : index + 1 + before.length = index + (first :: before).length := by
        simp only [List.length_cons]
        omega
      simp only [List.cons_append, liftFrom, Run.bind_assoc, ih, hindex]

/-- What must hold at the end of a body. -/
def checkEnd (s : State) : Run State :=
  if s.blocks.isEmpty = false then
    .fail .functionEnd .openBlock
  else if s.stack.isEmpty = false then
    .fail .functionEnd (.leftAtEnd s.stack.length)
  else
    .pure s

/-- Lifts a whole body with the given variables in scope. -/
def liftBody (c : Context) (scope : Scope) (body : List Instruction) : Run State :=
  (liftFrom c body.length 0 { scope := scope } body).bind checkEnd

end State

end ShaderLift
