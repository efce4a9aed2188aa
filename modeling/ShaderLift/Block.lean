/-!
# Conditional blocks

Where the bodies of conditionals start and end in a flat list of instructions.  A conditional jump opens an `if`
body that ends at its target.  A jump that is the last instruction of an `if` body turns it into an `else` body,
which ends at the target of the jump.  Bodies are nested: one that is opened inside another ends no later.
-/

namespace ShaderLift

/-- An open body, with the index of the first instruction after it. -/
inductive Block where
  | ifBody (stop : Nat)
  | elseBody (stop : Nat)
deriving DecidableEq, Repr

/-- The index of the first instruction after a body. -/
def Block.stop : Block → Nat
  | ifBody stop => stop
  | elseBody stop => stop

/-- Why a jump does not fit the nesting of bodies. -/
inductive FlowError where
  /-- A conditional jump that does not lead forward. -/
  | backwardBranch (target : Nat)
  /-- A conditional jump that leads out of the innermost body. -/
  | branchEscapes (target : Nat)
  /-- A jump that does not lead forward. -/
  | backwardJump (target : Nat)
  /-- A jump where no body is open. -/
  | jumpOutside (target : Nat)
  /-- A jump that is not the last instruction of an `if` body. -/
  | jumpWithin (target : Nat)
  /-- A jump at the end of an `if` body that leads out of the body around it. -/
  | elseEscapes (target : Nat)
deriving DecidableEq, Repr

/-- The text of a flow error. -/
def FlowError.message : FlowError → String
  | backwardBranch target =>
      "backward branch to #" ++ toString target ++ ", loops are not supported"
  | branchEscapes target =>
      "branch target #" ++ toString target ++ " escapes its enclosing block"
  | backwardJump target =>
      "backward jump to #" ++ toString target ++ ", loops are not supported"
  | jumpOutside target =>
      "jump to #" ++ toString target ++ " outside of a conditional block"
  | jumpWithin target =>
      "jump to #" ++ toString target ++ " does not end an `if` body"
  | elseEscapes target =>
      "`else` body ending at #" ++ toString target ++ " escapes its enclosing block"

/-- The open bodies, innermost first. -/
abbrev Blocks := List Block

/-- What an unconditional jump does. -/
inductive JumpEffect where
  /-- It leads to the next instruction, which comes next anyway. -/
  | nothing
  /-- It ends an `if` body; the given bodies are open in the `else` body that follows. -/
  | beginElse (blocks : Blocks)
deriving DecidableEq, Repr

namespace Blocks

/-- The depth of the lines in the innermost body; the lines of the function itself have depth one. -/
def depth (blocks : Blocks) : Nat :=
  blocks.length + 1

/-- The index at which the innermost body ends, in a function of the given length. -/
def limit (length : Nat) : Blocks → Nat
  | [] => length
  | block :: _ => block.stop

/-- The bodies that are still open when the ones that end at `index` are closed. -/
def close (index : Nat) (blocks : Blocks) : Blocks :=
  blocks.dropWhile (·.stop == index)

/-- Opens the `if` body of the conditional jump at `index`. -/
def openIf (length index target : Nat) (blocks : Blocks) : Except FlowError Blocks :=
  if target ≤ index then
    .error (.backwardBranch target)
  else if limit length blocks < target then
    .error (.branchEscapes target)
  else
    .ok (.ifBody target :: blocks)

/-- What the jump at `index` does. -/
def jump (length index target : Nat) (blocks : Blocks) : Except FlowError JumpEffect :=
  if target = index + 1 then
    .ok .nothing
  else if target ≤ index then
    .error (.backwardJump target)
  else
    match blocks with
    | [] => .error (.jumpOutside target)
    | block :: outer =>
        if block = .ifBody (index + 1) then
          if limit length outer < target then
            .error (.elseEscapes target)
          else
            .ok (.beginElse (.elseBody target :: outer))
        else
          .error (.jumpWithin target)

end Blocks

end ShaderLift
