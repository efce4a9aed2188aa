import ShaderLift.Instruction.Basic

/-!
# Assembling functions

An assembler collects the instructions of a function.  Jumps may name labels that are bound later; finishing
the function patches each such jump to the index at which its label was last bound.
-/

namespace ShaderLift

/-- A label, known by its number in the assembler that made it.  An assembler cannot tell labels of one number
apart. -/
structure Label where
  number : Nat
deriving DecidableEq, Repr

/-- A label in a listing. -/
def Label.listing (label : Label) : String :=
  "Label(" ++ toString label.number ++ ")"

/-- Why a function cannot be finished. -/
inductive AssemblyError where
  /-- The jump at an index names a label that was never bound. -/
  | unboundLabel (label : Label) (index : Nat)
  /-- A label that the assembler did not make was bound or named by a jump. -/
  | foreignLabel (label : Label)
  /-- The instruction to patch is not a jump; no assembler ends with this. -/
  | notAJump (index : Nat)
deriving DecidableEq, Repr

/-- The text of an assembly error. -/
def AssemblyError.message : AssemblyError → String
  | unboundLabel label index =>
      "label " ++ label.listing ++ " was used at instruction #" ++ toString index
        ++ " but never bound"
  | foreignLabel label => "label " ++ label.listing ++ " was not created by this builder"
  | notAJump index => "instruction #" ++ toString index ++ " is not a jump"

/-- A function under construction. -/
structure Assembler where
  name : String
  params : Array String := #[]
  code : Array Instruction := #[]
  /-- The index at which each label was last bound. -/
  bindings : Array (Option Nat) := #[]
  /-- The jumps to patch: index of the instruction and label. -/
  fixups : Array (Nat × Label) := #[]
  /-- The first label that was bound here without having been made here. -/
  stray : Option Label := none
deriving DecidableEq, Repr

namespace Assembler

/-- The number of instructions so far. -/
def size (a : Assembler) : Nat :=
  a.code.size

/-- Adds a parameter. -/
def param (a : Assembler) (name : String) : Assembler :=
  { a with params := a.params.push name }

/-- Adds an instruction; its index is the size before. -/
def push (a : Assembler) (instruction : Instruction) : Assembler :=
  { a with code := a.code.push instruction }

/-- Makes a label. -/
def label (a : Assembler) : Assembler × Label :=
  ({ a with bindings := a.bindings.push none }, ⟨a.bindings.size⟩)

/-- Binds a label to the index of the next instruction.  Binding it again moves it. -/
def bind (a : Assembler) (label : Label) : Assembler :=
  if label.number < a.bindings.size then
    { a with bindings := a.bindings.modify label.number fun _ => some a.size }
  else
    { a with stray := a.stray.or (some label) }

/-- Adds a jump to a label, to be patched when the function is finished. -/
def jump (a : Assembler) (label : Label) : Assembler :=
  { a.push (.jump 0) with fixups := a.fixups.push (a.size, label) }

/-- Adds a conditional jump to a label, to be patched when the function is finished. -/
def jumpIfFalse (a : Assembler) (label : Label) : Assembler :=
  { a.push (.jumpIfFalse 0) with fixups := a.fixups.push (a.size, label) }

/-- The index that a jump to a label leads to. -/
def target (a : Assembler) (index : Nat) (label : Label) : Except AssemblyError Nat :=
  match a.bindings[label.number]? with
  | some (some target) => .ok target
  | some none => .error (.unboundLabel label index)
  | none => .error (.foreignLabel label)

/-- Patches one jump of the code. -/
def patch (a : Assembler) (code : Array Instruction) (fixup : Nat × Label) :
    Except AssemblyError (Array Instruction) := do
  let (index, label) := fixup
  let target ← a.target index label
  match code[index]?.bind (·.retarget? target) with
  | some instruction => pure (code.setIfInBounds index instruction)
  | none => throw (.notAJump index)

/-- The finished function.  A stray binding is reported first, then the first jump, in order of the code,
whose label is not bound. -/
def finish (a : Assembler) : Except AssemblyError StackFunction :=
  match a.stray with
  | some label => .error (.foreignLabel label)
  | none => do
      let code ← a.fixups.toList.foldlM a.patch a.code
      pure { name := a.name, params := a.params.toList, body := code.toList }

end Assembler

end ShaderLift
