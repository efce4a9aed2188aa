import ShaderLift.Instruction.Basic
import ShaderLift.Lifting.Error
import ShaderLift.Line

/-!
# Events and runs

Lifting produces a list of events in the order in which they happen: reports on its progress and the lines of the
lifted body.  A run is such a list together with how it ended; the events before a failure are kept.
-/

namespace ShaderLift

/-- Something that happens while a function is lifted. -/
inductive Event where
  /-- Lifting of a function starts. -/
  | started (function : String)
  /-- An instruction is about to be lifted at the given depth of blocks. -/
  | visited (index : Nat) (instruction : Instruction) (depth : Nat)
  /-- A variable gets a value of another type than it was declared with. -/
  | retyped (name : String) (declared assigned : TypeId)
  /-- A line is added to the lifted body. -/
  | emitted (line : Line)
  /-- A function was lifted. -/
  | finished (result : TypeId) (lines dependencies : Nat)
deriving Repr

/-- How much of the progress is reported; each level includes the ones before it. -/
inductive Level where
  | warn
  | debug
  | trace
deriving DecidableEq, Repr

namespace Level

/-- The place of a level in the order of inclusion. -/
def rank : Level → Nat
  | warn => 0
  | debug => 1
  | trace => 2

/-- Whether reports at `level` are included in this level. -/
def includes (chosen level : Level) : Bool :=
  decide (level.rank ≤ chosen.rank)

end Level

namespace Event

/-- The level at which an event is reported; lines are not. -/
def level? : Event → Option Level
  | started _ => some .debug
  | visited _ _ _ => some .trace
  | retyped _ _ _ => some .warn
  | emitted _ => none
  | finished _ _ _ => some .debug

/-- Whether an event is reported at the chosen level. -/
def isReported (chosen : Level) (event : Event) : Bool :=
  event.level?.any chosen.includes

/-- The line that an event adds to the body. -/
def line? : Event → Option Line
  | emitted line => some line
  | _ => none

/-- The text that goes with a report. -/
def message? : Event → Option String
  | visited _ _ _ => some "evaluate"
  | retyped _ _ _ =>
      some "variable re-assigned with a different type, keeping the declared type"
  | finished _ _ _ => some "compiled shader"
  | _ => none

end Event

/-- The events of a lifting and how it ended. -/
structure Run (α : Type) where
  events : List Event
  outcome : Except LiftError α

namespace Run

variable {α β : Type}

/-- A run that ends at once with a result. -/
def pure (a : α) : Run α :=
  ⟨[], .ok a⟩

/-- A run that ends at once with a failure. -/
def fail (location : Location) (cause : Cause) : Run α :=
  ⟨[], .error ⟨location, cause⟩⟩

/-- A run after some events. -/
def after (events : List Event) (r : Run α) : Run α :=
  ⟨events ++ r.events, r.outcome⟩

/-- A run that goes on with the result of another one, unless that failed. -/
def bind (r : Run α) (next : α → Run β) : Run β :=
  match r.outcome with
  | .ok a => (next a).after r.events
  | .error e => ⟨r.events, .error e⟩

/-- The lines of the lifted body. -/
def lines (r : Run α) : List Line :=
  r.events.filterMap Event.line?

/-- The events that are reported at the chosen level. -/
def reports (r : Run α) (chosen : Level) : List Event :=
  r.events.filter (Event.isReported chosen)

@[simp] theorem after_nil (r : Run α) : r.after [] = r := rfl

@[simp] theorem pure_bind (a : α) (next : α → Run β) : (pure a).bind next = next a := rfl

@[simp] theorem bind_pure (r : Run α) : r.bind pure = r := by
  obtain ⟨events, outcome⟩ := r
  cases outcome <;> simp [bind, pure, after]

theorem bind_assoc {γ : Type} (r : Run α) (f : α → Run β) (g : β → Run γ) :
    (r.bind f).bind g = r.bind fun a => (f a).bind g := by
  obtain ⟨events, outcome⟩ := r
  cases outcome with
  | error e => rfl
  | ok a =>
      simp only [bind, after]
      cases (f a).outcome <;> simp

theorem lines_after (events : List Event) (r : Run α) :
    (r.after events).lines = events.filterMap Event.line? ++ r.lines := by
  simp [lines, after]

end Run

end ShaderLift
