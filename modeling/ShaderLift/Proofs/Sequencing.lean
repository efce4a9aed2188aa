import ShaderLift.Proofs.FlatLifting
import ShaderLift.Proofs.LiftingContext

/-!
# Lifting one body after another

A body that stands behind another one, with its jumps moved accordingly, is lifted as if it stood alone and the first
one had left its variables and its returns behind.  This needs two comparisons of runs: one of the same body in
functions of different lengths, and one of bodies at different places.

* `State.liftFrom_longer`: a body that can be lifted is lifted in the same way in a longer function.
* `State.liftFrom_shift`: moving a body moves all positions in its run and changes nothing else.
* `State.liftAfter_append_shift`: lifting two bodies in sequence.
-/

namespace ShaderLift

/-! ## Moving positions -/

/-- The instruction with its target moved. -/
def Instruction.shift (offset : Nat) : Instruction → Instruction
  | jumpIfFalse target => jumpIfFalse (offset + target)
  | jump target => jump (offset + target)
  | instruction => instruction

/-- The body with its end moved. -/
def Block.shift (offset : Nat) : Block → Block
  | ifBody stop => ifBody (offset + stop)
  | elseBody stop => elseBody (offset + stop)

@[simp] theorem Block.stop_shift (offset : Nat) (block : Block) : (block.shift offset).stop = offset + block.stop := by
  cases block <;> rfl

/-- The flow error with its target moved. -/
def FlowError.shift (offset : Nat) : FlowError → FlowError
  | backwardBranch target => backwardBranch (offset + target)
  | branchEscapes target => branchEscapes (offset + target)
  | backwardJump target => backwardJump (offset + target)
  | jumpOutside target => jumpOutside (offset + target)
  | jumpWithin target => jumpWithin (offset + target)
  | elseEscapes target => elseEscapes (offset + target)

/-- The cause with its target moved, if it has one. -/
def Cause.shift (offset : Nat) : Cause → Cause
  | flow error => flow (error.shift offset)
  | cause => cause

/-- Moving positions does not change the kind of an error. -/
theorem Cause.kind_shift (offset : Nat) (cause : Cause) : (cause.shift offset).kind = cause.kind := by
  cases cause with
  | flow error => cases error <;> rfl
  | _ => rfl

/-- The location moved, if it is that of an instruction. -/
def Location.shift (offset : Nat) : Location → Location
  | instruction index => instruction (offset + index)
  | location => location

/-- The error with all positions moved. -/
def LiftError.shift (offset : Nat) (e : LiftError) : LiftError :=
  ⟨e.location.shift offset, e.cause.shift offset⟩

/-- The event with all positions moved. -/
def Event.shift (offset : Nat) : Event → Event
  | visited index instruction depth => visited (offset + index) (instruction.shift offset) depth
  | event => event

/-- Lines have no positions. -/
theorem Event.line?_shift (offset : Nat) (event : Event) : (event.shift offset).line? = event.line? := by
  cases event <;> rfl

/-- The effect of a jump with the ends of bodies moved. -/
def JumpEffect.shift (offset : Nat) : JumpEffect → JumpEffect
  | nothing => nothing
  | beginElse blocks => beginElse (blocks.map (Block.shift offset))

/-- The state with the ends of the open bodies moved. -/
def State.shift (offset : Nat) (s : State) : State :=
  { s with blocks := s.blocks.map (Block.shift offset) }

/-- The outcome with the target of its cause moved and its result changed. -/
def shiftOutcome {α β : Type} (offset : Nat) (move : α → β) (outcome : Except Cause α) : Except Cause β :=
  (outcome.map move).mapError (Cause.shift offset)

/-- The run with all positions moved. -/
def Run.shift (offset : Nat) (r : Run State) : Run State :=
  ⟨r.events.map (Event.shift offset), (r.outcome.map (State.shift offset)).mapError (LiftError.shift offset)⟩

section Binding

variable {α β γ δ : Type} {offset : Nat}

theorem shiftOutcome_bind {move : α → β} {move' : γ → δ} {x : Except Cause α} {f : α → Except Cause γ}
    {g : β → Except Cause δ} (h : ∀ a, g (move a) = shiftOutcome offset move' (f a)) :
    (shiftOutcome offset move x >>= g) = shiftOutcome offset move' (x >>= f) := by
  cases x with
  | error cause => rfl
  | ok a => exact h a

theorem Run.shift_bind {r : Run State} {f g : State → Run State}
    (h : ∀ s, g (s.shift offset) = (f s).shift offset) : (r.shift offset).bind g = (r.bind f).shift offset := by
  obtain ⟨events, outcome⟩ := r
  cases outcome with
  | error e => rfl
  | ok s =>
      change (g (s.shift offset)).after _ = _
      rw [h]
      simp only [Run.shift, Run.bind, Run.after, List.map_append]

theorem Run.lines_shift (offset : Nat) (r : Run State) : (r.shift offset).lines = r.lines := by
  simp only [Run.lines, Run.shift, List.filterMap_map]
  congr 1
  funext event
  exact event.line?_shift offset

end Binding

/-! ## Bodies at another place -/

namespace Blocks

variable (offset length index target : Nat) (blocks : Blocks)

theorem depth_shift : depth (blocks.map (Block.shift offset)) = depth blocks := by
  rw [depth, depth, List.length_map]

theorem limit_shift : limit (offset + length) (blocks.map (Block.shift offset)) = offset + limit length blocks := by
  cases blocks with
  | nil => rfl
  | cons block outer => exact block.stop_shift offset

theorem close_shift :
    close (offset + index) (blocks.map (Block.shift offset)) = (close index blocks).map (Block.shift offset) := by
  unfold close
  rw [List.dropWhile_map]
  congr 2
  funext block
  simp

theorem openIf_shift :
    openIf (offset + length) (offset + index) (offset + target) (blocks.map (Block.shift offset)) =
      ((openIf length index target blocks).map (List.map (Block.shift offset))).mapError (FlowError.shift offset) := by
  unfold openIf
  rw [limit_shift]
  simp only [Nat.add_le_add_iff_left, Nat.add_lt_add_iff_left]
  split
  · rfl
  · split <;> rfl

theorem jump_shift :
    Blocks.jump (offset + length) (offset + index) (offset + target) (blocks.map (Block.shift offset)) =
      ((Blocks.jump length index target blocks).map (JumpEffect.shift offset)).mapError (FlowError.shift offset) := by
  unfold Blocks.jump
  simp only [Nat.add_assoc, Nat.add_left_cancel_iff, Nat.add_le_add_iff_left]
  split
  · rfl
  split
  · rfl
  cases blocks with
  | nil => rfl
  | cons block outer =>
      have hblock : block.shift offset = .ifBody (offset + (index + 1)) ↔ block = .ifBody (index + 1) := by
        cases block <;> simp [Block.shift]
      simp only [List.map_cons, hblock, limit_shift, Nat.add_lt_add_iff_left]
      split
      · split <;> rfl
      · rfl

end Blocks

namespace State

variable (offset : Nat) (c : Context) (s : State)

@[simp] theorem scope_shift : (s.shift offset).scope = s.scope := rfl

@[simp] theorem stack_shift : (s.shift offset).stack = s.stack := rfl

@[simp] theorem depth_shift : (s.shift offset).depth = s.depth :=
  Blocks.depth_shift offset s.blocks

theorem popOperand_shift :
    (s.shift offset).popOperand = shiftOutcome offset (Prod.map id (shift offset)) s.popOperand := by
  obtain ⟨scope, returns, stack, blocks⟩ := s
  cases stack with
  | nil => rfl
  | cons value rest => cases value <;> rfl

theorem popOperands_shift (count : Nat) :
    (s.shift offset).popOperands count =
      shiftOutcome offset (Prod.map id (shift offset)) (s.popOperands count) := by
  induction count generalizing s with
  | zero => rfl
  | succ count ih =>
      unfold popOperands
      rw [popOperand_shift]
      refine shiftOutcome_bind ?_
      rintro ⟨last, s⟩
      dsimp only [Prod.map]
      rw [ih]
      exact shiftOutcome_bind fun _ => rfl

theorem checkBoundary_shift : (s.shift offset).checkBoundary = shiftOutcome offset id s.checkBoundary := by
  obtain ⟨scope, returns, stack, blocks⟩ := s
  cases stack <;> rfl

theorem pushLiteral_shift (literal : Literal) :
    (s.shift offset).pushLiteral c literal = shiftOutcome offset (shift offset) (s.pushLiteral c literal) := by
  unfold pushLiteral
  split
  · split <;> rfl
  · rfl
  · rfl

theorem pushFunction_shift (name : String) :
    (s.shift offset).pushFunction c name = shiftOutcome offset (shift offset) (s.pushFunction c name) := by
  unfold pushFunction
  split <;> rfl

theorem applyOperator_shift (op : Operator) :
    (s.shift offset).applyOperator c op = shiftOutcome offset (shift offset) (s.applyOperator c op) := by
  unfold applyOperator
  rw [popOperand_shift]
  refine shiftOutcome_bind ?_
  rintro ⟨right, s⟩
  dsimp only [Prod.map]
  rw [popOperand_shift]
  refine shiftOutcome_bind ?_
  rintro ⟨left, s⟩
  dsimp only [Prod.map, id]
  split <;> rfl

theorem call_shift (count : Nat) :
    (s.shift offset).call c count = shiftOutcome offset (shift offset) (s.call c count) := by
  unfold call
  rw [popOperands_shift, stack_shift]
  by_cases hshort : s.stack.length < count + 1
  · rw [if_pos hshort, if_pos hshort]
    rfl
  · rw [if_neg hshort, if_neg hshort]
    refine shiftOutcome_bind ?_
    rintro ⟨args, s⟩
    obtain ⟨scope, returns, stack, blocks⟩ := s
    dsimp only [Prod.map, id, shift]
    cases stack with
    | nil => rfl
    | cons value rest =>
        cases value with
        | operand operand => rfl
        | callable callee =>
            dsimp only
            split
            · rfl
            · split <;> rfl

theorem recordReturn_shift (type : TypeId) :
    (s.shift offset).recordReturn type = shiftOutcome offset (shift offset) (s.recordReturn type) := by
  unfold recordReturn
  dsimp only [shift]
  split
  · rfl
  · split <;> rfl

theorem emit_shift (statement : Statement) :
    (s.shift offset).emit statement = Prod.map (shift offset) id (s.emit statement) := by
  rw [emit, depth_shift]
  rfl

theorem store_shift (name : String) (value : Operand) :
    (s.shift offset).store name value = Prod.map (shift offset) id (s.store name value) := by
  unfold store
  rw [scope_shift]
  split
  · rw [emit_shift]
    rfl
  · exact emit_shift offset { s with scope := s.scope.declare name value.type } _

theorem leave_shift :
    (s.shift offset).leave c = shiftOutcome offset (Prod.map (shift offset) id) (s.leave c) := by
  have hpop := s.popOperand_shift offset
  have hrecord := s.recordReturn_shift offset (c.prim .void)
  unfold leave
  rw [stack_shift]
  split
  · rw [hrecord]
    refine shiftOutcome_bind ?_
    intro s
    rw [emit_shift]
    rfl
  · rw [hpop]
    refine shiftOutcome_bind ?_
    rintro ⟨value, s⟩
    dsimp only [Prod.map, id]
    rw [recordReturn_shift]
    refine shiftOutcome_bind ?_
    intro s
    rw [emit_shift]
    rfl
  · rfl

theorem branch_shift (length index target : Nat) :
    (s.shift offset).branch c (offset + length) (offset + index) (offset + target) =
      shiftOutcome offset (Prod.map (shift offset) id) (s.branch c length index target) := by
  unfold branch
  rw [popOperand_shift]
  refine shiftOutcome_bind ?_
  rintro ⟨condition, s⟩
  dsimp only [Prod.map, id]
  split
  · rfl
  · rw [checkBoundary_shift]
    refine shiftOutcome_bind ?_
    intro _
    dsimp only [shift]
    rw [Blocks.openIf_shift]
    cases s.blocks.openIf length index target with
    | error error => rfl
    | ok blocks =>
        dsimp only [Except.map, Except.mapError]
        rw [Blocks.depth_shift]
        rfl

theorem jump_shift (length index target : Nat) :
    (s.shift offset).jump (offset + length) (offset + index) (offset + target) =
      shiftOutcome offset (Prod.map (shift offset) id) (s.jump length index target) := by
  unfold State.jump
  rw [checkBoundary_shift]
  refine shiftOutcome_bind ?_
  intro _
  dsimp only [shift]
  rw [Blocks.jump_shift]
  cases s.blocks.jump length index target with
  | error error => rfl
  | ok effect =>
      cases effect with
      | nothing => rfl
      | beginElse blocks =>
          dsimp only [Except.map, Except.mapError, JumpEffect.shift]
          rw [Blocks.depth_shift]
          rfl

/-- Moving an instruction and its target does not change what it does. -/
theorem step_shift (length index : Nat) (i : Instruction) :
    (s.shift offset).step c (offset + length) (offset + index) (i.shift offset) =
      shiftOutcome offset (Prod.map (shift offset) id) (s.step c length index i) := by
  cases i with
  | pushConst literal =>
      simp only [step, Instruction.shift, pushLiteral_shift]
      exact shiftOutcome_bind fun _ => rfl
  | loadLocal name =>
      simp only [step, Instruction.shift, scope_shift]
      split <;> rfl
  | loadName name =>
      simp only [step, Instruction.shift, scope_shift]
      split
      · rfl
      · rw [pushFunction_shift]
        exact shiftOutcome_bind fun _ => rfl
  | loadGlobal name =>
      simp only [step, Instruction.shift, pushFunction_shift]
      exact shiftOutcome_bind fun _ => rfl
  | storeLocal name =>
      simp only [step, Instruction.shift, popOperand_shift]
      refine shiftOutcome_bind ?_
      rintro ⟨value, s⟩
      dsimp only [Prod.map, id]
      rw [store_shift]
      rfl
  | binary op =>
      simp only [step, Instruction.shift, applyOperator_shift]
      exact shiftOutcome_bind fun _ => rfl
  | call count =>
      simp only [step, Instruction.shift, call_shift]
      exact shiftOutcome_bind fun _ => rfl
  | pop =>
      simp only [step, Instruction.shift, popOperand_shift]
      refine shiftOutcome_bind ?_
      rintro ⟨value, s⟩
      dsimp only [Prod.map, id]
      rw [emit_shift]
      rfl
  | ret => exact s.leave_shift offset c
  | jumpIfFalse target => exact s.branch_shift offset c length index target
  | jump target => exact s.jump_shift offset length index target

theorem closingLines_shift (index : Nat) (blocks : Blocks) :
    closingLines (offset + index) (blocks.map (Block.shift offset)) = closingLines index blocks := by
  induction blocks with
  | nil => rfl
  | cons block outer ih =>
      simp only [List.map_cons, closingLines, Block.stop_shift, Nat.add_left_cancel_iff, ih, Blocks.depth_shift]

theorem close_shift (index : Nat) : (s.shift offset).close (offset + index) = (s.close index).shift offset := by
  have hlines := closingLines_shift offset index s.blocks
  have hblocks := s.blocks.close_shift offset index
  unfold close
  rw [checkBoundary_shift]
  dsimp only [shift]
  rw [hlines, hblocks]
  cases closingLines index s.blocks with
  | nil => rfl
  | cons line lines =>
      cases s.checkBoundary with
      | error cause => rfl
      | ok _ =>
          have hemitted : Event.shift offset ∘ Event.emitted = Event.emitted := rfl
          simp only [shiftOutcome, Except.map, Except.mapError, Run.shift, List.map_map, hemitted]
          rfl

/-- No position is reported by an instruction itself. -/
theorem StepCases.map_shift {c : Context} {index : Nat} {s next : State} {i : Instruction} {events : List Event}
    (h : s.StepCases c index i next events) (offset : Nat) : events.map (Event.shift offset) = events := by
  cases h with
  | @plain _ _ statement _ _ hevents =>
      obtain ⟨reports, rfl, hreports⟩ := hevents
      have hsame : reports.map (Event.shift offset) = reports := by
        refine (List.map_congr_left ?_).trans (List.map_id reports)
        intro event hmem
        obtain ⟨name, declared, assigned, rfl⟩ := hreports event hmem
        rfl
      rw [List.map_append, hsame]
      congr 1
      cases statement <;> rfl
  | openIf hstack => rfl
  | openElse hforward hblocks hstack => rfl

theorem visit_shift (length index : Nat) (i : Instruction) :
    (s.shift offset).visit c (offset + length) (offset + index) (i.shift offset) =
      (s.visit c length index i).shift offset := by
  unfold visit
  rw [step_shift, depth_shift]
  cases hstep : s.step c length index i with
  | error cause => rfl
  | ok result =>
      obtain ⟨next, events⟩ := result
      simp only [shiftOutcome, Except.map, Except.mapError, Prod.map, id, Run.shift, List.map_cons,
        (step_cases hstep).map_shift offset]
      rfl

/-- Moving a body moves all positions in its run and changes nothing else. -/
theorem liftFrom_shift (length index : Nat) (body : List Instruction) :
    liftFrom c (offset + length) (offset + index) (s.shift offset) (body.map (Instruction.shift offset)) =
      (liftFrom c length index s body).shift offset := by
  induction body generalizing index s with
  | nil => exact s.close_shift offset index
  | cons i body ih =>
      simp only [List.map_cons, liftFrom]
      rw [close_shift]
      refine Run.shift_bind fun s => ?_
      rw [visit_shift]
      refine Run.shift_bind fun s => ?_
      exact ih s (index + 1)

/-- What must hold at the end does not depend on positions. -/
theorem checkEnd_shift : (s.shift offset).checkEnd = s.checkEnd.shift offset := by
  obtain ⟨scope, returns, stack, blocks⟩ := s
  cases blocks with
  | cons block outer => rfl
  | nil => cases stack <;> rfl

end State

/-! ## Longer functions -/

namespace Blocks

variable {length length' index target : Nat} {blocks : Blocks}

theorem limit_le_limit (h : length ≤ length') (blocks : Blocks) : limit length blocks ≤ limit length' blocks := by
  cases blocks with
  | nil => exact h
  | cons block outer => exact Nat.le_refl _

theorem openIf_longer (h : length ≤ length') (index target : Nat) (blocks : Blocks) :
    Simulates Eq (openIf length index target blocks) (openIf length' index target blocks) := by
  have hlimit := limit_le_limit h blocks
  unfold openIf
  split
  · exact .error _ _
  · split
    · exact .error _ _
    · rw [if_neg (by omega)]
      exact .ok rfl

theorem jump_longer (h : length ≤ length') (index target : Nat) (blocks : Blocks) :
    Simulates Eq (Blocks.jump length index target blocks) (Blocks.jump length' index target blocks) := by
  unfold Blocks.jump
  split
  · exact .ok rfl
  split
  · exact .error _ _
  cases blocks with
  | nil => exact .error _ _
  | cons block outer =>
      have hlimit := limit_le_limit h outer
      dsimp only
      split
      · split
        · exact .error _ _
        · rw [if_neg (by omega)]
          exact .ok rfl
      · exact .error _ _

end Blocks

namespace State

variable {length length' : Nat} (h : length ≤ length') (c : Context) (index : Nat) (s : State)

include h

theorem branch_longer (target : Nat) :
    Simulates Eq (s.branch c length index target) (s.branch c length' index target) := by
  unfold branch
  refine (Simulates.refl s.popOperand).bind ?_
  rintro ⟨condition, s⟩ _ rfl
  dsimp only
  split
  · exact .error _ _
  · refine (Simulates.refl s.checkBoundary).bind ?_
    rintro _ _ rfl
    have hopen := Blocks.openIf_longer h index target s.blocks
    cases hblocks : s.blocks.openIf length index target with
    | error error => exact .error _ _
    | ok blocks =>
        obtain ⟨_, hblocks', rfl⟩ := hopen blocks hblocks
        rw [hblocks']
        exact .ok rfl

theorem jump_longer (target : Nat) :
    Simulates Eq (s.jump length index target) (s.jump length' index target) := by
  unfold State.jump
  refine (Simulates.refl s.checkBoundary).bind ?_
  rintro _ _ rfl
  have hjump := Blocks.jump_longer h index target s.blocks
  cases heffect : s.blocks.jump length index target with
  | error error => exact .error _ _
  | ok effect =>
      obtain ⟨_, heffect', rfl⟩ := hjump effect heffect
      rw [heffect']
      exact .refl _

theorem visit_longer (i : Instruction) :
    Run.Simulates Eq (s.visit c length index i) (s.visit c length' index i) := by
  have hstep : Simulates Eq (s.step c length index i) (s.step c length' index i) := by
    cases i with
    | jumpIfFalse target => exact branch_longer h c index s target
    | jump target => exact jump_longer h index s target
    | _ => exact .refl _
  unfold visit
  cases hresult : s.step c length index i with
  | error cause =>
      intro next hnext
      cases hnext
  | ok result =>
      obtain ⟨_, hresult', rfl⟩ := hstep result hresult
      rw [hresult']
      exact .refl _

/-- A body that can be lifted is lifted in the same way in a longer function. -/
theorem liftFrom_longer (body : List Instruction) :
    Run.Simulates Eq (liftFrom c length index s body) (liftFrom c length' index s body) := by
  induction body generalizing index s with
  | nil => exact .refl _
  | cons i body ih =>
      refine (Run.Simulates.refl (s.close index)).bind ?_
      rintro s _ rfl
      refine (visit_longer h c index s i).bind ?_
      rintro s _ rfl
      exact ih (index + 1) s

end State

/-! ## Sequences of bodies -/

namespace State

/-- Lifts a whole body after code that has left the given variables in scope and the given type of returns. -/
def liftAfter (c : Context) (scope : Scope) (returns : Option TypeId) (body : List Instruction) : Run State :=
  (liftFrom c body.length 0 { scope := scope, returns := returns } body).bind checkEnd

/-- A function starts without returns. -/
theorem liftBody_eq_liftAfter (c : Context) (scope : Scope) (body : List Instruction) :
    liftBody c scope body = liftAfter c scope none body := rfl

variable {c : Context} {scope : Scope} {returns : Option TypeId} {first : List Instruction} {last : State}
  {events : List Event}

/-- At the end of a whole body, nothing is left but the variables and the type of returns. -/
theorem liftAfter_eq_ok_iff {body : List Instruction} :
    liftAfter c scope returns body = ⟨events, .ok last⟩ ↔
      liftFrom c body.length 0 { scope := scope, returns := returns } body = ⟨events, .ok last⟩ ∧
        last = { scope := last.scope, returns := last.returns } := by
  unfold liftAfter
  rw [Run.bind_eq_ok_iff]
  simp only [checkEnd_eq_ok_iff]
  constructor
  · rintro ⟨_, before, _, hlift, ⟨hblocks, hstack, rfl, rfl⟩, rfl⟩
    rw [List.append_nil]
    refine ⟨hlift, ?_⟩
    rw [← hblocks, ← hstack]
  · rintro ⟨hlift, hlast⟩
    refine ⟨last, events, [], hlift, ⟨?_, ?_, rfl, rfl⟩, (List.append_nil _).symm⟩
    · rw [hlast]
    · rw [hlast]

/-- The run of two bodies in sequence is the run of the first one, followed by that of the second one at its place. -/
theorem liftAfter_append (h : liftAfter c scope returns first = ⟨events, .ok last⟩) (second : List Instruction) :
    liftAfter c scope returns (first ++ second.map (Instruction.shift first.length)) =
      ((liftAfter c last.scope last.returns second).shift first.length).after events := by
  obtain ⟨hfirst, hlast⟩ := liftAfter_eq_ok_iff.mp h
  have hlonger : first.length ≤ first.length + second.length := by omega
  obtain ⟨_, hfirst', rfl⟩ := liftFrom_longer hlonger c 0 _ first last (by rw [hfirst])
  rw [hfirst] at hfirst'
  have hstart : last = shift first.length { scope := last.scope, returns := last.returns } := hlast
  have hsecond := liftFrom_shift first.length c { scope := last.scope, returns := last.returns } second.length 0 second
  rw [← hstart] at hsecond
  unfold liftAfter
  rw [List.length_append, List.length_map, liftFrom_append, hfirst', Run.bind_assoc, Nat.zero_add]
  change ((liftFrom c _ (first.length + 0) last _).bind checkEnd).after events = _
  rw [hsecond, Run.shift_bind fun s => s.checkEnd_shift first.length]

/-- Two bodies in sequence, the jumps of the second one moved by the length of the first one.  If the first one can be
lifted, the whole is lifted as the second one alone would be with the variables and the type of returns that the first
one leaves: with the lines of both and the same end, or with an error of the same kind at the place to which the
instruction has moved. -/
theorem liftAfter_append_shift (h : liftAfter c scope returns first = ⟨events, .ok last⟩) (second : List Instruction) :
    (∀ last', (liftAfter c last.scope last.returns second).outcome = .ok last' →
      (liftAfter c scope returns (first ++ second.map (Instruction.shift first.length))).outcome = .ok last' ∧
        (liftAfter c scope returns (first ++ second.map (Instruction.shift first.length))).lines =
          (liftAfter c scope returns first).lines ++ (liftAfter c last.scope last.returns second).lines) ∧
      ∀ e, (liftAfter c last.scope last.returns second).outcome = .error e →
        ∃ e', (liftAfter c scope returns (first ++ second.map (Instruction.shift first.length))).outcome = .error e' ∧
          e'.cause.kind = e.cause.kind ∧
          (∀ index, e.location = .instruction index → e'.location = .instruction (first.length + index)) ∧
          (e.location = .functionEnd → e'.location = .functionEnd) := by
  rw [liftAfter_append h second]
  constructor
  · intro last' hlast'
    have hshift : last'.shift first.length = last' := by
      obtain ⟨-, hend⟩ := liftAfter_eq_ok_iff.mp (congrArg (Run.mk _) hlast')
      rw [hend]
      rfl
    constructor
    · simp only [Run.after, Run.shift, hlast', Except.map, Except.mapError, hshift]
    · rw [Run.lines_after, Run.lines_shift, h]
      rfl
  · intro e he
    refine ⟨e.shift first.length, ?_, e.cause.kind_shift first.length, ?_, ?_⟩
    · simp only [Run.after, Run.shift, he, Except.map, Except.mapError]
    · intro index hindex
      simp only [LiftError.shift, hindex, Location.shift]
    · intro hend
      simp only [LiftError.shift, hend, Location.shift]

/-- Lifts a body with the number `x` in scope. -/
def liftOfNumber (body : List Instruction) : Run State :=
  liftAfter (.ofDialect .standard []) (Scope.empty.declare "x" (.pos 2)) none body

/-- Declares `y` in a body that ends where the instructions end. -/
def declaringInside : List Instruction :=
  [.loadLocal "x", .loadLocal "x", .binary .lt, .jumpIfFalse 6, .pushConst (.number (.int 1)), .storeLocal "y"]

/-- Returns `y` from one body, and `x` from the other. -/
def returningEither : List Instruction :=
  [.loadLocal "x", .loadLocal "y", .binary .lt, .jumpIfFalse 7, .loadLocal "y", .ret, .jump 9, .loadLocal "x", .ret]

/-- Leaves a value behind where its body ends. -/
def leavingBehind : List Instruction :=
  [.loadLocal "x", .loadLocal "y", .binary .lt, .jumpIfFalse 5, .loadLocal "y"]

set_option maxRecDepth 4000 in
theorem liftAfter_append_shift_declaringInside :
    ∃ events last, liftOfNumber declaringInside = ⟨events, .ok last⟩ ∧
      (∃ last', (liftOfNumber (declaringInside ++ returningEither.map (Instruction.shift 6))).outcome = .ok last' ∧
        last'.returns = some (.pos 2)) ∧
      (liftOfNumber (declaringInside ++ returningEither.map (Instruction.shift 6))).lines.map Line.depth =
        [1, 2, 1, 1, 2, 1, 2, 1] ∧
      ∃ e, (liftOfNumber (declaringInside ++ leavingBehind.map (Instruction.shift 6))).outcome = .error e ∧
        e.cause.kind = .malformedControlFlow ∧ e.location = .instruction 11 := by
  have hfirst : ∃ events last, liftOfNumber declaringInside = ⟨events, .ok last⟩ ∧
      (liftOfNumber declaringInside).lines.map Line.depth = [1, 2, 1] ∧
      (∃ last', (liftAfter (.ofDialect .standard []) last.scope last.returns returningEither).outcome = .ok last' ∧
        last'.returns = some (.pos 2)) ∧
      (liftAfter (.ofDialect .standard []) last.scope last.returns returningEither).lines.map Line.depth =
        [1, 2, 1, 2, 1] ∧
      ∃ e, (liftAfter (.ofDialect .standard []) last.scope last.returns leavingBehind).outcome = .error e ∧
        e.cause.kind = .malformedControlFlow ∧ e.location = .instruction 5 :=
    ⟨_, _, rfl, rfl, ⟨_, rfl, rfl⟩, rfl, _, rfl, rfl, rfl⟩
  obtain ⟨events, last, hlift, hdepths, ⟨last', hlast', hreturns⟩, hdepths', e, he, hkind, hlocation⟩ := hfirst
  obtain ⟨houtcome, hlines⟩ := (liftAfter_append_shift hlift returningEither).1 last' hlast'
  obtain ⟨e', he', hkind', hlocation', -⟩ := (liftAfter_append_shift hlift leavingBehind).2 e he
  refine ⟨events, last, hlift, ⟨last', houtcome, hreturns⟩, ?_, e', he', hkind'.trans hkind, hlocation' 5 hlocation⟩
  refine (congrArg (List.map Line.depth) hlines).trans ?_
  rw [List.map_append, hdepths']
  exact congrArg (· ++ [1, 2, 1, 2, 1]) hdepths

end State

end ShaderLift
