import ShaderLift.Proofs.ReachedStates

/-!
# Why an instruction is refused

Lifting an instruction fails for a cause that belongs to the instruction.  `Refusal` lists these causes.  The other ones
are noticed before the first instruction or behind the last one, except that the callable below the arguments of a call
is missing.  This does not happen, since the stack is measured before the arguments are taken.

* `FailsFor`: which causes a part of lifting can fail for, composed along the parts.
* `State.step_failsFor`: an instruction is refused for a cause of its own.
* `State.cause_of_liftFrom`: a run over instructions fails for a cause of one of them, or because values are left where
  a body ends.
* `Refusal.kind_ne_internal`, `Refusal.ne_openBlock`: what no instruction is refused for.
-/

namespace ShaderLift

/-- Whether an instruction takes values from the stack, which callables are not. -/
def Instruction.takesOperands : Instruction → Bool
  | storeLocal _ | binary _ | call _ | pop | ret | jumpIfFalse _ => true
  | _ => false

/-- The causes for which an instruction is refused. -/
inductive Refusal : Instruction → Cause → Prop
  | intOutOfRange (value : Int) : Refusal (.pushConst (.number (.int value))) (.intOutOfRange value)
  | notANumber (literal : Literal) : Refusal (.pushConst literal) (.notANumber literal)
  | unknownVariable (name : String) : Refusal (.loadLocal name) (.unknownVariable name)
  | unknownName (name : String) : Refusal (.loadName name) (.unknownFunction name)
  | unknownFunction (name : String) : Refusal (.loadGlobal name) (.unknownFunction name)
  | emptyStack {i : Instruction} (h : i.takesOperands = true) : Refusal i .emptyStack
  | callableAsValue {i : Instruction} (h : i.takesOperands = true) (name : String) :
      Refusal i (.callableAsValue name)
  | operator (op : Operator) (error : TypeError) : Refusal (.binary op) (.operator error)
  | shortStack (count available : Nat) : Refusal (.call count) (.shortStack count available)
  | notCallable (count : Nat) (value : Expr) (type : TypeId) : Refusal (.call count) (.notCallable value type)
  | noSignature (count : Nat) (callee : String) (args : List TypeId) :
      Refusal (.call count) (.noSignature callee args)
  | argumentCount (count : Nat) (callee : String) (expected : List Nat) :
      Refusal (.call count) (.argumentCount callee expected count)
  | returnConflict (expected found : TypeId) : Refusal .ret (.returnConflict expected found)
  | returnValues (count : Nat) : Refusal .ret (.returnValues count)
  | notACondition (target : Nat) (condition : Expr) (type : TypeId) :
      Refusal (.jumpIfFalse target) (.notACondition condition type)
  | leftAtBoundary {i : Instruction} (h : i.isJump = true) (count : Nat) : Refusal i (.leftAtBoundary count)
  | flow {i : Instruction} (h : i.isJump = true) (error : FlowError) : Refusal i (.flow error)

/-- An instruction is refused for a reason that lies in the function. -/
theorem Refusal.kind_ne_internal {i : Instruction} {cause : Cause} (h : Refusal i cause) :
    cause.kind ≠ .internal := by
  cases h with
  | flow h error => cases error <;> simp [Cause.kind]
  | _ => simp [Cause.kind]

/-- No instruction is refused because a body is left open. -/
theorem Refusal.ne_openBlock {i : Instruction} {cause : Cause} (h : Refusal i cause) : cause ≠ .openBlock := by
  rintro rfl
  cases h

/-- A part of lifting that fails, if it does, for one of the given causes. -/
def FailsFor {α : Type} (causes : Cause → Prop) (r : Except Cause α) : Prop :=
  ∀ cause, r = .error cause → causes cause

namespace FailsFor

variable {α β : Type} {causes : Cause → Prop}

theorem ok (a : α) : FailsFor causes (.ok a) := by
  intro cause h
  cases h

theorem error {cause : Cause} (h : causes cause) : FailsFor causes (.error cause : Except Cause α) := by
  rintro _ ⟨⟩
  exact h

theorem bind {r : Except Cause α} {f : α → Except Cause β} (h : FailsFor causes r)
    (hnext : ∀ a, r = .ok a → FailsFor causes (f a)) : FailsFor causes (r >>= f) := by
  cases r with
  | error cause => exact error (h cause rfl)
  | ok a => exact hnext a rfl

end FailsFor

namespace State

variable {c : Context} {length index : Nat} {s : State} {i : Instruction}

theorem popOperand_failsFor (hi : i.takesOperands = true) : FailsFor (Refusal i) s.popOperand := by
  unfold popOperand
  split
  · exact .error (.emptyStack hi)
  · exact .error (.callableAsValue hi _)
  · exact .ok _

theorem popOperands_failsFor (hi : i.takesOperands = true) (count : Nat) :
    FailsFor (Refusal i) (s.popOperands count) := by
  induction count generalizing s with
  | zero => exact .ok _
  | succ count ih => exact (popOperand_failsFor hi).bind fun _ _ => ih.bind fun _ _ => .ok _

theorem checkBoundary_failsFor (hi : i.isJump = true) : FailsFor (Refusal i) s.checkBoundary := by
  unfold checkBoundary
  split
  · exact .ok _
  · exact .error (.leftAtBoundary hi _)

theorem pushLiteral_failsFor (literal : Literal) :
    FailsFor (Refusal (.pushConst literal)) (s.pushLiteral c literal) := by
  unfold pushLiteral
  split
  · split
    · exact .ok _
    · exact .error (.intOutOfRange _)
  · exact .ok _
  · exact .error (.notANumber literal)

theorem pushFunction_failsFor {name : String} (hi : Refusal i (.unknownFunction name)) :
    FailsFor (Refusal i) (s.pushFunction c name) := by
  unfold pushFunction
  split
  · exact .ok _
  · exact .error hi

theorem applyOperator_failsFor (op : Operator) : FailsFor (Refusal (.binary op)) (s.applyOperator c op) := by
  refine (popOperand_failsFor rfl).bind fun _ _ => (popOperand_failsFor rfl).bind fun _ _ => ?_
  dsimp only
  split
  · exact .ok _
  · exact .error (.operator op _)

/-- The callable is there once the arguments have been taken, because the check of the stack counts it. -/
theorem call_failsFor (count : Nat) : FailsFor (Refusal (.call count)) (s.call c count) := by
  unfold call
  split
  · exact .error (.shortStack count _)
  · rename_i henough
    refine (popOperands_failsFor rfl count).bind ?_
    rintro ⟨args, next⟩ hpop
    have hlength := length_of_popOperands_eq_ok hpop
    dsimp only
    split
    · rename_i hempty
      rw [hempty, List.length_nil] at hlength
      omega
    · exact .error (.notCallable count _ _)
    · split
      · exact .ok _
      · split
        · exact .error (.noSignature count _ _)
        · exact .error (.argumentCount count _ _)

theorem recordReturn_failsFor (type : TypeId) : FailsFor (Refusal .ret) (s.recordReturn type) := by
  unfold recordReturn
  split
  · exact .ok _
  · split
    · exact .ok _
    · exact .error (.returnConflict _ _)

theorem leave_failsFor : FailsFor (Refusal .ret) (s.leave c) := by
  unfold leave
  split
  · exact (recordReturn_failsFor _).bind fun _ _ => .ok _
  · exact (popOperand_failsFor rfl).bind fun _ _ => (recordReturn_failsFor _).bind fun _ _ => .ok _
  · exact .error (.returnValues _)

theorem branch_failsFor (target : Nat) :
    FailsFor (Refusal (.jumpIfFalse target)) (s.branch c length index target) := by
  refine (popOperand_failsFor rfl).bind ?_
  rintro ⟨condition, s⟩ -
  dsimp only
  split
  · exact .error (.notACondition target _ _)
  · refine (checkBoundary_failsFor rfl).bind fun _ _ => ?_
    split
    · exact .ok _
    · exact .error (.flow rfl _)

theorem jump_failsFor (target : Nat) : FailsFor (Refusal (.jump target)) (s.jump length index target) := by
  refine (checkBoundary_failsFor rfl).bind fun _ _ => ?_
  split
  · exact .ok _
  · exact .ok _
  · exact .error (.flow rfl _)

/-- An instruction is refused for a cause of its own. -/
theorem step_failsFor (i : Instruction) : FailsFor (Refusal i) (s.step c length index i) := by
  cases i with
  | pushConst literal => exact (pushLiteral_failsFor literal).bind fun _ _ => .ok _
  | loadLocal name =>
      simp only [step]
      split
      · exact .ok _
      · exact .error (.unknownVariable name)
  | loadName name =>
      simp only [step]
      split
      · exact .ok _
      · exact (pushFunction_failsFor (.unknownName name)).bind fun _ _ => .ok _
  | loadGlobal name => exact (pushFunction_failsFor (.unknownFunction name)).bind fun _ _ => .ok _
  | storeLocal name => exact (popOperand_failsFor rfl).bind fun _ _ => .ok _
  | binary op => exact (applyOperator_failsFor op).bind fun _ _ => .ok _
  | call count => exact (call_failsFor count).bind fun _ _ => .ok _
  | pop => exact (popOperand_failsFor rfl).bind fun _ _ => .ok _
  | ret => exact leave_failsFor
  | jumpIfFalse target => exact branch_failsFor target
  | jump target => exact jump_failsFor target

/-! ## Runs -/

theorem cause_of_close {e : LiftError} (h : (s.close index).outcome = .error e) :
    ∃ count, e.cause = .leftAtBoundary count := by
  unfold close at h
  split at h
  · cases h
  · unfold checkBoundary at h
    split at h
    · cases h
    · rename_i hboundary
      cases h
      split at hboundary
      · cases hboundary
      · cases hboundary
        exact ⟨_, rfl⟩

/-- Going over instructions fails where a body ends or at an instruction. -/
theorem cause_of_liftFrom {xs : List Instruction} {e : LiftError}
    (h : (liftFrom c length index s xs).outcome = .error e) :
    (∃ count, e.cause = .leftAtBoundary count) ∨ ∃ i ∈ xs, Refusal i e.cause := by
  induction xs generalizing index s with
  | nil => exact .inl (cause_of_close h)
  | cons x xs ih =>
      rcases Run.bind_eq_error h with hclose | ⟨closed, _, -, hvisited⟩
      · exact .inl (cause_of_close hclose)
      · rcases Run.bind_eq_error hvisited with hvisit | ⟨next, _, -, hrest⟩
        · obtain ⟨cause, hstep, rfl⟩ := visit_eq_error hvisit
          exact .inr ⟨x, List.mem_cons_self, step_failsFor x cause hstep⟩
        · rcases ih hrest with hleft | ⟨i, hi, hrefusal⟩
          · exact .inl hleft
          · exact .inr ⟨i, List.mem_cons_of_mem _ hi, hrefusal⟩

end State

end ShaderLift
