import ShaderLift.Lifting.Step
import ShaderLift.Proofs.JumpGrammar

/-!
# What a plain instruction does

`State.PlainStep` says, one case for each way an instruction that has no part in the nesting can be lifted, what
must be on the stack, what the state is afterwards and which statement is added to the lifted body.
`State.plainStep_of_step` shows that lifting such an instruction does nothing else, so that facts about whole bodies
need no look at how a single instruction is lifted.
-/

namespace ShaderLift

/-- The type of a number, if the number can be lifted. -/
def Context.numberType? (c : Context) : Number → Option TypeId
  | .int value =>
      if Number.leastInt ≤ value ∧ value ≤ Number.greatestInt then some (c.prim .int) else none
  | .float _ => some (c.prim .float)

/-- A name refers to a callable of that name. -/
theorem Context.name_of_resolve {c : Context} {name : String} {callable : Callable}
    (h : c.resolve name = some callable) : callable.name = name := by
  have hname := List.find?_some h
  exact eq_of_beq hname

namespace State

/-- The cases of lifting an instruction that has no part in the nesting: the state before, the instruction, the state
after and the statement that is added. -/
inductive PlainStep (c : Context) (s : State) : Instruction → State → Option Statement → Prop
  | number {value : Number} {type : TypeId} (htype : c.numberType? value = some type) :
      PlainStep c s (.pushConst (.number value)) (s.push type (.number value)) none
  | variable {i : Instruction} {name : String} {type : TypeId} (hscope : s.scope name = some type)
      (hi : i = .loadLocal name ∨ i = .loadName name) :
      PlainStep c s i (s.push type (.var name)) none
  | callable {i : Instruction} {name : String} {callable : Callable}
      (hresolve : c.resolve name = some callable)
      (hi : i = .loadGlobal name ∨ i = .loadName name ∧ s.scope name = none) :
      PlainStep c s i (s.pushCallable callable) none
  | binary {op : Operator} {left right : Operand} {rest : List Value} {type : TypeId}
      (hstack : s.stack = .operand right :: .operand left :: rest)
      (htype : c.types.operatorType op left.type right.type = .ok type) :
      PlainStep c s (.binary op)
        ({ s with stack := rest }.push type (.binary op left.expr right.expr)) none
  | call {args : List Operand} {callee : Callable} {rest : List Value} {signature : Signature}
      (hstack : s.stack = args.reverse.map .operand ++ .callable callee :: rest)
      (hsignature : callee.signature? c.types (args.map Operand.type) = some signature) :
      PlainStep c s (.call args.length)
        ({ s with stack := rest }.push signature.result (.call callee.name (args.map Operand.expr)))
        none
  | assign {name : String} {value : Operand} {rest : List Value} {declared : TypeId}
      (hstack : s.stack = .operand value :: rest) (hscope : s.scope name = some declared) :
      PlainStep c s (.storeLocal name) { s with stack := rest } (some (.assign name value.expr))
  | declare {name : String} {value : Operand} {rest : List Value}
      (hstack : s.stack = .operand value :: rest) (hscope : s.scope name = none) :
      PlainStep c s (.storeLocal name)
        { s with stack := rest, scope := s.scope.declare name value.type }
        (some (.declare value.type name value.expr))
  | eval {value : Operand} {rest : List Value} (hstack : s.stack = .operand value :: rest) :
      PlainStep c s .pop { s with stack := rest } (some (.eval value.expr))
  | ret (hstack : s.stack = [])
      (hreturns : s.returns = none ∨ s.returns = some (c.prim .void)) :
      PlainStep c s .ret { s with returns := some (c.prim .void) } (some (.ret none))
  | retValue {value : Operand} (hstack : s.stack = [.operand value])
      (hreturns : s.returns = none ∨ s.returns = some value.type) :
      PlainStep c s .ret { s with stack := [], returns := some value.type }
        (some (.ret (some value.expr)))
  | skip {target : Nat} (hstack : s.stack = []) : PlainStep c s (.jump target) s none

/-! ## Taking values from the stack -/

theorem popOperand_eq_ok {s next : State} {operand : Operand}
    (h : s.popOperand = .ok (operand, next)) :
    s.stack = .operand operand :: next.stack ∧ next = { s with stack := next.stack } := by
  unfold popOperand at h
  split at h
  · cases h
  · cases h
  · rename_i hstack
    cases h
    exact ⟨hstack, rfl⟩

/-- The values that are taken were pushed in their order, so the last one is on top. -/
theorem popOperands_eq_ok {count : Nat} {s next : State} {args : List Operand}
    (h : s.popOperands count = .ok (args, next)) :
    s.stack = args.reverse.map .operand ++ next.stack ∧ args.length = count ∧
      next = { s with stack := next.stack } := by
  induction count generalizing s next args with
  | zero =>
      cases h
      exact ⟨rfl, rfl, rfl⟩
  | succ count ih =>
      simp only [popOperands, bind, Except.bind] at h
      split at h
      · cases h
      · rename_i taken htaken
        obtain ⟨last, middle⟩ := taken
        dsimp only at h
        split at h
        · cases h
        · rename_i found hfound
          obtain ⟨others, bottom⟩ := found
          cases h
          -- The value on top is taken first and is the last one of the list.
          obtain ⟨hstack, hmiddle⟩ := popOperand_eq_ok htaken
          obtain ⟨hothers, hcount, hbottom⟩ := ih hfound
          refine ⟨?_, ?_, ?_⟩
          · rw [hstack, hothers]
            simp
          · simp [hcount]
          · rw [hbottom, hmiddle]

theorem recordReturn_eq_ok {s next : State} {type : TypeId} (h : s.recordReturn type = .ok next) :
    next = { s with returns := some type } ∧ (s.returns = none ∨ s.returns = some type) := by
  unfold recordReturn at h
  split at h
  · rename_i hreturns
    cases h
    exact ⟨rfl, .inl hreturns⟩
  · rename_i expected hreturns
    split at h
    · rename_i heq
      cases h
      refine ⟨?_, .inr (heq ▸ hreturns)⟩
      rw [← heq, ← hreturns]
    · cases h

theorem checkBoundary_eq_ok {s : State} (h : s.checkBoundary = .ok ()) : s.stack = [] := by
  unfold checkBoundary at h
  split at h
  · rename_i hempty
    exact List.isEmpty_iff.mp hempty
  · cases h

/-! ## The cases are all cases -/

/-- The events of an instruction that adds `statement` at the given depth and may report a changed type before. -/
def StepEvents (depth : Nat) (statement : Option Statement) (events : List Event) : Prop :=
  ∃ reports, events = reports ++ (statement.map fun statement => .emitted ⟨depth, statement⟩).toList ∧
    ∀ event ∈ reports, ∃ name declared assigned, event = .retyped name declared assigned

theorem stepEvents_intro (depth : Nat) (statement : Option Statement) :
    StepEvents depth statement
      (statement.map fun statement => .emitted ⟨depth, statement⟩).toList :=
  ⟨[], rfl, fun _ hmem => absurd hmem List.not_mem_nil⟩

theorem pushLiteral_eq_ok {c : Context} {s next : State} {literal : Literal}
    (h : s.pushLiteral c literal = .ok next) : PlainStep c s (.pushConst literal) next none := by
  unfold pushLiteral at h
  split at h
  · rename_i value
    split at h
    · rename_i hrange
      cases h
      exact .number (if_pos hrange)
    · cases h
  · cases h
    exact .number rfl
  · cases h

theorem pushFunction_eq_ok {c : Context} {s next : State} {name : String}
    (h : s.pushFunction c name = .ok next) :
    ∃ callable, c.resolve name = some callable ∧ next = s.pushCallable callable := by
  unfold pushFunction at h
  split at h
  · rename_i callable hresolve
    cases h
    exact ⟨callable, hresolve, rfl⟩
  · cases h

theorem applyOperator_eq_ok {c : Context} {s next : State} {op : Operator}
    (h : s.applyOperator c op = .ok next) : PlainStep c s (.binary op) next none := by
  simp only [applyOperator, bind, Except.bind] at h
  split at h
  · cases h
  · rename_i taken hright
    obtain ⟨right, middle⟩ := taken
    dsimp only at h
    split at h
    · cases h
    · rename_i taken hleft
      obtain ⟨left, bottom⟩ := taken
      obtain ⟨hstack, hmiddle⟩ := popOperand_eq_ok hright
      obtain ⟨hstack', hbottom⟩ := popOperand_eq_ok hleft
      dsimp only at h
      split at h
      · rename_i type htype
        cases h
        rw [hstack'] at hstack
        rw [hmiddle] at hbottom
        rw [hbottom]
        exact .binary hstack htype
      · cases h

theorem call_eq_ok {c : Context} {s next : State} {count : Nat} (h : s.call c count = .ok next) :
    PlainStep c s (.call count) next none := by
  unfold call at h
  split at h
  · cases h
  · simp only [bind, Except.bind] at h
    split at h
    · cases h
    · rename_i taken htaken
      obtain ⟨args, middle⟩ := taken
      obtain ⟨hstack, rfl, hmiddle⟩ := popOperands_eq_ok htaken
      dsimp only at h
      split at h
      · cases h
      · cases h
      · rename_i callee rest hcallee
        split at h
        · rename_i signature hsignature
          cases h
          rw [hcallee] at hstack
          rw [hmiddle]
          exact .call hstack hsignature
        · split at h
          · cases h
          · cases h

/-- A store declares the variable or assigns to it; in the second case the type may be reported. -/
theorem plainStep_store (c : Context) (name : String) {s : State} {value : Operand} {rest : List Value}
    (hstack : s.stack = .operand value :: rest) :
    ∃ statement, PlainStep c s (.storeLocal name) ({ s with stack := rest }.store name value).1 statement ∧
      StepEvents s.depth statement ({ s with stack := rest }.store name value).2 := by
  cases hscope : s.scope name with
  | none =>
      refine ⟨some (.declare value.type name value.expr), ?_, ?_⟩
      · simp only [store, hscope, emit]
        exact .declare hstack hscope
      · simp only [store, hscope, emit]
        exact stepEvents_intro s.depth (some (.declare value.type name value.expr))
  | some declared =>
      refine ⟨some (.assign name value.expr), ?_, ?_⟩
      · simp only [store, hscope, emit]
        exact .assign hstack hscope
      · simp only [store, hscope, emit]
        -- The value may have another type than the variable, which is reported and then ignored.
        refine ⟨_, rfl, ?_⟩
        intro event hmem
        split at hmem
        · exact absurd hmem List.not_mem_nil
        · exact ⟨name, declared, value.type, List.mem_singleton.mp hmem⟩

theorem leave_eq_ok {c : Context} {s next : State} {events : List Event}
    (h : s.leave c = .ok (next, events)) :
    ∃ statement, PlainStep c s .ret next statement ∧ StepEvents s.depth statement events := by
  unfold leave at h
  split at h
  · rename_i hstack
    simp only [bind, Except.bind] at h
    split at h
    · cases h
    · rename_i recorded hrecorded
      cases h
      obtain ⟨rfl, hreturns⟩ := recordReturn_eq_ok hrecorded
      exact ⟨_, .ret hstack hreturns, stepEvents_intro s.depth (some (.ret none))⟩
  · rename_i hstack
    simp only [bind, Except.bind] at h
    split at h
    · cases h
    · rename_i taken htaken
      obtain ⟨value, middle⟩ := taken
      obtain ⟨hvalue, hmiddle⟩ := popOperand_eq_ok htaken
      dsimp only at h
      split at h
      · cases h
      · rename_i recorded hrecorded
        cases h
        rw [hstack, List.cons.injEq] at hvalue
        rw [← hvalue.2] at hmiddle
        subst hmiddle
        obtain ⟨rfl, hreturns⟩ := recordReturn_eq_ok hrecorded
        rw [hvalue.1] at hstack
        exact ⟨_, .retValue hstack hreturns,
          stepEvents_intro s.depth (some (.ret (some value.expr)))⟩
  · cases h

/-- Lifting an instruction that has no part in the nesting is one of the cases. -/
theorem plainStep_of_step {c : Context} {length index : Nat} {s next : State} {a : Plain}
    {events : List Event} (h : s.step c length index (a.at index) = .ok (next, events)) :
    ∃ statement, PlainStep c s (a.at index) next statement ∧ StepEvents s.depth statement events := by
  cases a with
  | skip =>
      simp only [Plain.at, step, State.jump, Blocks.jump, if_pos, bind, Except.bind] at h
      split at h
      · cases h
      · rename_i hboundary
        cases h
        exact ⟨none, .skip (checkBoundary_eq_ok hboundary), stepEvents_intro s.depth none⟩
  | instruction i =>
      obtain ⟨i, hi⟩ := i
      simp only [Plain.at] at h ⊢
      cases i with
      | jumpIfFalse target => cases hi
      | jump target => cases hi
      | pushConst literal =>
          simp only [step, bind, Except.bind] at h
          split at h
          · cases h
          · rename_i pushed hpushed
            cases h
            exact ⟨none, pushLiteral_eq_ok hpushed, stepEvents_intro s.depth none⟩
      | loadLocal name =>
          simp only [step] at h
          split at h
          · rename_i type hscope
            cases h
            exact ⟨none, .variable hscope (.inl rfl), stepEvents_intro s.depth none⟩
          · cases h
      | loadName name =>
          simp only [step, bind, Except.bind] at h
          split at h
          · rename_i type hscope
            cases h
            exact ⟨none, .variable hscope (.inr rfl), stepEvents_intro s.depth none⟩
          · rename_i hscope
            split at h
            · cases h
            · rename_i pushed hpushed
              cases h
              obtain ⟨callable, hresolve, rfl⟩ := pushFunction_eq_ok hpushed
              exact ⟨none, .callable hresolve (.inr ⟨rfl, hscope⟩), stepEvents_intro s.depth none⟩
      | loadGlobal name =>
          simp only [step, bind, Except.bind] at h
          split at h
          · cases h
          · rename_i pushed hpushed
            cases h
            obtain ⟨callable, hresolve, rfl⟩ := pushFunction_eq_ok hpushed
            exact ⟨none, .callable hresolve (.inl rfl), stepEvents_intro s.depth none⟩
      | storeLocal name =>
          simp only [step, bind, Except.bind] at h
          split at h
          · cases h
          · rename_i taken htaken
            obtain ⟨value, middle⟩ := taken
            obtain ⟨hstack, hmiddle⟩ := popOperand_eq_ok htaken
            rw [hmiddle] at h
            have hstore : { s with stack := middle.stack }.store name value = (next, events) :=
              Except.ok.inj h
            have hplain := plainStep_store c name hstack
            rw [hstore] at hplain
            exact hplain
      | binary op =>
          simp only [step, bind, Except.bind] at h
          split at h
          · cases h
          · rename_i applied happlied
            cases h
            exact ⟨none, applyOperator_eq_ok happlied, stepEvents_intro s.depth none⟩
      | call count =>
          simp only [step, bind, Except.bind] at h
          split at h
          · cases h
          · rename_i called hcalled
            cases h
            exact ⟨none, call_eq_ok hcalled, stepEvents_intro s.depth none⟩
      | pop =>
          simp only [step, bind, Except.bind] at h
          split at h
          · cases h
          · rename_i taken htaken
            obtain ⟨value, middle⟩ := taken
            obtain ⟨hstack, hmiddle⟩ := popOperand_eq_ok htaken
            rw [hmiddle] at h
            cases h
            exact ⟨_, .eval hstack, stepEvents_intro s.depth (some (.eval value.expr))⟩
      | ret => exact leave_eq_ok h

/-- A plain instruction leaves the open bodies as they are. -/
theorem PlainStep.blocks_eq {c : Context} {s next : State} {i : Instruction}
    {statement : Option Statement} (h : PlainStep c s i next statement) : next.blocks = s.blocks := by
  cases h <;> rfl

/-- The statement of a plain instruction does not delimit a body. -/
theorem PlainStep.mark_eq {c : Context} {s next : State} {i : Instruction} {statement : Statement}
    (h : PlainStep c s i next (some statement)) : statement.mark = .leaf statement := by
  cases h <;> rfl

end State

end ShaderLift
