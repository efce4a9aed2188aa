import Mathlib.Data.List.Forall2
import ShaderLift.Proofs.FlatLifting

/-!
# Types of the lifted lines

Lifting gives each value on the stack a type when it is pushed, and uses the value later, when more variables are in
scope.  `Expr.type?` derives the type of an expression from a scope alone.  With the variables that are in scope at the
end, every expression of the lifted lines has the type that lifting used.

* `Expr.type?_mono`: an expression keeps its type when the scope grows.
* `State.StepCases.wellTyped`: the values on the stack have their types before and after each instruction.
* `lift_typed`: how the lines of a lifted function are typed.
-/

namespace ShaderLift

/-! ## Deriving types -/

/-- The result of the first signature to whose inputs the arguments convert, one by one. -/
def Callable.result? (callable : Callable) (types : TypeTable) (args : List TypeId) : Option TypeId :=
  (callable.signatures.find? fun s =>
    decide (List.Forall₂ (fun arg input => types.converts arg input = true) args s.inputs)).map (·.result)

namespace Expr

mutual

/-- The type of an expression. -/
def type? (c : Context) (scope : Scope) : Expr → Option TypeId
  | number (.int _) => some (c.prim .int)
  | number (.float _) => some (c.prim .float)
  | var name => scope name
  | binary op left right => do
      let leftType ← left.type? c scope
      let rightType ← right.type? c scope
      (c.types.operatorType op leftType rightType).toOption
  | call callee args => do
      let callable ← c.resolve callee
      let types ← argTypes? c scope args
      callable.result? c.types types

/-- The types of arguments. -/
def argTypes? (c : Context) (scope : Scope) : List Expr → Option (List TypeId)
  | [] => some []
  | arg :: rest => do
      let type ← arg.type? c scope
      let types ← argTypes? c scope rest
      pure (type :: types)

end

end Expr

/-- Arguments are accepted by a signature if they convert to its inputs, one by one. -/
theorem Signature.accepts_iff (s : Signature) (types : TypeTable) (args : List TypeId) :
    s.accepts types args = true ↔
      List.Forall₂ (fun arg input => types.converts arg input = true) args s.inputs := by
  rw [accepts, Bool.and_eq_true, beq_iff_eq, List.all_eq_true, List.forall₂_iff_zip]
  simp only [Prod.forall]

/-- The signature that lifting takes for a call gives the result of the call. -/
theorem Callable.result?_eq_some {callable : Callable} {types : TypeTable} {args : List TypeId}
    {signature : Signature} (h : callable.signature? types args = some signature) :
    callable.result? types args = some signature.result := by
  have haccepts (s : Signature) :
      decide (List.Forall₂ (fun arg input => types.converts arg input = true) args s.inputs) =
        s.accepts types args := by
    rw [Bool.eq_iff_iff, decide_eq_true_iff, s.accepts_iff]
  simp only [result?, haccepts]
  exact congrArg (Option.map (·.result)) h

/-- The second scope has the variables of the first one, of the same types. -/
def Scope.Within (scope scope' : Scope) : Prop :=
  ∀ name type, scope name = some type → scope' name = some type

theorem Scope.Within.refl (scope : Scope) : scope.Within scope :=
  fun _ _ h => h

theorem Scope.Within.trans {scope scope' scope'' : Scope} (h : scope.Within scope')
    (h' : scope'.Within scope'') : scope.Within scope'' :=
  fun name type hname => h' name type (h name type hname)

/-- A new variable leaves the others as they are. -/
theorem Scope.within_declare {scope : Scope} {name : String} (type : TypeId) (h : scope name = none) :
    scope.Within (scope.declare name type) := by
  intro other type' hother
  have hne : other ≠ name := by
    rintro rfl
    rw [h] at hother
    cases hother
  rw [declare_of_ne scope type hne, hother]

namespace Expr

mutual

/-- An expression keeps its type when the scope grows. -/
theorem type?_mono {c : Context} {scope scope' : Scope} (h : scope.Within scope') {type : TypeId} :
    (e : Expr) → e.type? c scope = some type → e.type? c scope' = some type
  | number (.int _), he => he
  | number (.float _), he => he
  | var name, he => h name type he
  | binary op left right, he => by
      simp only [type?, Option.bind_eq_bind, Option.bind_eq_some_iff] at he ⊢
      obtain ⟨leftType, hleft, rightType, hright, hresult⟩ := he
      exact ⟨leftType, type?_mono h left hleft, rightType, type?_mono h right hright, hresult⟩
  | call callee args, he => by
      simp only [type?, Option.bind_eq_bind, Option.bind_eq_some_iff] at he ⊢
      obtain ⟨callable, hcallable, types, htypes, hresult⟩ := he
      exact ⟨callable, hcallable, types, argTypes?_mono h args htypes, hresult⟩

theorem argTypes?_mono {c : Context} {scope scope' : Scope} (h : scope.Within scope')
    {types : List TypeId} :
    (args : List Expr) → argTypes? c scope args = some types → argTypes? c scope' args = some types
  | [], hargs => hargs
  | arg :: rest, hargs => by
      simp only [argTypes?, Option.bind_eq_bind, Option.bind_eq_some_iff] at hargs ⊢
      obtain ⟨type, htype, types', htypes, hcons⟩ := hargs
      exact ⟨type, type?_mono h arg htype, types', argTypes?_mono h rest htypes, hcons⟩

end

theorem argTypes?_map {c : Context} {scope : Scope} {args : List Operand}
    (h : ∀ arg ∈ args, arg.expr.type? c scope = some arg.type) :
    argTypes? c scope (args.map Operand.expr) = some (args.map Operand.type) := by
  induction args with
  | nil => rfl
  | cons arg rest ih =>
      have harg := h arg List.mem_cons_self
      have hrest := ih fun other hmem => h other (List.mem_cons_of_mem _ hmem)
      simp only [List.map_cons, argTypes?, harg, hrest]
      rfl

end Expr

/-! ## Values on the stack -/

/-- What lifting knows about a value on the stack is right: an operand has its type, and a callable is the one that its
name refers to. -/
def Value.WellTyped (c : Context) (scope : Scope) : Value → Prop
  | .operand value => value.expr.type? c scope = some value.type
  | .callable callee => c.resolve callee.name = some callee

/-- All values on the stack are what lifting takes them for. -/
def State.WellTyped (c : Context) (s : State) : Prop :=
  ∀ value ∈ s.stack, value.WellTyped c s.scope

theorem Value.WellTyped.mono {c : Context} {scope scope' : Scope} {value : Value}
    (h : value.WellTyped c scope) (hscope : scope.Within scope') : value.WellTyped c scope' := by
  cases value with
  | operand operand => exact Expr.type?_mono hscope operand.expr h
  | callable callable => exact h

/-- What is known in the first state is known in the second one: the types of variables and of the returns. -/
structure State.Grows (s s' : State) : Prop where
  scope : s.scope.Within s'.scope
  returns : ∀ type, s.returns = some type → s'.returns = some type

theorem State.Grows.trans {s s' s'' : State} (h : s.Grows s') (h' : s'.Grows s'') : s.Grows s'' :=
  ⟨h.scope.trans h'.scope, fun type htype => h'.returns type (h.returns type htype)⟩

namespace State

variable {c : Context} {s next : State} {i : Instruction} {statement : Option Statement}

theorem PlainStep.grows (h : s.PlainStep c i next statement) : s.Grows next := by
  cases h with
  | declare hstack hscope => exact ⟨Scope.within_declare _ hscope, fun _ htype => htype⟩
  | ret hstack hreturns =>
      refine ⟨.refl _, fun type htype => ?_⟩
      rcases hreturns with hnone | hsome
      · rw [hnone] at htype
        cases htype
      · exact hsome.symm.trans htype
  | retValue hstack hreturns =>
      refine ⟨.refl _, fun type htype => ?_⟩
      rcases hreturns with hnone | hsome
      · rw [hnone] at htype
        cases htype
      · exact hsome.symm.trans htype
  | _ => exact ⟨.refl _, fun _ htype => htype⟩

/-- A plain instruction leaves values on the stack that are what lifting takes them for. -/
theorem PlainStep.wellTyped (h : s.PlainStep c i next statement) (hs : s.WellTyped c) :
    next.WellTyped c := by
  have hgrows := h.grows
  -- Only a declaration changes the scope; every other case has to type one new value at most, in the old scope.
  have hpush {type : TypeId} {expr : Expr} {rest : List Value} (htype : expr.type? c s.scope = some type)
      (hrest : ∀ value ∈ rest, value ∈ s.stack) :
      WellTyped c ({ s with stack := rest }.push type expr) := by
    intro value hmem
    rcases List.mem_cons.mp hmem with rfl | hmem
    · exact htype
    · exact hs value (hrest value hmem)
  cases h with
  | @number value type htype =>
      refine hpush ?_ fun _ hmem => hmem
      cases value with
      | int value =>
          rw [Context.numberType?] at htype
          split at htype
          · exact htype
          · cases htype
      | float value => exact htype
  | «variable» hscope hi => exact hpush hscope fun _ hmem => hmem
  | @callable i name callable hresolve hi =>
      intro value hmem
      rcases List.mem_cons.mp hmem with rfl | hmem
      · rw [← Context.name_of_resolve hresolve] at hresolve
        exact hresolve
      · exact hs value hmem
  | @binary op left right rest type hstack htype =>
      rw [WellTyped, hstack] at hs
      have hright : right.expr.type? c s.scope = some right.type := hs (.operand right) (by simp)
      have hleft : left.expr.type? c s.scope = some left.type := hs (.operand left) (by simp)
      refine hpush ?_ fun value hmem => by rw [hstack]; simp [hmem]
      simp only [Expr.type?, hleft, hright, Option.bind_eq_bind, Option.bind_some, htype]
      rfl
  | @call args callee rest signature hstack hsignature =>
      rw [WellTyped, hstack] at hs
      have hcallee : c.resolve callee.name = some callee := hs (.callable callee) (by simp)
      have hargs : ∀ arg ∈ args, arg.expr.type? c s.scope = some arg.type := by
        intro arg hmem
        exact hs (.operand arg) (by simp [hmem])
      refine hpush ?_ fun value hmem => by rw [hstack]; simp [hmem]
      simp only [Expr.type?, hcallee, Expr.argTypes?_map hargs, Option.bind_eq_bind, Option.bind_some,
        Callable.result?_eq_some hsignature]
  | assign hstack hscope =>
      intro value hmem
      exact hs value (by rw [hstack]; exact List.mem_cons_of_mem _ hmem)
  | declare hstack hscope =>
      intro value hmem
      exact (hs value (by rw [hstack]; exact List.mem_cons_of_mem _ hmem)).mono hgrows.scope
  | eval hstack =>
      intro value hmem
      exact hs value (by rw [hstack]; exact List.mem_cons_of_mem _ hmem)
  | ret hstack hreturns => exact hs
  | retValue hstack hreturns => exact fun value hmem => absurd hmem List.not_mem_nil
  | skip hstack => exact hs

end State

/-! ## Lines -/

/-- The type that a function returns which has come to its end. -/
def State.result (c : Context) (s : State) : TypeId :=
  s.returns.getD (c.prim .void)

/-- How a statement is typed in a function that ends in the state `last`.  `report` is what was reported right before
the statement was added. -/
def Statement.Typed (c : Context) (last : State) (report : Option Event) : Statement → Prop
  | declare type name value => last.scope name = some type ∧ value.type? c last.scope = some type
  | assign name value => ∃ declared assigned,
      last.scope name = some declared ∧ value.type? c last.scope = some assigned ∧
        (declared = assigned ∨ report = some (.retyped name declared assigned))
  | eval value => ∃ type, value.type? c last.scope = some type
  | ret (some value) => value.type? c last.scope = some (last.result c)
  | ret none => last.result c = c.prim .void
  | openIf condition => condition.type? c last.scope = some (c.prim .bool)
  | openElse => True
  | close => True

/-- Every line that the events add is typed. -/
def Event.LinesTyped (c : Context) (last : State) (events : List Event) : Prop :=
  ∀ before line after, events = before ++ .emitted line :: after →
    line.statement.Typed c last before.getLast?

theorem Statement.Typed.of_none {c : Context} {last : State} {statement : Statement}
    (h : statement.Typed c last none) (report : Option Event) : statement.Typed c last report := by
  cases statement with
  | assign name value =>
      obtain ⟨declared, assigned, hdeclared, hassigned, heq | hreport⟩ := h
      · exact ⟨declared, assigned, hdeclared, hassigned, .inl heq⟩
      · cases hreport
  | ret value => cases value <;> exact h
  | _ => exact h

namespace Event.LinesTyped

variable {c : Context} {last : State}

/-- Lines that need no report are typed wherever they stand. -/
theorem of_forall {events : List Event}
    (h : ∀ line, .emitted line ∈ events → line.statement.Typed c last none) :
    LinesTyped c last events := by
  rintro before line after rfl
  exact (h line (by simp)).of_none _

theorem append {first second : List Event} (hfirst : LinesTyped c last first)
    (hsecond : LinesTyped c last second) : LinesTyped c last (first ++ second) := by
  intro before line after h
  rcases append_eq_append_cons h with ⟨between, hbetween, -⟩ | ⟨between, rfl, hbetween⟩
  · exact hfirst before line between hbetween
  · have htyped := hsecond between line after hbetween
    -- The report stands right before the line, so it is in the second list too, unless the line comes first there.
    rw [List.getLast?_append]
    cases hlast : between.getLast? with
    | none =>
        rw [hlast] at htyped
        exact htyped.of_none _
    | some event =>
        rw [hlast] at htyped
        exact htyped

end Event.LinesTyped

namespace State

variable {c : Context} {length index : Nat} {s next last : State} {i : Instruction} {events : List Event}

/-- A line that a plain instruction adds holds its statement. -/
theorem StepEvents.eq_of_emitted {depth : Nat} {statement : Option Statement} {before after : List Event}
    {line : Line} (h : StepEvents depth statement (before ++ .emitted line :: after)) :
    statement = some line.statement := by
  have hline : line ∈ (before ++ .emitted line :: after).filterMap Event.line? := by
    simp [Event.line?]
  rw [h.filterMap_line?] at hline
  obtain ⟨statement', hmem, rfl⟩ := List.mem_map.mp hline
  exact Option.mem_toList.mp hmem

/-- A value of another type than the variable has is reported right before the assignment. -/
theorem step_storeLocal_report {name : String} {value : Operand} {rest : List Value} {declared : TypeId}
    (h : s.step c length index (.storeLocal name) = .ok (next, events))
    (hstack : s.stack = .operand value :: rest) (hscope : s.scope name = some declared)
    (hne : declared ≠ value.type) :
    events = [.retyped name declared value.type, .emitted ⟨s.depth, .assign name value.expr⟩] := by
  simp only [step, popOperand, hstack, bind, Except.bind, pure, Except.pure, store, hscope, emit,
    if_neg hne] at h
  exact (Prod.mk.inj (Except.ok.inj h)).2.symm

/-- The statement of a plain instruction is typed, if a changed type was reported. -/
theorem PlainStep.typed {statement : Statement} (h : s.PlainStep c i next (some statement))
    (hs : s.WellTyped c) (hlast : next.Grows last) {report : Option Event}
    (hreport : ∀ name declared value rest, i = .storeLocal name → s.scope name = some declared →
      s.stack = .operand value :: rest →
        declared = value.type ∨ report = some (.retyped name declared value.type)) :
    statement.Typed c last report := by
  have hgrows := h.grows.trans hlast
  have htop {value : Operand} {rest : List Value} (hstack : s.stack = .operand value :: rest) :
      value.expr.type? c last.scope = some value.type := by
    have hvalue : Value.WellTyped c s.scope (.operand value) := hs _ (by rw [hstack]; exact List.mem_cons_self)
    exact hvalue.mono hgrows.scope
  cases h with
  | @assign name value rest declared hstack hscope =>
      exact ⟨declared, value.type, hgrows.scope name declared hscope, htop hstack,
        hreport name declared value rest rfl hscope hstack⟩
  | @declare name value rest hstack hscope =>
      exact ⟨hlast.scope name value.type (Scope.declare_self _ _ _), htop hstack⟩
  | @eval value rest hstack => exact ⟨value.type, htop hstack⟩
  | ret hstack hreturns =>
      show last.returns.getD (c.prim .void) = c.prim .void
      rw [hlast.returns _ rfl, Option.getD_some]
  | @retValue value hstack hreturns =>
      show value.expr.type? c last.scope = some (last.returns.getD (c.prim .void))
      rw [hlast.returns _ rfl, Option.getD_some]
      exact htop hstack

/-- The lines of an instruction are typed. -/
theorem StepCases.linesTyped (h : s.StepCases c index i next events)
    (hstep : s.step c length index i = .ok (next, events)) (hs : s.WellTyped c) (hlast : next.Grows last) :
    Event.LinesTyped c last events := by
  cases h with
  | @plain a next statement events hplain hevents =>
      rintro before line after rfl
      cases hevents.eq_of_emitted
      apply hplain.typed hs hlast
      intro name declared value rest hi hscope hstack
      by_cases hsame : declared = value.type
      · exact .inl hsame
      · rw [hi] at hstep
        have hreport := step_storeLocal_report hstep hstack hscope hsame
        -- The report and the line are all there is, so the report is what stands before the line.
        rcases before with _ | ⟨first, _ | ⟨second, before⟩⟩
        · cases hreport
        · cases hreport
          exact .inr rfl
        · have hlength := congrArg List.length hreport
          simp at hlength
  | @openIf target condition hstack =>
      apply Event.LinesTyped.of_forall
      intro line hmem
      cases List.mem_singleton.mp hmem
      have hcondition : Value.WellTyped c s.scope (.operand ⟨c.prim .bool, condition⟩) :=
        hs _ (by rw [hstack]; exact List.mem_cons_self)
      exact hcondition.mono hlast.scope
  | openElse hforward hblocks hstack =>
      apply Event.LinesTyped.of_forall
      intro line hmem
      cases List.mem_singleton.mp hmem
      trivial

/-- What is known before an instruction is known after it. -/
theorem StepCases.grows (h : s.StepCases c index i next events) : s.Grows next := by
  cases h with
  | plain hplain hevents => exact hplain.grows
  | openIf hstack => exact ⟨.refl _, fun _ htype => htype⟩
  | openElse hforward hblocks hstack => exact ⟨.refl _, fun _ htype => htype⟩

/-- The values on the stack are what lifting takes them for, before and after each instruction. -/
theorem StepCases.wellTyped (h : s.StepCases c index i next events) (hs : s.WellTyped c) :
    next.WellTyped c := by
  cases h with
  | plain hplain hevents => exact hplain.wellTyped hs
  | openIf hstack => exact fun value hmem => absurd hmem List.not_mem_nil
  | openElse hforward hblocks hstack => exact hs

/-- A run from a state with well-typed values adds typed lines and ends with well-typed values. -/
theorem typed_of_liftFrom {xs : List Instruction}
    (h : liftFrom c length index s xs = ⟨events, .ok next⟩) (hs : s.WellTyped c) :
    next.WellTyped c ∧ s.Grows next ∧ ∀ last, next.Grows last → Event.LinesTyped c last events := by
  refine relates_of_liftFrom (R := fun s events next => s.WellTyped c → next.WellTyped c ∧ s.Grows next ∧
    ∀ last, next.Grows last → Event.LinesTyped c last events) ?_ ?_ ?_ h hs
  · intro index s next events hclose hs
    obtain ⟨rfl, rfl⟩ := close_cases hclose
    refine ⟨hs, ⟨.refl _, fun _ htype => htype⟩, fun last _ => .of_forall fun line hmem => ?_⟩
    obtain ⟨line', hline', heq⟩ := List.mem_map.mp hmem
    cases heq
    rw [mem_closingLines hline']
    trivial
  · intro index s next i events hcases hstep hs
    refine ⟨hcases.wellTyped hs, hcases.grows, fun last hlast => ?_⟩
    have hreport : Event.LinesTyped c last [.visited index i s.depth] :=
      .of_forall fun line hmem => by cases List.mem_singleton.mp hmem
    exact hreport.append (hcases.linesTyped hstep hs hlast)
  · intro s middle next before after hbefore hafter hs
    obtain ⟨hmiddle, hgrows, hlines⟩ := hbefore hs
    obtain ⟨hnext, hgrows', hlines'⟩ := hafter hmiddle
    refine ⟨hnext, hgrows.trans hgrows', fun last hlast => ?_⟩
    exact (hlines last (hgrows'.trans hlast)).append (hlines' last hlast)

end State

/-! ## Whole functions -/

/-- With the variables that are in scope at its end, the lines of a lifted function are typed: declarations by the type
that they name, assignments by the type of the variable unless a change of type was reported, conditions by `bool`
and returns by the result of the function. -/
theorem lift_typed {d : Dialect} {function : StackFunction} {args : List TypeId} {bound : List Shader}
    {interface : Interface} {events : List Event} {shader : Shader}
    (h : lift d function args bound interface = ⟨events, .ok shader⟩) :
    ∃ last, (State.liftBody (.ofDialect d bound) (initialScope interface (args.zip function.params))
        function.body).outcome = .ok last ∧
      shader.body = events.filterMap Event.line? ∧ shader.result = last.result (.ofDialect d bound) ∧
      ∀ before line after, events = before ++ .emitted line :: after →
        line.statement.Typed (.ofDialect d bound) last before.getLast? := by
  obtain ⟨-, within, last, hbody, rfl, rfl⟩ := lift_eq_ok_iff.mp h
  obtain ⟨last', _, _, hlift, hend, rfl⟩ := Run.bind_eq_ok_iff.mp hbody
  obtain ⟨-, -, rfl, rfl⟩ := State.checkEnd_eq_ok_iff.mp hend
  have hstart : State.WellTyped (.ofDialect d bound)
      { scope := initialScope interface (args.zip function.params) } :=
    fun value hmem => absurd hmem List.not_mem_nil
  obtain ⟨-, -, hlines⟩ := State.typed_of_liftFrom hlift hstart
  refine ⟨last, by rw [hbody], ?_, rfl, ?_⟩
  · rw [List.filterMap_cons_none rfl, List.append_nil, List.filterMap_append, List.filterMap_cons_none rfl,
      List.filterMap_nil, List.append_nil]
    rfl
  · have hstarted : Event.LinesTyped (.ofDialect d bound) last [.started function.name] :=
      .of_forall fun line hmem => by cases List.mem_singleton.mp hmem
    have hfinished (result : TypeId) (lines dependencies : Nat) :
        Event.LinesTyped (.ofDialect d bound) last [.finished result lines dependencies] :=
      .of_forall fun line hmem => by cases List.mem_singleton.mp hmem
    rw [List.append_nil]
    exact hstarted.append ((hlines last ⟨.refl _, fun _ htype => htype⟩).append (hfinished _ _ _))

/-- A function that gives a variable a value of another type than it was declared with. -/
def retyping : StackFunction where
  name := "f"
  params := ["x"]
  body :=
    [.loadLocal "x", .storeLocal "y", .pushConst (.number (.float ⟨0x3ff8000000000000⟩)), .storeLocal "y",
      .loadLocal "y", .ret]

set_option maxRecDepth 4000 in
theorem lift_typed_retyping :
    ∃ before after shader last,
      lift .standard retyping [.pos 2] [] {} =
        ⟨before ++ .emitted ⟨1, .assign "y" (.number (.float ⟨0x3ff8000000000000⟩))⟩ :: after, .ok shader⟩ ∧
      before.getLast? = some (.retyped "y" (.pos 2) (.pos 3)) ∧
      Statement.Typed (.ofDialect .standard []) last before.getLast?
        (.assign "y" (.number (.float ⟨0x3ff8000000000000⟩))) := by
  have hok : (lift .standard retyping [.pos 2] [] {}).outcome.toOption.isSome := by decide +kernel
  have hevents : (lift .standard retyping [.pos 2] [] {}).events =
      [.started "f", .visited 0 (.loadLocal "x") 1, .visited 1 (.storeLocal "y") 1,
        .emitted ⟨1, .declare (.pos 2) "y" (.var "x")⟩,
        .visited 2 (.pushConst (.number (.float ⟨0x3ff8000000000000⟩))) 1, .visited 3 (.storeLocal "y") 1,
        .retyped "y" (.pos 2) (.pos 3)] ++
      .emitted ⟨1, .assign "y" (.number (.float ⟨0x3ff8000000000000⟩))⟩ ::
        [.visited 4 (.loadLocal "y") 1, .visited 5 .ret 1, .emitted ⟨1, .ret (some (.var "y"))⟩,
          .finished (.pos 2) 3 0] := by rfl
  obtain ⟨shader, hshader⟩ := Run.exists_ok_of_isSome hok
  have hlift : lift .standard retyping [.pos 2] [] {} =
      ⟨(lift .standard retyping [.pos 2] [] {}).events, .ok shader⟩ := congrArg (Run.mk _) hshader
  rw [hevents] at hlift
  obtain ⟨last, -, -, -, htyped⟩ := lift_typed hlift
  exact ⟨_, _, shader, last, hlift, rfl, htyped _ _ _ rfl⟩

end ShaderLift
