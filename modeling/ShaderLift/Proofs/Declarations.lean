import ShaderLift.Proofs.DataFlowPreservation
import ShaderLift.Proofs.FlatLifting

/-!
# Variables and their declarations

Lifting declares a variable at its first store and knows it from then on, so a line that uses a variable comes after
the line that declares it.

* `State.PlainStep.names_iff`: the variables that an instruction finds on the stack or mentions are those of its line
  and of the stack after it.
* `State.Introduces`: what lines use and declare, between two states of lifting.
* `introduces_of_lift`: the lines of a lifted function use a variable after its only declaration.
-/

namespace ShaderLift

namespace Statement

/-- The variables that a line reads or assigns. -/
def uses : Statement → List String
  | declare _ _ value => value.names
  | assign name value => name :: value.names
  | eval value => value.names
  | ret none => []
  | ret (some value) => value.names
  | openIf condition => condition.names
  | openElse => []
  | close => []

/-- The variable that a line declares. -/
def declared? : Statement → Option String
  | declare _ name _ => some name
  | _ => none

end Statement

/-- Whether an instruction loads or stores a variable of the name. -/
def Instruction.mentions (name : String) : Instruction → Bool
  | loadLocal other | loadName other | storeLocal other => other == name
  | _ => false

/-- The variables that the values on a stack are made from. -/
def stackNames (stack : List Value) : List String :=
  stack.flatMap Value.names

@[simp, grind =] theorem mem_stackNames_cons {name : String} {value : Value} {rest : List Value} :
    name ∈ stackNames (value :: rest) ↔ name ∈ value.names ∨ name ∈ stackNames rest := by
  rw [stackNames, List.flatMap_cons, List.mem_append]
  rfl

@[simp, grind =] theorem stackNames_nil : stackNames [] = [] := rfl

/-- The arguments of a call on the stack. -/
theorem mem_stackNames_args {name : String} {args : List Operand} {rest : List Value} :
    name ∈ stackNames (args.reverse.map .operand ++ rest) ↔
      name ∈ Expr.argNames (args.map Operand.expr) ∨ name ∈ stackNames rest := by
  rw [stackNames, List.flatMap_append, List.mem_append, ← Value.flatten_names]
  simp [stackNames]

/-! ## Lines and declarations in the order of the text -/

/-- The variables that lines declare. -/
def declaredNames (lines : List Line) : List String :=
  lines.filterMap fun line => line.statement.declared?

@[simp] theorem declaredNames_append (before after : List Line) :
    declaredNames (before ++ after) = declaredNames before ++ declaredNames after :=
  List.filterMap_append ..

namespace State

/-- What an instruction takes from the stack or mentions goes into its line or back to the stack. -/
theorem PlainStep.names_iff {c : Context} {s next : State} {i : Instruction} {statement : Option Statement}
    (h : s.PlainStep c i next statement) (name : String) :
    name ∈ stackNames s.stack ∨ i.mentions name = true ∧ (s.scope name).isSome ↔
      name ∈ (statement.map Statement.uses).getD [] ∨ name ∈ stackNames next.stack := by
  cases h with
  | number htype => grind [State.push, Value.names, Expr.names, Instruction.mentions]
  | «variable» hscope hi => grind [State.push, Value.names, Expr.names, Instruction.mentions]
  | callable hresolve hi => grind [State.pushCallable, Value.names, Instruction.mentions]
  | binary hstack htype =>
      rw [hstack]
      grind [State.push, Value.names, Expr.names, Instruction.mentions]
  | call hstack hsignature =>
      rw [hstack, mem_stackNames_args]
      grind [State.push, Value.names, Expr.names, Instruction.mentions]
  | assign hstack hscope =>
      rw [hstack]
      grind [Value.names, Statement.uses, Instruction.mentions]
  | declare hstack hscope =>
      rw [hstack]
      grind [Value.names, Statement.uses, Instruction.mentions]
  | eval hstack =>
      rw [hstack]
      grind [Value.names, Statement.uses, Instruction.mentions]
  | ret hstack hreturns =>
      rw [hstack]
      grind [Statement.uses, Instruction.mentions]
  | retValue hstack hreturns =>
      rw [hstack]
      grind [Value.names, Statement.uses, Instruction.mentions]
  | skip hstack =>
      rw [hstack]
      grind [Instruction.mentions]

/-- The scope grows by the variable that the line declares. -/
theorem PlainStep.scope_iff {c : Context} {s next : State} {i : Instruction} {statement : Option Statement}
    (h : s.PlainStep c i next statement) (name : String) :
    ((next.scope name).isSome ↔ (s.scope name).isSome ∨ statement.bind Statement.declared? = some name) ∧
      (statement.bind Statement.declared? = some name → s.scope name = none) := by
  cases h with
  | @declare stored value rest hstack hscope =>
      by_cases hname : name = stored
      · subst hname
        simp [Statement.declared?, hscope]
      · simp [Statement.declared?, hname, Ne.symm hname]
  | number htype => simp [State.push]
  | «variable» hscope hi => simp [State.push]
  | callable hresolve hi => simp [State.pushCallable]
  | binary hstack htype => simp [State.push]
  | call hstack hsignature => simp [State.push]
  | assign hstack hscope => simp [Statement.declared?]
  | eval hstack => simp [Statement.declared?]
  | ret hstack hreturns => simp [Statement.declared?]
  | retValue hstack hreturns => simp [Statement.declared?]
  | skip hstack => simp

/-- The values on the stack are made from variables that are in scope. -/
def StackInScope (s : State) : Prop :=
  ∀ name ∈ stackNames s.stack, (s.scope name).isSome

/-- What the lines between two states do with variables: they use those that were in scope before or that a line before
them declares, and they declare those that were not, once each. -/
structure Introduces (s : State) (lines : List Line) (next : State) : Prop where
  stack : next.StackInScope
  scope : ∀ name, (next.scope name).isSome ↔ (s.scope name).isSome ∨ name ∈ declaredNames lines
  fresh : ∀ name ∈ declaredNames lines, s.scope name = none
  nodup : (declaredNames lines).Nodup
  uses : ∀ before line after, lines = before ++ line :: after → ∀ name ∈ line.statement.uses,
    (s.scope name).isSome ∨ name ∈ declaredNames before

theorem Introduces.trans {s middle next : State} {before after : List Line} (h : s.Introduces before middle)
    (h' : middle.Introduces after next) : s.Introduces (before ++ after) next where
  stack := h'.stack
  scope name := by rw [h'.scope, h.scope, declaredNames_append, List.mem_append, or_assoc]
  fresh := by
    intro name hname
    rw [declaredNames_append, List.mem_append] at hname
    rcases hname with hname | hname
    · exact h.fresh name hname
    · have hnone := h'.fresh name hname
      have hscope := h.scope name
      rw [hnone] at hscope
      simpa using fun hsome => hscope.mpr (.inl hsome)
  nodup := by
    rw [declaredNames_append, List.nodup_append]
    refine ⟨h.nodup, h'.nodup, ?_⟩
    rintro name hname _ hname' rfl
    have hsome := (h.scope name).mpr (.inr hname)
    rw [h'.fresh name hname'] at hsome
    cases hsome
  uses := by
    intro first line last heq name hname
    rcases append_eq_append_cons heq with ⟨between, hbefore, -⟩ | ⟨between, rfl, hafter⟩
    · exact h.uses first line between hbefore name hname
    · rw [declaredNames_append, List.mem_append, ← or_assoc, ← h.scope]
      exact h'.uses between line last hafter name hname

/-- Lines that neither use nor declare variables. -/
theorem Introduces.of_quiet {s next : State} {lines : List Line} (hs : s.StackInScope)
    (hscope : next.scope = s.scope) (hstack : next.stack = s.stack)
    (hquiet : ∀ line ∈ lines, line.statement.uses = [] ∧ line.statement.declared? = none) :
    s.Introduces lines next := by
  have hnone : declaredNames lines = [] :=
    List.filterMap_eq_nil_iff.mpr fun line hline => (hquiet line hline).2
  refine ⟨?_, ?_, ?_, ?_, ?_⟩
  · intro name hname
    rw [hscope]
    exact hs name (hstack ▸ hname)
  · intro name
    rw [hscope, hnone]
    exact (or_iff_left List.not_mem_nil).symm
  · intro name hname
    rw [hnone] at hname
    exact absurd hname List.not_mem_nil
  · rw [hnone]
    exact List.nodup_nil
  · rintro before line after rfl name hname
    rw [(hquiet line (List.mem_append_right _ List.mem_cons_self)).1] at hname
    exact absurd hname List.not_mem_nil

/-- At most one line. -/
theorem Introduces.of_option {s next : State} (statement : Option Statement) (depth : Nat)
    (hstack : next.StackInScope)
    (hscope : ∀ name, (next.scope name).isSome ↔
      (s.scope name).isSome ∨ statement.bind Statement.declared? = some name)
    (hfresh : ∀ name, statement.bind Statement.declared? = some name → s.scope name = none)
    (huses : ∀ name ∈ (statement.map Statement.uses).getD [], (s.scope name).isSome) :
    s.Introduces (statement.toList.map (Line.mk depth)) next := by
  have hdeclared (name : String) : name ∈ declaredNames (statement.toList.map (Line.mk depth)) ↔
      statement.bind Statement.declared? = some name := by
    cases statement <;> simp [declaredNames]
  refine ⟨hstack, ?_, ?_, ?_, ?_⟩
  · intro name
    rw [hdeclared, hscope]
  · intro name hname
    exact hfresh name ((hdeclared name).mp hname)
  · cases statement with
    | none => exact List.nodup_nil
    | some statement =>
        cases hname : statement.declared? <;> simp [declaredNames, hname]
  · intro before line after heq name hname
    cases statement with
    | none => simp at heq
    | some statement =>
        cases before with
        | nil =>
            cases heq
            exact .inl (huses name hname)
        | cons first before => simp at heq

theorem PlainStep.stackInScope {c : Context} {s next : State} {i : Instruction} {statement : Option Statement}
    (h : s.PlainStep c i next statement) (hs : s.StackInScope) : next.StackInScope := by
  intro name hname
  rw [(h.scope_iff name).1]
  rcases (h.names_iff name).mpr (.inr hname) with hstack | ⟨-, hscope⟩
  · exact .inl (hs name hstack)
  · exact .inl hscope

/-- An instruction whose line uses variables finds them in scope. -/
theorem StepCases.introduces {c : Context} {index : Nat} {s next : State} {i : Instruction} {events : List Event}
    (h : s.StepCases c index i next events) (hs : s.StackInScope) :
    s.Introduces (events.filterMap Event.line?) next := by
  cases h with
  | plain hplain hevents =>
      rw [hevents.filterMap_line?]
      refine .of_option _ _ (hplain.stackInScope hs) (fun name => (hplain.scope_iff name).1)
        (fun name => (hplain.scope_iff name).2) ?_
      intro name hname
      rcases (hplain.names_iff name).mpr (.inl hname) with hstack | ⟨-, hscope⟩
      · exact hs name hstack
      · exact hscope
  | @openIf target condition hstack =>
      refine .of_option (some (.openIf condition)) s.depth ?_ ?_ ?_ ?_
      · intro name hname
        cases hname
      · simp [Statement.declared?]
      · simp [Statement.declared?]
      · intro name hname
        refine hs name ?_
        rw [hstack]
        exact mem_stackNames_cons.mpr (.inl hname)
  | openElse hforward hblocks hstack =>
      refine .of_quiet hs rfl rfl ?_
      intro line hline
      cases List.mem_singleton.mp hline
      exact ⟨rfl, rfl⟩

/-- Every line uses variables that are declared before it or were in scope from the start. -/
theorem introduces_of_liftFrom {c : Context} {length index : Nat} {s last : State} {xs : List Instruction}
    {events : List Event} (h : liftFrom c length index s xs = ⟨events, .ok last⟩) (hs : s.StackInScope) :
    s.Introduces (events.filterMap Event.line?) last := by
  refine relates_of_liftFrom (R := fun s events last => s.StackInScope →
    s.Introduces (events.filterMap Event.line?) last) ?_ ?_ ?_ h hs
  · intro index s next events hclose hs
    obtain ⟨rfl, rfl⟩ := close_cases hclose
    refine .of_quiet hs rfl rfl ?_
    intro line hline
    obtain ⟨event, hevent, heq⟩ := List.mem_filterMap.mp hline
    obtain ⟨line', hline', rfl⟩ := List.mem_map.mp hevent
    cases heq
    rw [mem_closingLines hline']
    exact ⟨rfl, rfl⟩
  · intro index s next i events hcases hstep hs
    exact hcases.introduces hs
  · intro s middle last before after hbefore hafter hs
    rw [List.filterMap_append]
    exact (hbefore hs).trans (hafter (hbefore hs).stack)

end State

/-- The lines of a lifted function use variables that are declared before or are there from the start. -/
theorem introduces_of_lift {d : Dialect} {function : StackFunction} {args : List TypeId} {bound : List Shader}
    {interface : Interface} {events : List Event} {shader : Shader}
    (h : lift d function args bound interface = ⟨events, .ok shader⟩) :
    ∃ last, State.Introduces { scope := initialScope interface (args.zip function.params) } shader.body last := by
  obtain ⟨-, within, last, hbody, rfl, -⟩ := lift_eq_ok_iff.mp h
  obtain ⟨last, before, _, hfrom, hend, rfl⟩ := Run.bind_eq_ok_iff.mp hbody
  obtain ⟨-, -, rfl, rfl⟩ := State.checkEnd_eq_ok_iff.mp hend
  have hlines := State.introduces_of_liftFrom hfrom fun name hname => by cases hname
  rw [List.append_nil]
  exact ⟨last, hlines⟩

end ShaderLift
