import ShaderLift.Proofs.DeclaredOnce

/-!
# Values of type `void`

In the standard dialect only calls of bound shaders give values of type `void`.  No operator and no condition takes such
a value, but lifting lets it be stored and returned, which the shading language does not.  Whether a function does that
can be told from its instructions and from the names of the shaders that give `void`.

* `Statement.KeepsVoid`: a line gives a variable or the caller a value of type `void`.
* `dropsVoid`: no store and no return of the instructions takes the result of a call that gives `void`.
* `State.PlainStep.held_eq`, `State.PlainStep.keepsVoid_iff`: what one instruction does.
* `State.keepsVoid_iff_of_liftFrom`: the lines of a run keep no value of type `void` if and only if its instructions drop
  all of them.
* `lift_keeps_no_void_iff`: the same for whole functions.
* `lift_stored_void`: a function that stores and returns what a shader without a result gives.
-/

namespace ShaderLift

/-- The value that a statement gives to a variable or to the caller. -/
def Statement.kept? : Statement → Option Expr
  | declare _ _ value => some value
  | assign _ value => some value
  | ret value => value
  | _ => none

/-- The statement gives a variable or the caller a value of type `void`. -/
def Statement.KeepsVoid (c : Context) (scope : Scope) (statement : Statement) : Prop :=
  ∃ value, statement.kept? = some value ∧ value.type? c scope = some (c.prim .void)

theorem Statement.not_keepsVoid {statement : Statement} (h : statement.kept? = none) (c : Context) (scope : Scope) :
    ¬ statement.KeepsVoid c scope := by
  rintro ⟨value, hvalue, -⟩
  cases h.symm.trans hvalue

/-! ## What the instructions say about the stack -/

/-- What an entry of the stack is: something to call, or a value, which may be of type `void`. -/
inductive Held where
  | function (name : String)
  | value (isVoid : Bool)
deriving DecidableEq, Repr

/-- What is on the stack after an instruction.  `isVoid` says which functions give `void`, and `known` which names are
variables; these are never of type `void`. -/
def Instruction.held (isVoid known : String → Bool) (stack : List Held) : Instruction → List Held
  | pushConst _ => .value false :: stack
  | loadLocal _ => .value false :: stack
  | loadName name => (if known name then .value false else .function name) :: stack
  | loadGlobal name => .function name :: stack
  | storeLocal _ => stack.tail
  | binary _ => .value false :: stack.drop 2
  | call count =>
      match stack.drop count with
      | .function name :: rest => .value (isVoid name) :: rest
      | rest => rest
  | pop => stack.tail
  | ret => []
  | jumpIfFalse _ => stack.tail
  | jump _ => stack

/-- Whether an instruction keeps the value that it takes. -/
def Instruction.isKeeping : Instruction → Bool
  | storeLocal _ => true
  | ret => true
  | _ => false

/-- Whether an instruction stores or returns a value of type `void`. -/
def Instruction.keepsVoid (stack : List Held) (i : Instruction) : Bool :=
  i.isKeeping && stack.head? == some (.value true)

/-- Whether no instruction stores or returns a value of type `void`.  Jumps find the stack empty, up to the condition,
so the order of the instructions is all that counts. -/
def dropsVoid (isVoid : String → Bool) : (String → Bool) → List Held → List Instruction → Bool
  | _, _, [] => true
  | known, stack, i :: rest =>
      !i.keepsVoid stack &&
        dropsVoid isVoid (fun name => known name || i == .storeLocal name) (i.held isVoid known stack) rest

/-- Without functions that give `void`, an instruction leaves no value of type `void`. -/
theorem Instruction.not_mem_held {isVoid : String → Bool} (hnever : ∀ name, isVoid name = false)
    (known : String → Bool) {stack : List Held} (h : .value true ∉ stack) (i : Instruction) :
    .value true ∉ i.held isVoid known stack := by
  cases i with
  | loadName name =>
      rw [held]
      split <;> simp [h]
  | storeLocal name => exact fun hmem => h (List.mem_of_mem_tail hmem)
  | binary op =>
      rw [held, List.mem_cons, not_or]
      exact ⟨by simp, fun hmem => h (List.mem_of_mem_drop hmem)⟩
  | call count =>
      have hdrop : .value true ∉ stack.drop count := fun hmem => h (List.mem_of_mem_drop hmem)
      rw [held]
      split
      · rename_i name rest hrest
        rw [hrest] at hdrop
        simpa [hnever] using hdrop
      · exact hdrop
  | pop => exact fun hmem => h (List.mem_of_mem_tail hmem)
  | ret => exact List.not_mem_nil
  | jumpIfFalse target => exact fun hmem => h (List.mem_of_mem_tail hmem)
  | jump target => exact h
  | _ => simp [held, h]

/-- Without functions that give `void`, there is nothing to drop. -/
theorem dropsVoid_of_never {isVoid : String → Bool} (hnever : ∀ name, isVoid name = false) {known : String → Bool}
    {stack : List Held} (h : .value true ∉ stack) (xs : List Instruction) : dropsVoid isVoid known stack xs = true := by
  induction xs generalizing known stack with
  | nil => rfl
  | cons i xs ih =>
      have hhead : stack.head? ≠ some (.value true) := fun hhead => h (List.mem_of_mem_head? hhead)
      rw [dropsVoid, ih (i.not_mem_held hnever known h), Instruction.keepsVoid, beq_false_of_ne hhead, Bool.and_false]
      rfl

/-! ## What lifting knows about the stack -/

/-- What an entry of the stack of lifting is. -/
def Value.held (c : Context) : Value → Held
  | .operand value => .value (decide (value.type = c.prim .void))
  | .callable callee => .function callee.name

/-- What is on the stack of lifting. -/
def State.held (c : Context) (s : State) : List Held :=
  s.stack.map (Value.held c)

/-- Whether a name is a variable. -/
def State.known (s : State) (name : String) : Bool :=
  (s.scope name).isSome

/-- No variable is of type `void`. -/
def Scope.NoVoid (c : Context) (scope : Scope) : Prop :=
  ∀ name type, scope name = some type → type ≠ c.prim .void

/-- Values of type `void` come from calls only, and `isVoid` says from which. -/
structure Context.VoidCalls (c : Context) (isVoid : String → Bool) : Prop where
  number : ∀ value type, c.numberType? value = some type → type ≠ c.prim .void
  operator : ∀ op left right type, c.types.operatorType op left right = .ok type → type ≠ c.prim .void
  call : ∀ name callable, c.resolve name = some callable → ∀ signature ∈ callable.signatures,
    signature.result = c.prim .void ↔ isVoid name = true

namespace State

variable {c : Context} {isVoid : String → Bool} {index length : Nat} {s next last : State} {i : Instruction}
  {statement : Option Statement} {events : List Event}

/-- A plain instruction leaves on the stack of lifting what the instructions say. -/
theorem PlainStep.held_eq (h : s.PlainStep c i next statement) (hc : c.VoidCalls isVoid) (hs : s.WellTyped c)
    (hscope : s.scope.NoVoid c) : next.held c = i.held isVoid s.known (s.held c) := by
  have hpush {type : TypeId} (expr : Expr) (htype : type ≠ c.prim .void) (rest : List Value) :
      ({ s with stack := rest }.push type expr).held c = .value false :: rest.map (Value.held c) := by
    rw [← decide_eq_false htype]
    rfl
  cases h with
  | @number value type htype => exact hpush (.number value) (hc.number value type htype) s.stack
  | @«variable» i name type hname hi =>
      have hknown : s.known name = true := by rw [known, hname, Option.isSome_some]
      have hvalue := hpush (.var name) (hscope name type hname) s.stack
      rcases hi with rfl | rfl
      · exact hvalue
      · rw [Instruction.held, if_pos hknown]
        exact hvalue
  | @callable i name callable hresolve hi =>
      have hname : callable.name = name := Context.name_of_resolve hresolve
      have hvalue : (s.pushCallable callable).held c = .function name :: s.held c := by
        rw [← hname]
        rfl
      rcases hi with rfl | ⟨rfl, hnone⟩
      · exact hvalue
      · have hunknown : ¬ s.known name = true := by rw [known, hnone]; simp
        rw [Instruction.held, if_neg hunknown]
        exact hvalue
  | @binary op left right rest type hstack htype =>
      rw [hpush _ (hc.operator op left.type right.type type htype), held, hstack]
      rfl
  | @call args callee rest signature hstack hsignature =>
      have hcallee : c.resolve callee.name = some callee :=
        hs (.callable callee) (by rw [hstack]; simp)
      have hvoid := hc.call callee.name callee hcallee signature (List.mem_of_find?_eq_some hsignature)
      -- The arguments stand above the function, so that dropping as many leaves the function on top.
      have hcount : args.length = ((args.reverse.map Value.operand).map (Value.held c)).length := by simp
      have hrest : (s.held c).drop args.length = .function callee.name :: rest.map (Value.held c) := by
        rw [held, hstack, List.map_append, hcount, List.drop_left' rfl]
        rfl
      have hresult : decide (signature.result = c.prim .void) = isVoid callee.name := by
        rw [Bool.eq_iff_iff, decide_eq_true_iff, hvoid]
      rw [Instruction.held, hrest]
      show Held.value (decide (signature.result = c.prim .void)) :: rest.map (Value.held c) = _
      rw [hresult]
  | assign hstack hdeclared =>
      rw [held, held, hstack]
      rfl
  | declare hstack hundeclared =>
      rw [held, held, hstack]
      rfl
  | eval hstack =>
      rw [held, held, hstack]
      rfl
  | ret hstack hreturns =>
      rw [held, hstack]
      rfl
  | retValue hstack hreturns => rfl
  | skip hstack => rfl

/-- A plain instruction makes a variable of what it stores, and of nothing else. -/
theorem PlainStep.known_eq (h : s.PlainStep c i next statement) :
    next.known = fun name => s.known name || i == .storeLocal name := by
  funext name
  have hsame (hstore : i ≠ .storeLocal name) : s.known name = (s.known name || i == .storeLocal name) := by
    rw [beq_false_of_ne hstore, Bool.or_false]
  cases h with
  | @«variable» i other type hname hi => rcases hi with rfl | rfl <;> exact hsame (by simp)
  | @callable i other callable hresolve hi => rcases hi with rfl | ⟨rfl, -⟩ <;> exact hsame (by simp)
  | @assign stored value rest declared hstack hdeclared =>
      by_cases hname : name = stored
      · subst hname
        show s.known name = _
        rw [known, hdeclared]
        rfl
      · exact hsame fun heq => hname (Instruction.storeLocal.inj heq).symm
  | @declare stored value rest hstack hundeclared =>
      show ((s.scope.declare stored value.type) name).isSome = _
      by_cases hname : name = stored
      · subst hname
        rw [Scope.declare_self, beq_self_eq_true, Bool.or_true]
        rfl
      · rw [Scope.declare_of_ne _ _ hname]
        exact hsame fun heq => hname (Instruction.storeLocal.inj heq).symm
  | _ => exact hsame (by simp)

/-- A store or a return keeps a value of type `void` if and only if it finds one on top of the stack. -/
theorem keepsVoid_held_iff {value : Operand} {rest : List Value} (hkeeping : i.isKeeping = true)
    (hstack : s.stack = .operand value :: rest) : i.keepsVoid (s.held c) = true ↔ value.type = c.prim .void := by
  have hhead : (s.held c).head? = some (.value (decide (value.type = c.prim .void))) := by
    rw [held, hstack]
    rfl
  rw [Instruction.keepsVoid, hkeeping, Bool.true_and, hhead, beq_iff_eq, Option.some_inj, Held.value.injEq,
    decide_eq_true_iff]

/-- The line of a plain instruction keeps a value of type `void` if and only if the instruction does. -/
theorem PlainStep.keepsVoid_iff (h : s.PlainStep c i next statement) (hs : s.WellTyped c) (hlast : next.Grows last) :
    (∃ line, statement = some line ∧ line.KeepsVoid c last.scope) ↔ i.keepsVoid (s.held c) = true := by
  have hnone (hkeeping : i.isKeeping = false) (hkept : ∀ line, statement = some line → line.kept? = none) :
      (∃ line, statement = some line ∧ line.KeepsVoid c last.scope) ↔ i.keepsVoid (s.held c) = true := by
    rw [Instruction.keepsVoid, hkeeping, Bool.false_and]
    refine ⟨?_, Bool.noConfusion⟩
    rintro ⟨line, hline, hvoid⟩
    exact absurd hvoid (Statement.not_keepsVoid (hkept line hline) c last.scope)
  have hkeep {value : Operand} {rest : List Value} {line : Statement} (hkeeping : i.isKeeping = true)
      (hstack : s.stack = .operand value :: rest) (hkept : line.kept? = some value.expr) :
      (∃ line', some line = some line' ∧ line'.KeepsVoid c last.scope) ↔ i.keepsVoid (s.held c) = true := by
    -- The value has the type that lifting gave it, also with the variables that are declared later.
    have htop : value.expr.type? c last.scope = some value.type :=
      (hs (.operand value) (by rw [hstack]; exact List.mem_cons_self)).mono (h.grows.trans hlast).scope
    rw [keepsVoid_held_iff hkeeping hstack]
    simp only [Statement.KeepsVoid, Option.some.injEq, exists_eq_left', hkept, htop]
  cases h with
  | @«variable» i name type hname hi =>
      rcases hi with rfl | rfl <;> exact hnone rfl fun line hline => by cases hline
  | @callable i name callable hresolve hi =>
      rcases hi with rfl | ⟨rfl, -⟩ <;> exact hnone rfl fun line hline => by cases hline
  | assign hstack hdeclared => exact hkeep rfl hstack rfl
  | declare hstack hundeclared => exact hkeep rfl hstack rfl
  | retValue hstack hreturns => exact hkeep rfl hstack rfl
  | eval hstack => exact hnone rfl fun line hline => by cases hline; rfl
  | ret hstack hreturns =>
      -- A return takes nothing from an empty stack.
      rw [Instruction.keepsVoid, held, hstack]
      refine ⟨?_, Bool.noConfusion⟩
      rintro ⟨line, hline, hvoid⟩
      cases hline
      exact absurd hvoid (Statement.not_keepsVoid rfl c last.scope)
  | _ => exact hnone rfl fun line hline => by cases hline

/-- An instruction that keeps no value of type `void` declares no variable of this type. -/
theorem PlainStep.noVoid (h : s.PlainStep c i next statement) (hscope : s.scope.NoVoid c)
    (hkeeps : i.keepsVoid (s.held c) = false) : next.scope.NoVoid c := by
  cases h with
  | @declare stored value rest hstack hundeclared =>
      have hvalue : value.type ≠ c.prim .void := by
        intro hvoid
        cases hkeeps.symm.trans ((keepsVoid_held_iff rfl hstack).mpr hvoid)
      intro name type htype
      by_cases hname : name = stored
      · subst hname
        rwa [← Option.some.inj ((Scope.declare_self _ _ _).symm.trans htype)]
      · exact hscope name type ((Scope.declare_of_ne _ _ hname).symm.trans htype)
  | _ => exact hscope

/-- The lines of an instruction keep a value of type `void` if and only if the instruction does. -/
theorem StepCases.keepsVoid_iff (h : s.StepCases c index i next events) (hs : s.WellTyped c)
    (hlast : next.Grows last) :
    (∃ line ∈ events.filterMap Event.line?, line.statement.KeepsVoid c last.scope) ↔
      i.keepsVoid (s.held c) = true := by
  have hnone (line : Line) (hkept : line.statement.kept? = none) :
      ¬ ∃ line' ∈ [line], line'.statement.KeepsVoid c last.scope := by
    rintro ⟨line', hmem, hvoid⟩
    cases List.mem_singleton.mp hmem
    exact Statement.not_keepsVoid hkept c last.scope hvoid
  cases h with
  | plain hplain hevents =>
      rw [← hplain.keepsVoid_iff hs hlast, hevents.filterMap_line?]
      simp
  | openIf hstack => exact ⟨fun hline => absurd hline (hnone _ rfl), Bool.noConfusion⟩
  | openElse hforward hblocks hstack => exact ⟨fun hline => absurd hline (hnone _ rfl), Bool.noConfusion⟩

/-- An instruction that keeps no value of type `void` is followed by what the instructions say: the entries of the
stack, the names of the variables, and none of these of type `void`. -/
theorem StepCases.follows (h : s.StepCases c index i next events) (hc : c.VoidCalls isVoid) (hs : s.WellTyped c)
    (hscope : s.scope.NoVoid c) (hkeeps : i.keepsVoid (s.held c) = false) :
    next.held c = i.held isVoid s.known (s.held c) ∧
      (next.known = fun name => s.known name || i == .storeLocal name) ∧ next.scope.NoVoid c := by
  cases h with
  | plain hplain hevents => exact ⟨hplain.held_eq hc hs hscope, hplain.known_eq, hplain.noVoid hscope hkeeps⟩
  | openIf hstack =>
      refine ⟨by rw [held, held, hstack]; rfl, ?_, hscope⟩
      funext name
      exact (Bool.or_false _).symm
  | openElse hforward hblocks hstack =>
      refine ⟨rfl, ?_, hscope⟩
      funext name
      exact (Bool.or_false _).symm

/-- The lines of a run keep no value of type `void` if and only if the instructions drop all of them. -/
theorem keepsVoid_iff_of_liftFrom {xs : List Instruction} {final : State} (hc : c.VoidCalls isVoid)
    (h : liftFrom c length index s xs = ⟨events, .ok last⟩) (hs : s.WellTyped c) (hscope : s.scope.NoVoid c)
    (hfinal : last.Grows final) :
    (∀ line ∈ events.filterMap Event.line?, ¬ line.statement.KeepsVoid c final.scope) ↔
      dropsVoid isVoid s.known (s.held c) xs = true := by
  have hclosing (index : Nat) (blocks : Blocks) :
      ∀ line ∈ ((closingLines index blocks).map Event.emitted).filterMap Event.line?,
        ¬ line.statement.KeepsVoid c final.scope := by
    intro line hmem
    rw [List.filterMap_map] at hmem
    obtain ⟨line', hline', heq⟩ := List.mem_filterMap.mp hmem
    cases heq
    exact Statement.not_keepsVoid (by rw [mem_closingLines hline']; rfl) c final.scope
  induction xs generalizing index s events with
  | nil =>
      obtain ⟨-, rfl⟩ := close_cases h
      exact iff_of_true (hclosing index s.blocks) rfl
  | cons i xs ih =>
      obtain ⟨closed, _, _, hclosed, hvisited, rfl⟩ := Run.bind_eq_ok_iff.mp h
      obtain ⟨next, _, _, hnext, hrest, rfl⟩ := Run.bind_eq_ok_iff.mp hvisited
      obtain ⟨now, hstep, rfl⟩ := visit_eq_ok hnext
      obtain ⟨rfl, rfl⟩ := close_cases hclosed
      have hcases := step_cases hstep
      have hnextTyped := hcases.wellTyped hs
      obtain ⟨-, hgrows, -⟩ := typed_of_liftFrom hrest hnextTyped
      have hfirst := hcases.keepsVoid_iff hs (hgrows.trans hfinal)
      rw [List.filterMap_append, List.forall_mem_append, List.filterMap_append, List.forall_mem_append,
        and_iff_right (hclosing index s.blocks), List.filterMap_cons_none rfl, dropsVoid, Bool.and_eq_true,
        Bool.not_eq_true']
      cases hkeeps : i.keepsVoid (s.held c) with
      | true =>
          -- What the first instruction keeps decides for both sides.
          obtain ⟨line, hmem, hline⟩ := hfirst.mpr hkeeps
          exact iff_of_false (fun hlines => hlines.1 line hmem hline) (fun hdrops => Bool.noConfusion hdrops.1)
      | false =>
          obtain ⟨hheld, hknown, hnextScope⟩ := hcases.follows hc hs hscope hkeeps
          have hnow : ∀ line ∈ now.filterMap Event.line?, ¬ line.statement.KeepsVoid c final.scope := by
            intro line hmem hline
            cases hkeeps.symm.trans (hfirst.mp ⟨line, hmem, hline⟩)
          have hlater := ih hrest hnextTyped hnextScope
          rw [hheld, hknown] at hlater
          rw [and_iff_right hnow, and_iff_right rfl]
          exact hlater

end State

/-! ## The standard dialect -/

/-- The result of an operator is the result of one of the rules. -/
theorem TypeTable.mem_of_operatorType {t : TypeTable} {op : Operator} {lhs rhs result : TypeId}
    (h : t.operatorType op lhs rhs = .ok result) :
    ∃ e ∈ t.entries, result ∈ e.rules.map (·.result) ++ e.anyRules.map (·.2) := by
  unfold operatorType at h
  split at h
  · cases h
  · rename_i e hentry
    split at h
    · split at h
      · rename_i result' hresult
        cases h
        refine ⟨e, ?_, ?_⟩
        · cases lhs with
          | null => cases hentry
          | pos index => exact List.mem_of_getElem? hentry
        · rw [List.mem_append]
          rcases Option.or_eq_some_iff.mp hresult with hany | ⟨-, hrule⟩
          · obtain ⟨before, after, hrules, -⟩ := List.lookup_eq_some_iff.mp hany
            rw [hrules]
            simp
          · obtain ⟨rule, hfind, rfl⟩ := Option.map_eq_some_iff.mp hrule
            exact .inl (List.mem_map_of_mem (List.mem_of_find?_eq_some hfind))
      · cases h
    · cases h

/-- Whether a name refers to a bound shader that gives `void`. -/
def givesVoid (bound : List Shader) (name : String) : Bool :=
  (bound.find? (·.name == name)).any (·.result == Primitive.void.standard)

theorem Context.voidCalls_standard (bound : List Shader) :
    (Context.ofDialect .standard bound).VoidCalls (givesVoid bound) where
  number value type h := by
    have hprim : Primitive.int.standard ≠ Primitive.void.standard ∧
        Primitive.float.standard ≠ Primitive.void.standard := by decide
    cases value with
    | int value =>
        rw [numberType?] at h
        split at h
        · cases h
          exact hprim.1
        · cases h
    | float value =>
        cases h
        exact hprim.2
  operator op left right type h := by
    have hrules : ∀ e ∈ Standard.types.entries,
        Primitive.void.standard ∉ e.rules.map (·.result) ++ e.anyRules.map (·.2) := by decide +kernel
    obtain ⟨e, he, hresult⟩ := TypeTable.mem_of_operatorType h
    rintro rfl
    exact hrules e he hresult
  call name callable h signature hsignature := by
    have hfunctions : ∀ callable ∈ Standard.functions.callables, ∀ signature ∈ callable.signatures,
        signature.result ≠ Primitive.void.standard := by decide +kernel
    rw [resolve_ofDialect] at h
    rw [givesVoid]
    cases hfind : bound.find? (·.name == name) with
    | some shader =>
        rw [hfind] at h
        cases h
        cases List.mem_singleton.mp hsignature
        exact beq_iff_eq.symm
    | none =>
        rw [hfind, Option.map_none, Option.none_or] at h
        exact iff_of_false (hfunctions callable (List.mem_of_find?_eq_some h) signature hsignature) Bool.noConfusion

/-- Parameters and interfaces without `void` give no variable this type. -/
theorem noVoid_initialScope {interface : Interface} {params : List (TypeId × String)} {c : Context}
    (hparams : ∀ param ∈ params, param.1 ≠ c.prim .void) (hinterface : ∀ v ∈ interface.vars, v.type ≠ c.prim .void) :
    (initialScope interface params).NoVoid c := by
  intro name type h
  rw [initialScope_eq_seeds] at h
  rcases Option.or_eq_some_iff.mp h with hparam | ⟨-, hvar⟩
  · obtain ⟨param, hlast, rfl⟩ := Option.map_eq_some_iff.mp hparam
    exact hparams param (List.mem_of_mem_filter (List.mem_of_getLast? hlast))
  · obtain ⟨v, hlast, rfl⟩ := Option.map_eq_some_iff.mp hvar
    exact hinterface v (List.mem_of_mem_filter (List.mem_of_getLast? hlast))

/-- In a lifted function with parameters and an interface that are not of type `void`, no line declares, assigns or
returns a value of type `void` if and only if no store and no return of the instructions takes the result of a shader
that gives `void`; without such shaders none does. -/
theorem lift_keeps_no_void_iff {function : StackFunction} {args : List TypeId} {bound : List Shader}
    {interface : Interface} {shader : Shader} {seeded : Scope}
    (h : (lift .standard function args bound interface).outcome = .ok shader)
    (hargs : ∀ type ∈ args, type ≠ Primitive.void.standard)
    (hinterface : ∀ v ∈ interface.vars, v.type ≠ Primitive.void.standard)
    (hseeded : seeded = initialScope interface (args.zip function.params)) :
    ∃ last, (State.liftBody (.ofDialect .standard bound) seeded function.body).outcome = .ok last ∧
      ((∀ line ∈ shader.body, ¬ line.statement.KeepsVoid (.ofDialect .standard bound) last.scope) ↔
        dropsVoid (givesVoid bound) (fun name => (seeded name).isSome) [] function.body = true) ∧
      ((∀ other ∈ bound, other.result ≠ Primitive.void.standard) →
        ∀ line ∈ shader.body, ¬ line.statement.KeepsVoid (.ofDialect .standard bound) last.scope) := by
  subst hseeded
  have hlift := congrArg (Run.mk (lift .standard function args bound interface).events) h
  obtain ⟨-, within, last, hbody, rfl, -⟩ := lift_eq_ok_iff.mp hlift
  obtain ⟨last', _, _, hfrom, hend, rfl⟩ := Run.bind_eq_ok_iff.mp hbody
  obtain ⟨-, -, rfl, rfl⟩ := State.checkEnd_eq_ok_iff.mp hend
  have hstart : State.WellTyped (.ofDialect .standard bound)
      { scope := initialScope interface (args.zip function.params) } :=
    fun value hmem => absurd hmem List.not_mem_nil
  have hscope : (initialScope interface (args.zip function.params)).NoVoid (.ofDialect .standard bound) :=
    noVoid_initialScope (fun param hmem => hargs param.1 (List.of_mem_zip hmem).1) hinterface
  have hiff := State.keepsVoid_iff_of_liftFrom (Context.voidCalls_standard bound) hfrom hstart hscope
    ⟨.refl _, fun _ htype => htype⟩
  rw [List.append_nil] at hbody ⊢
  refine ⟨last, by rw [hbody], hiff, fun hbound => hiff.mpr (dropsVoid_of_never (fun name => ?_) List.not_mem_nil _)⟩
  rw [givesVoid]
  cases hfind : bound.find? (·.name == name) with
  | none => rfl
  | some other => exact beq_false_of_ne (hbound other (List.mem_of_find?_eq_some hfind))

/-- A shader that gives `void`. -/
def silent : Shader :=
  .ofBody .standard ⟨"g", [], []⟩ [] [] {} Primitive.void.standard []

/-- A function that calls a shader for its effect and stores another value while the result is on the stack. -/
def callingForEffect : StackFunction where
  name := "f"
  params := ["x"]
  body :=
    [.loadName "g", .call 0, .loadName "x", .storeLocal "y", .pop, .loadLocal "time", .storeLocal "y", .loadLocal "y",
      .ret]

set_option maxRecDepth 4000 in
theorem lift_keeps_no_void_callingForEffect :
    (∀ v ∈ timeAndPlace.vars, v.type ≠ Primitive.void.standard) ∧ givesVoid [silent] "g" = true ∧
      dropsVoid (givesVoid [silent])
        (fun name => (initialScope timeAndPlace (List.zip [.pos 2] callingForEffect.params) name).isSome) []
        callingForEffect.body = true ∧
      ∃ shader last, (lift .standard callingForEffect [.pos 2] [silent] timeAndPlace).outcome = .ok shader ∧
        shader.body = [⟨1, .declare (.pos 2) "y" (.var "x")⟩, ⟨1, .eval (.call "g" [])⟩,
          ⟨1, .assign "y" (.var "time")⟩, ⟨1, .ret (some (.var "y"))⟩] ∧
        (State.liftBody (.ofDialect .standard [silent])
          (initialScope timeAndPlace (List.zip [.pos 2] callingForEffect.params)) callingForEffect.body).outcome =
            .ok last ∧
        ∀ line ∈ shader.body, ¬ line.statement.KeepsVoid (.ofDialect .standard [silent]) last.scope := by
  have hbody : ((lift .standard callingForEffect [.pos 2] [silent] timeAndPlace).outcome.toOption.bind fun shader =>
      some shader.body) =
      some [⟨1, .declare (.pos 2) "y" (.var "x")⟩, ⟨1, .eval (.call "g" [])⟩,
        ⟨1, .assign "y" (.var "time")⟩, ⟨1, .ret (some (.var "y"))⟩] := by rfl
  have hdrops : dropsVoid (givesVoid [silent])
      (fun name => (initialScope timeAndPlace (List.zip [.pos 2] callingForEffect.params) name).isSome) []
      callingForEffect.body = true := by decide +kernel
  obtain ⟨shader, hshader, hlines⟩ := Run.exists_ok_of_bind hbody
  have hinterface : ∀ v ∈ timeAndPlace.vars, v.type ≠ Primitive.void.standard := by decide
  obtain ⟨last, hlast, hiff, -⟩ := lift_keeps_no_void_iff hshader (by decide) hinterface rfl
  exact ⟨hinterface, by decide +kernel, hdrops, shader, last, hshader, Option.some.inj hlines, hlast,
    hiff.mpr hdrops⟩

/-- A function that stores what a shader gives, and returns it. -/
def storingVoid : StackFunction where
  name := "f"
  params := []
  body := [.loadGlobal "g", .call 0, .storeLocal "x", .loadGlobal "g", .call 0, .ret]

set_option maxRecDepth 4000 in
/-- What the bound shader gives is of type `void` and is kept by every line. -/
theorem lift_stored_void :
    (lift .standard ⟨"g", [], []⟩ [] [] {}).outcome = .ok silent ∧
      ∃ shader, (lift .standard storingVoid [] [silent] {}).outcome = .ok shader ∧
        shader.body = [⟨1, .declare Primitive.void.standard "x" (.call "g" [])⟩, ⟨1, .ret (some (.call "g" []))⟩] ∧
        ∀ line ∈ shader.body, ∀ scope, line.statement.KeepsVoid (.ofDialect .standard [silent]) scope := by
  have hbody : ((lift .standard storingVoid [] [silent] {}).outcome.toOption.bind fun shader => some shader.body) =
      some [⟨1, .declare Primitive.void.standard "x" (.call "g" [])⟩, ⟨1, .ret (some (.call "g" []))⟩] := by rfl
  have htype (scope : Scope) : Expr.type? (.ofDialect .standard [silent]) scope (.call "g" []) =
      some Primitive.void.standard := by rfl
  obtain ⟨shader, hshader, hlines⟩ := Run.exists_ok_of_bind hbody
  refine ⟨rfl, shader, hshader, Option.some.inj hlines, ?_⟩
  rw [Option.some.inj hlines]
  intro line hmem scope
  refine ⟨.call "g" [], ?_, htype scope⟩
  rcases List.mem_pair.mp hmem with rfl | rfl <;> rfl

end ShaderLift
