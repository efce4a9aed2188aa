import Mathlib.Data.List.Forall2
import ShaderLift.Proofs.LiftedLines

/-!
# What lifting depends on

Lifting sees bound shaders only as callables and the interface only as types of names.  It calls a function by the
first signature that accepts the arguments, so signatures that are added later change nothing that was accepted before.

* `lift_separately`: bound shaders and interfaces that look the same give the same lines, reports and errors.
* `Simulates`, `Run.Simulates`: what gives a result gives a related result in a larger context.
* `State.step_simulates`, `State.liftFrom_simulates`: this holds of one instruction and of a whole run.
* `lift_with_more_functions`: a function that can be lifted is lifted in the same way when functions are added.
-/

namespace ShaderLift

/-! ## Surroundings that look the same -/

/-- The shaders look the same to a function that calls them: what they are made of may differ. -/
structure Shader.SameSignature (s s' : Shader) : Prop where
  name : s.name = s'.name
  paramTypes : s.params.map (·.1) = s'.params.map (·.1)
  result : s.result = s'.result

theorem Shader.SameSignature.callable_eq {s s' : Shader} (h : s.SameSignature s') :
    s.callable = s'.callable := by
  simp only [callable, h.name, h.paramTypes, h.result]

theorem Context.ofDialect_congr (d : Dialect) {bound bound' : List Shader}
    (h : List.Forall₂ Shader.SameSignature bound bound') :
    Context.ofDialect d bound = Context.ofDialect d bound' := by
  have hcallables : bound.map Shader.callable = bound'.map Shader.callable := by
    induction h with
    | nil => rfl
    | cons hfirst _ ih => rw [List.map_cons, List.map_cons, hfirst.callable_eq, ih]
  simp only [ofDialect, hcallables]

/-- The type of the last variable of a name. -/
def Interface.type? (i : Interface) (name : String) : Option TypeId :=
  (i.vars.filter (·.name == name)).getLast?.map (·.type)

/-- The declarations in front of the function, with the blank line that divides them. -/
def Interface.preamble (types : TypeTable) (i : Interface) : String :=
  if i.isEmpty then "" else i.text types ++ "\n\n"

/-- Of several declarations of one name the last one counts, and the others are as if they were not there. -/
theorem Scope.declareAll_apply (scope : Scope) (declarations : List (String × TypeId)) (name : String) :
    scope.declareAll declarations name =
      ((declarations.filter (·.1 == name)).getLast?.map (·.2)).or (scope name) := by
  induction declarations generalizing scope with
  | nil => rfl
  | cons first rest ih =>
      obtain ⟨other, type⟩ := first
      show (scope.declare other type).declareAll rest name = _
      rw [ih, List.filter_cons]
      by_cases hname : other = name
      · subst hname
        rw [declare_self, if_pos (beq_self_eq_true other), List.getLast?_cons]
        cases (rest.filter (·.1 == other)).getLast? <;> rfl
      · rw [declare_of_ne _ _ (Ne.symm hname), if_neg (by simpa using hname)]

theorem Scope.declareAll_interface (i : Interface) (name : String) :
    Scope.empty.declareAll (i.vars.map fun v => (v.name, v.type)) name = i.type? name := by
  rw [declareAll_apply, List.filter_map, List.getLast?_map, Option.map_map, Interface.type?]
  exact Option.or_none

theorem initialScope_congr {i i' : Interface} (h : ∀ name, i.type? name = i'.type? name)
    (params : List (TypeId × String)) : initialScope i params = initialScope i' params := by
  have hseed : Scope.empty.declareAll (i.vars.map fun v => (v.name, v.type)) =
      Scope.empty.declareAll (i'.vars.map fun v => (v.name, v.type)) := by
    ext1 name
    rw [Scope.declareAll_interface, Scope.declareAll_interface, h name]
  unfold initialScope
  rw [hseed]

/-- A function is lifted in the same way with bound shaders that have the same signatures and an interface that gives
the same types: the same is reported, and either the same error stops it or only the declarations of the interface
in front of the same function differ. -/
theorem lift_separately {d : Dialect} {function : StackFunction} {args : List TypeId}
    {bound bound' : List Shader} {interface interface' : Interface}
    (hbound : List.Forall₂ Shader.SameSignature bound bound')
    (hinterface : ∀ name, interface.type? name = interface'.type? name) :
    (lift d function args bound interface).events = (lift d function args bound' interface').events ∧
      ((∃ e, (lift d function args bound interface).outcome = .error e ∧
          (lift d function args bound' interface').outcome = .error e) ∨
        ∃ s s', (lift d function args bound interface).outcome = .ok s ∧
          (lift d function args bound' interface').outcome = .ok s' ∧
          s.name = s'.name ∧ s.params = s'.params ∧ s.result = s'.result ∧ s.body = s'.body ∧
          ∃ text, text = functionText d.types function.name s.result s.params (s.body.map (·.text d.types)) ∧
            s.ownText = interface.preamble d.types ++ text ∧
            s'.ownText = interface'.preamble d.types ++ text) := by
  unfold lift
  dsimp only
  rw [← Context.ofDialect_congr d hbound, ← initialScope_congr hinterface, ← hbound.length_eq]
  split
  · exact ⟨rfl, .inl ⟨_, rfl, rfl⟩⟩
  · -- From here on the two runs are the same one, up to what the shader is made of.
    generalize State.liftBody _ _ _ = run
    obtain ⟨events, outcome⟩ := run
    cases outcome with
    | error e => exact ⟨rfl, .inl ⟨e, rfl, rfl⟩⟩
    | ok last => exact ⟨rfl, .inr ⟨_, _, rfl, rfl, rfl, rfl, rfl, rfl, _, rfl, rfl, rfl⟩⟩

/-- A shader that doubles a number. -/
def twiceByAdding : Shader :=
  .ofBody .standard ⟨"twice", ["a"], []⟩ [(.pos 2, "a")] [] {} (.pos 2)
    [⟨1, .ret (some (.binary .add (.var "a") (.var "a")))⟩]

/-- Another shader that doubles a number, which has a parameter of another name and something bound. -/
def twiceByMultiplying : Shader :=
  .ofBody .standard ⟨"twice", ["n"], []⟩ [(.pos 2, "n")] [twiceByAdding] {} (.pos 2)
    [⟨1, .ret (some (.binary .mul (.number (.int 2)) (.var "n")))⟩]

/-- A time and a place. -/
def timeAndPlace : Interface where
  vars := [⟨.uniform, .pos 3, "time"⟩, ⟨.input (some 0), .pos 4, "uv"⟩]

/-- A place and a time that is declared twice. -/
def placeAndTime : Interface where
  vars := [⟨.output none, .pos 4, "uv"⟩, ⟨.uniform, .pos 2, "time"⟩, ⟨.input (some 1), .pos 3, "time"⟩]
  stage := some .fragment

/-- A function that calls a bound shader and reads the variables of an interface. -/
def animated : StackFunction where
  name := "f"
  params := ["x"]
  body :=
    [.loadGlobal "twice", .loadLocal "x", .call 1, .storeLocal "y", .loadName "time", .storeLocal "y",
      .loadLocal "uv", .ret]

theorem lift_separately_animated :
    List.Forall₂ Shader.SameSignature [twiceByAdding] [twiceByMultiplying] ∧
      ∃ s s', (lift .standard animated [.pos 2] [twiceByAdding] timeAndPlace).outcome = .ok s ∧
        (lift .standard animated [.pos 2] [twiceByMultiplying] placeAndTime).outcome = .ok s' ∧
        (lift .standard animated [.pos 2] [twiceByAdding] timeAndPlace).events =
          (lift .standard animated [.pos 2] [twiceByMultiplying] placeAndTime).events ∧
        s.result = s'.result ∧ s.body = s'.body := by
  have hbound : List.Forall₂ Shader.SameSignature [twiceByAdding] [twiceByMultiplying] :=
    .cons ⟨rfl, rfl, rfl⟩ .nil
  have hinterface (name : String) : timeAndPlace.type? name = placeAndTime.type? name := by
    by_cases htime : name = "time"
    · subst htime
      rfl
    · by_cases hplace : name = "uv"
      · subst hplace
        rfl
      · have hne (other : String) (h : name ≠ other) : (other == name) = false := by simpa using Ne.symm h
        simp [Interface.type?, timeAndPlace, placeAndTime, hne _ htime, hne _ hplace]
  have hok : (lift .standard animated [.pos 2] [twiceByAdding] timeAndPlace).outcome.toOption.isSome := by
    decide +kernel
  refine ⟨hbound, ?_⟩
  obtain ⟨hevents, ⟨e, he, -⟩ | ⟨s, s', hs, hs', -, -, hresult, hbody, -⟩⟩ :=
    @lift_separately .standard animated [.pos 2] _ _ _ _ hbound hinterface
  · rw [he] at hok
    cases hok
  · exact ⟨s, s', hs, hs', hevents, hresult, hbody⟩

/-! ## Simulation -/

section Simulation

variable {α β γ δ ε : Type}

/-- If the first computation gives a result, the second one gives a related result. -/
def Simulates (R : α → β → Prop) (x : Except ε α) (y : Except ε β) : Prop :=
  ∀ a, x = .ok a → ∃ b, y = .ok b ∧ R a b

theorem Simulates.ok {R : α → β → Prop} {a : α} {b : β} (h : R a b) :
    Simulates R (.ok a : Except ε α) (.ok b) := by
  intro a' ha
  cases ha
  exact ⟨b, rfl, h⟩

theorem Simulates.refl (x : Except ε α) : Simulates Eq x x :=
  fun a h => ⟨a, h, rfl⟩

theorem Simulates.error {R : α → β → Prop} (e : ε) (y : Except ε β) : Simulates R (.error e) y := by
  intro a ha
  cases ha

theorem Simulates.bind {R : α → β → Prop} {R' : γ → δ → Prop} {x : Except ε α} {y : Except ε β}
    {f : α → Except ε γ} {g : β → Except ε δ} (h : Simulates R x y)
    (hnext : ∀ a b, R a b → Simulates R' (f a) (g b)) : Simulates R' (x >>= f) (y >>= g) := by
  intro c hc
  cases x with
  | error e => cases hc
  | ok a =>
      obtain ⟨b, rfl, hab⟩ := h a rfl
      exact hnext a b hab c hc

/-- If the first run gives a result, the second one has the same events and gives a related result. -/
def Run.Simulates (R : α → β → Prop) (r : Run α) (r' : Run β) : Prop :=
  ∀ a, r.outcome = .ok a → ∃ b, r' = ⟨r.events, .ok b⟩ ∧ R a b

theorem Run.Simulates.pure {R : α → β → Prop} {a : α} {b : β} (h : R a b) :
    Run.Simulates R (.pure a) (.pure b) := by
  intro a' ha
  cases ha
  exact ⟨b, rfl, h⟩

theorem Run.Simulates.refl (r : Run α) : Run.Simulates Eq r r := by
  intro a ha
  exact ⟨a, by rw [← ha], rfl⟩

theorem Run.Simulates.fail {R : α → β → Prop} (location : Location) (cause : Cause) (r : Run β) :
    Run.Simulates R (.fail location cause) r := by
  intro a ha
  cases ha

theorem Run.Simulates.bind {R : α → β → Prop} {R' : γ → δ → Prop} {r : Run α} {r' : Run β}
    {f : α → Run γ} {g : β → Run δ} (h : Run.Simulates R r r')
    (hnext : ∀ a b, R a b → Run.Simulates R' (f a) (g b)) : Run.Simulates R' (r.bind f) (r'.bind g) := by
  intro c hc
  obtain ⟨events, outcome⟩ := r
  cases outcome with
  | error e => cases hc
  | ok a =>
      obtain ⟨b, rfl, hab⟩ := h a rfl
      obtain ⟨d, hd, hcd⟩ := hnext a b hab c hc
      refine ⟨d, ?_, hcd⟩
      simp only [Run.bind, Run.after, hd]

end Simulation

/-! ## Larger contexts -/

/-- The callables have one name, and the second one has the signatures of the first one before its others. -/
structure Callable.Extends (callable callable' : Callable) : Prop where
  name : callable'.name = callable.name
  signatures : callable.signatures <+: callable'.signatures

theorem Callable.Extends.refl (callable : Callable) : callable.Extends callable :=
  ⟨rfl, List.prefix_refl _⟩

theorem Callable.Extends.trans {first second third : Callable} (h : first.Extends second)
    (h' : second.Extends third) : first.Extends third :=
  ⟨h'.name.trans h.name, h.signatures.trans h'.signatures⟩

/-- The first signature that accepts the arguments is still the first one among more. -/
theorem Callable.Extends.signature?_eq {callable callable' : Callable} (h : callable.Extends callable')
    {types : TypeTable} {args : List TypeId} {signature : Signature}
    (hsignature : callable.signature? types args = some signature) :
    callable'.signature? types args = some signature := by
  obtain ⟨more, hmore⟩ := h.signatures
  unfold signature? at hsignature ⊢
  rw [← hmore, List.find?_append, hsignature, Option.some_or]

/-- Every name that refers to a callable in the first table refers to one that extends it in the second. -/
def FunctionTable.Extends (t t' : FunctionTable) : Prop :=
  ∀ name callable, t.find? name = some callable →
    ∃ callable', t'.find? name = some callable' ∧ callable.Extends callable'

/-- A callable that is added stands behind the others or adds its signatures behind those of its name. -/
theorem FunctionTable.extends_add (t : FunctionTable) (more : Callable) : t.Extends (t.add more) := by
  intro name callable h
  unfold find? at h
  unfold add find?
  split
  · -- The names stay as they are, so the callable is found at the same place.
    have hname : (fun c : Callable => c.name == name) ∘ (fun c : Callable =>
        if c.name == more.name then { c with signatures := c.signatures ++ more.signatures } else c) =
        fun c => c.name == name := by
      ext1 c
      simp only [Function.comp_apply]
      split <;> rfl
    rw [List.find?_map, hname, h]
    refine ⟨_, rfl, ?_⟩
    dsimp only
    split
    · exact ⟨rfl, List.prefix_append _ _⟩
    · exact .refl callable
  · dsimp only
    rw [List.find?_append, h]
    exact ⟨callable, rfl, .refl callable⟩

theorem FunctionTable.extends_foldl (t : FunctionTable) (more : List Callable) :
    t.Extends (more.foldl add t) := by
  induction more generalizing t with
  | nil => exact fun _ callable h => ⟨callable, h, .refl callable⟩
  | cons first more ih =>
      intro name callable h
      obtain ⟨second, hsecond, hextends⟩ := t.extends_add first name callable h
      obtain ⟨last, hlast, hextends'⟩ := ih (t.add first) name second hsecond
      exact ⟨last, hlast, hextends.trans hextends'⟩

theorem Dialect.applyAll_functions (d : Dialect) (more : List Callable) :
    d.applyAll (more.map .function) = { d with functions := more.foldl FunctionTable.add d.functions } := by
  induction more generalizing d with
  | nil => rfl
  | cons first more ih => exact ih (d.apply (.function first))

/-- The second context differs from the first one in that callables may have more signatures, and more names may refer
to callables. -/
structure Context.Extends (c c' : Context) : Prop where
  types : c'.types = c.types
  prim : c'.prim = c.prim
  resolve : ∀ name callable, c.resolve name = some callable →
    ∃ callable', c'.resolve name = some callable' ∧ callable.Extends callable'

/-- What a name refers to: a bound shader, or else a function of the dialect. -/
theorem Context.resolve_ofDialect (d : Dialect) (bound : List Shader) (name : String) :
    (Context.ofDialect d bound).resolve name =
      ((bound.find? (·.name == name)).map Shader.callable).or (d.functions.find? name) := by
  unfold resolve ofDialect
  rw [List.find?_append, List.find?_map]
  rfl

theorem Context.extends_ofDialect (d : Dialect) (more : List Callable) (bound : List Shader) :
    (Context.ofDialect d bound).Extends (.ofDialect (d.applyAll (more.map .function)) bound) := by
  rw [Dialect.applyAll_functions]
  refine ⟨rfl, rfl, ?_⟩
  intro name callable h
  rw [resolve_ofDialect] at h
  rw [resolve_ofDialect]
  cases hbound : bound.find? (·.name == name) with
  | some shader =>
      -- A bound shader hides all functions of its name, the added ones too.
      rw [hbound] at h
      exact ⟨callable, h, .refl callable⟩
  | none =>
      rw [hbound, Option.map_none, Option.none_or] at h
      exact d.functions.extends_foldl more name callable h

/-- Entries of the operand stack that differ at most in the signatures of callables. -/
inductive Value.Extends : Value → Value → Prop
  | operand (value : Operand) : Extends (.operand value) (.operand value)
  | callable {callee callee' : Callable} (h : callee.Extends callee') :
      Extends (.callable callee) (.callable callee')

namespace State

/-- The states differ at most in the signatures of the callables on the stack. -/
def Extends (s s' : State) : Prop :=
  ∃ stack, s' = { s with stack := stack } ∧ List.Forall₂ Value.Extends s.stack stack

theorem Extends.refl_of_stack_eq_nil {s : State} (h : s.stack = []) : s.Extends s :=
  ⟨[], by rw [← h], by rw [h]; exact .nil⟩

theorem Extends.push {s s' : State} (h : s.Extends s') (type : TypeId) (expr : Expr) :
    (s.push type expr).Extends (s'.push type expr) := by
  obtain ⟨stack, rfl, hstack⟩ := h
  exact ⟨_, rfl, .cons (.operand _) hstack⟩

theorem Extends.isEmpty_stack {s s' : State} (h : s.Extends s') :
    s'.stack.isEmpty = s.stack.isEmpty := by
  obtain ⟨stack, rfl, hstack⟩ := h
  obtain ⟨scope, returns, values, blocks⟩ := s
  cases hstack <;> rfl

theorem Extends.scope_eq {s s' : State} (h : s.Extends s') : s'.scope = s.scope := by
  obtain ⟨stack, rfl, -⟩ := h
  rfl

theorem Extends.blocks_eq {s s' : State} (h : s.Extends s') : s'.blocks = s.blocks := by
  obtain ⟨stack, rfl, -⟩ := h
  rfl

theorem Extends.depth_eq {s s' : State} (h : s.Extends s') : s'.depth = s.depth := by
  rw [depth, h.blocks_eq, depth]

/-- Instructions that give related states and the same events. -/
def StepExtends (a b : State × List Event) : Prop :=
  a.1.Extends b.1 ∧ a.2 = b.2

theorem stepExtends_emit {s s' : State} (h : s.Extends s') (statement : Statement) :
    StepExtends (s.emit statement) (s'.emit statement) :=
  ⟨h, by rw [emit, emit, h.depth_eq]⟩

theorem popOperand_simulates {s s' : State} (h : s.Extends s') :
    Simulates (fun a b => a.1 = b.1 ∧ a.2.Extends b.2) s.popOperand s'.popOperand := by
  obtain ⟨stack, rfl, hstack⟩ := h
  unfold popOperand
  obtain ⟨scope, returns, values, blocks⟩ := s
  cases hstack with
  | nil => exact .error _ _
  | cons hvalue hrest =>
      cases hvalue with
      | operand value => exact .ok ⟨rfl, _, rfl, hrest⟩
      | callable hcallee => exact .error _ _

theorem popOperands_simulates (count : Nat) {s s' : State} (h : s.Extends s') :
    Simulates (fun a b => a.1 = b.1 ∧ a.2.Extends b.2) (s.popOperands count) (s'.popOperands count) := by
  induction count generalizing s s' with
  | zero => exact .ok ⟨rfl, h⟩
  | succ count ih =>
      refine (popOperand_simulates h).bind ?_
      rintro ⟨last, s⟩ ⟨last', s'⟩ ⟨rfl, hs⟩
      refine (ih hs).bind ?_
      rintro ⟨others, s⟩ ⟨others', s'⟩ ⟨rfl, hs⟩
      exact .ok ⟨rfl, hs⟩

theorem checkBoundary_simulates {s s' : State} (h : s.Extends s') :
    Simulates (fun _ _ => True) s.checkBoundary s'.checkBoundary := by
  unfold checkBoundary
  rw [h.isEmpty_stack]
  split
  · exact .ok trivial
  · exact .error _ _

theorem recordReturn_simulates {s s' : State} (h : s.Extends s') (type : TypeId) :
    Simulates Extends (s.recordReturn type) (s'.recordReturn type) := by
  obtain ⟨stack, rfl, hstack⟩ := h
  unfold recordReturn
  dsimp only
  split
  · exact .ok ⟨stack, rfl, hstack⟩
  · split
    · exact .ok ⟨stack, rfl, hstack⟩
    · exact .error _ _

section Steps

variable {c c' : Context} (hc : c.Extends c') {s s' : State} (hs : s.Extends s')

include hc hs

theorem pushLiteral_simulates (literal : Literal) :
    Simulates Extends (s.pushLiteral c literal) (s'.pushLiteral c' literal) := by
  unfold pushLiteral
  rw [hc.prim]
  split
  · split
    · exact .ok (hs.push _ _)
    · exact .error _ _
  · exact .ok (hs.push _ _)
  · exact .error _ _

theorem pushFunction_simulates (name : String) :
    Simulates Extends (s.pushFunction c name) (s'.pushFunction c' name) := by
  unfold pushFunction
  cases hresolve : c.resolve name with
  | none => exact .error _ _
  | some callable =>
      obtain ⟨callable', hresolve', hextends⟩ := hc.resolve name callable hresolve
      obtain ⟨stack, rfl, hstack⟩ := hs
      rw [hresolve']
      exact .ok ⟨_, rfl, .cons (.callable hextends) hstack⟩

theorem applyOperator_simulates (op : Operator) :
    Simulates Extends (s.applyOperator c op) (s'.applyOperator c' op) := by
  unfold applyOperator
  rw [hc.types]
  refine (popOperand_simulates hs).bind ?_
  rintro ⟨right, s⟩ ⟨right', s'⟩ ⟨rfl, hs⟩
  refine (popOperand_simulates hs).bind ?_
  rintro ⟨left, s⟩ ⟨left', s'⟩ ⟨rfl, hs⟩
  dsimp only
  split
  · exact .ok (hs.push _ _)
  · exact .error _ _

theorem call_simulates (count : Nat) : Simulates Extends (s.call c count) (s'.call c' count) := by
  have hlength : s'.stack.length = s.stack.length := by
    obtain ⟨stack, rfl, hstack⟩ := hs
    exact hstack.length_eq.symm
  unfold call
  rw [hlength, hc.types]
  split
  · exact .error _ _
  · refine (popOperands_simulates count hs).bind ?_
    rintro ⟨args, s⟩ ⟨args', s'⟩ ⟨rfl, stack, rfl, hstack⟩
    obtain ⟨scope, returns, values, blocks⟩ := s
    dsimp only at hstack ⊢
    cases hstack with
    | nil => exact .error _ _
    | @cons value value' rest rest' hvalue hrest =>
        cases hvalue with
        | operand value => exact .error _ _
        | @callable callee callee' hcallee =>
            dsimp only
            cases hsignature : callee.signature? c.types (args.map Operand.type) with
            | none =>
                dsimp only
                split <;> exact .error _ _
            | some signature =>
                rw [hcallee.signature?_eq hsignature, hcallee.name]
                exact .ok ⟨_, rfl, .cons (.operand _) hrest⟩

theorem leave_simulates : Simulates StepExtends (s.leave c) (s'.leave c') := by
  have hpop := popOperand_simulates hs
  have hrecord := @recordReturn_simulates s s' hs
  obtain ⟨stack, rfl, hstack⟩ := hs
  obtain ⟨scope, returns, values, blocks⟩ := s
  unfold leave
  rw [hc.prim]
  dsimp only at hstack ⊢
  cases hstack with
  | nil =>
      refine (hrecord _).bind ?_
      intro s s' hs
      exact .ok (stepExtends_emit hs _)
  | cons hvalue hrest =>
      cases hrest with
      | nil =>
          refine hpop.bind ?_
          rintro ⟨value, s⟩ ⟨value', s'⟩ ⟨rfl, hs⟩
          refine (recordReturn_simulates hs _).bind ?_
          intro s s' hs
          exact .ok (stepExtends_emit hs _)
      | cons hsecond hrest => exact .error _ _

theorem branch_simulates (length index target : Nat) :
    Simulates StepExtends (s.branch c length index target) (s'.branch c' length index target) := by
  unfold branch
  rw [hc.prim]
  refine (popOperand_simulates hs).bind ?_
  rintro ⟨condition, s⟩ ⟨condition', s'⟩ ⟨rfl, hs⟩
  dsimp only
  split
  · exact .error _ _
  · refine (checkBoundary_simulates hs).bind ?_
    intro _ _ _
    obtain ⟨stack, rfl, hstack⟩ := hs
    dsimp only
    split
    · exact .ok ⟨⟨stack, rfl, hstack⟩, rfl⟩
    · exact .error _ _

omit hc in
theorem jump_simulates (length index target : Nat) :
    Simulates StepExtends (s.jump length index target) (s'.jump length index target) := by
  unfold State.jump
  refine (checkBoundary_simulates hs).bind ?_
  intro _ _ _
  obtain ⟨stack, rfl, hstack⟩ := hs
  dsimp only
  split
  · exact .ok ⟨⟨stack, rfl, hstack⟩, rfl⟩
  · exact .ok ⟨⟨stack, rfl, hstack⟩, rfl⟩
  · exact .error _ _

omit hc in
theorem stepExtends_store (name : String) (value : Operand) :
    StepExtends (s.store name value) (s'.store name value) := by
  obtain ⟨stack, rfl, hstack⟩ := hs
  unfold store
  dsimp only
  split
  · exact ⟨⟨stack, rfl, hstack⟩, rfl⟩
  · exact ⟨⟨stack, rfl, hstack⟩, rfl⟩

/-- An instruction that can be lifted is lifted in the same way in a larger context. -/
theorem step_simulates (length index : Nat) (i : Instruction) :
    Simulates StepExtends (s.step c length index i) (s'.step c' length index i) := by
  -- Most instructions give a state and no events.
  have hquiet {x y : Except Cause State} (h : Simulates Extends x y) :
      Simulates StepExtends (do pure (← x, [])) (do pure (← y, [])) :=
    h.bind fun _ _ hs => .ok ⟨hs, rfl⟩
  cases i with
  | pushConst literal => exact hquiet (pushLiteral_simulates hc hs literal)
  | loadLocal name =>
      unfold step
      rw [hs.scope_eq]
      dsimp only
      split
      · exact .ok ⟨hs.push _ _, rfl⟩
      · exact .error _ _
  | loadName name =>
      unfold step
      rw [hs.scope_eq]
      dsimp only
      split
      · exact .ok ⟨hs.push _ _, rfl⟩
      · exact hquiet (pushFunction_simulates hc hs name)
  | loadGlobal name => exact hquiet (pushFunction_simulates hc hs name)
  | storeLocal name =>
      refine (popOperand_simulates hs).bind ?_
      rintro ⟨value, s⟩ ⟨value', s'⟩ ⟨rfl, hs⟩
      exact .ok (stepExtends_store hs name value)
  | binary op => exact hquiet (applyOperator_simulates hc hs op)
  | call count => exact hquiet (call_simulates hc hs count)
  | pop =>
      refine (popOperand_simulates hs).bind ?_
      rintro ⟨value, s⟩ ⟨value', s'⟩ ⟨rfl, hs⟩
      exact .ok (stepExtends_emit hs _)
  | ret => exact leave_simulates hc hs
  | jumpIfFalse target => exact branch_simulates hc hs length index target
  | jump target => exact jump_simulates hs length index target

omit hc in
theorem close_simulates (index : Nat) : Run.Simulates Extends (s.close index) (s'.close index) := by
  have hboundary : s.checkBoundary = .ok () → s'.checkBoundary = .ok () := by
    intro h
    obtain ⟨⟨⟩, h', -⟩ := checkBoundary_simulates hs () h
    exact h'
  obtain ⟨stack, rfl, hstack⟩ := hs
  intro next hnext
  unfold close at hnext ⊢
  dsimp only
  split at hnext
  · cases hnext
    exact ⟨_, rfl, stack, rfl, hstack⟩
  · split at hnext
    · rename_i hempty
      cases hnext
      rw [hboundary hempty]
      exact ⟨_, rfl, stack, rfl, hstack⟩
    · cases hnext

theorem visit_simulates (length index : Nat) (i : Instruction) :
    Run.Simulates Extends (s.visit c length index i) (s'.visit c' length index i) := by
  have hstep := step_simulates hc hs length index i
  unfold visit
  rw [hs.depth_eq]
  cases hresult : s.step c length index i with
  | error cause =>
      intro next hnext
      cases hnext
  | ok result =>
      obtain ⟨next, events⟩ := result
      obtain ⟨⟨next', events'⟩, hresult', hnext, rfl⟩ := hstep _ hresult
      intro last hlast
      cases hlast
      exact ⟨next', by rw [hresult'], hnext⟩

/-- A run that comes to its end goes in the same way in a larger context. -/
theorem liftFrom_simulates (length index : Nat) (xs : List Instruction) :
    Run.Simulates Extends (liftFrom c length index s xs) (liftFrom c' length index s' xs) := by
  induction xs generalizing index s s' with
  | nil => exact close_simulates hs index
  | cons x xs ih =>
      refine (close_simulates hs index).bind ?_
      intro s s' hs
      refine (visit_simulates hc hs length index x).bind ?_
      intro s s' hs
      exact ih hs (index + 1)

end Steps

theorem checkEnd_simulates {s s' : State} (hs : s.Extends s') :
    Run.Simulates Extends s.checkEnd s'.checkEnd := by
  unfold checkEnd
  rw [hs.blocks_eq, hs.isEmpty_stack]
  split
  · exact .fail _ _ _
  · split
    · exact .fail _ _ _
    · exact .pure hs

end State

/-- A function that can be lifted is lifted in the same way after functions were added to the dialect, under new names
or under names that it has: the same shader comes out, and the same is reported. -/
theorem lift_with_more_functions {d : Dialect} {function : StackFunction} {args : List TypeId}
    {bound : List Shader} {interface : Interface} {events : List Event} {shader : Shader}
    (h : lift d function args bound interface = ⟨events, .ok shader⟩) (more : List Callable) :
    lift (d.applyAll (more.map .function)) function args bound interface = ⟨events, .ok shader⟩ := by
  obtain ⟨hlength, within, last, hbody, rfl, rfl⟩ := lift_eq_ok_iff.mp h
  have hstart : State.Extends { scope := initialScope interface (args.zip function.params) }
      { scope := initialScope interface (args.zip function.params) } := .refl_of_stack_eq_nil rfl
  have hsimulates := (State.liftFrom_simulates (Context.extends_ofDialect d more bound) hstart
    function.body.length 0 function.body).bind fun _ _ hs => State.checkEnd_simulates hs
  obtain ⟨last', hbody', stack, rfl, -⟩ := hsimulates last (congrArg Run.outcome hbody)
  rw [← State.liftBody, ← State.liftBody, hbody] at hbody'
  refine lift_eq_ok_iff.mpr ⟨hlength, within, _, hbody', ?_, ?_⟩
  · rw [Dialect.applyAll_functions]
    rfl
  · rw [Dialect.applyAll_functions]

/-- A function that passes integers where the built-in function expects other numbers. -/
def paired : StackFunction where
  name := "f"
  params := []
  body :=
    [.loadName "vec2", .pushConst (.number (.int 1)), .pushConst (.number (.int 2)), .call 2, .storeLocal "v",
      .loadName "v", .ret]

/-- A function of a name that is taken, which would accept integers as they are, and one of a name that is a local
variable of `paired`. -/
def vec2AndV : List Callable :=
  [⟨"vec2", [⟨.pos 7, [.pos 2, .pos 2]⟩]⟩, ⟨"v", [⟨.pos 2, []⟩]⟩]

theorem lift_with_more_functions_paired :
    ∃ events shader, lift .standard paired [] [] {} = ⟨events, .ok shader⟩ ∧ shader.result = .pos 4 ∧
      lift (Dialect.standard.applyAll (vec2AndV.map .function)) paired [] [] {} = ⟨events, .ok shader⟩ := by
  have hresult : ((lift .standard paired [] [] {}).outcome.toOption.bind fun shader => some shader.result) =
      some (.pos 4) := by decide +kernel
  obtain ⟨shader, hshader, htype⟩ := Run.exists_ok_of_bind hresult
  have hlift : lift .standard paired [] [] {} = ⟨(lift .standard paired [] [] {}).events, .ok shader⟩ :=
    congrArg (Run.mk _) hshader
  exact ⟨_, shader, hlift, Option.some.inj htype, lift_with_more_functions hlift vec2AndV⟩

end ShaderLift
