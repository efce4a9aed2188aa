import Mathlib.Data.List.Forall2
import ShaderLift.Proofs.DataFlow
import ShaderLift.Proofs.LiftedLines
import ShaderLift.Proofs.Machine

/-!
# Lifting and the flow of data

The stack of lifting holds expressions, which are evaluated by the statement that uses them.  The lifted statements
therefore compute what a machine computes that looks variables up when they are used.  A machine that looks them up
when they are loaded computes the same if no variable gets a new value between a load and the use of the loaded value;
otherwise the two can differ.

* `State.Tracks`: the scope and the stack of lifting are those that `isVariable` and `pendingAt` find in the body.
* `Nesting.Lifts.performs`: along a lifted tree neither machine gets stuck, and where lookups are safe the machine does
  what the statements do.
* `lift_preserves_dataflow_iff`: the same for whole functions.
* `lift_overwritten_load`: a function for which the two machines differ.
-/

namespace ShaderLift

/-! ## What is known about the stack from the instructions alone -/

/-- The variables that a value on the stack of lifting is made from. -/
def Value.names : Value → List String
  | .operand value => value.expr.names
  | .callable _ => []

/-- Lifting has come to an index of a body: its scope and its stack are those that the instructions before the index
lead to. -/
structure State.Tracks (seeded : Scope) (body : List Instruction) (index : Nat) (s : State) : Prop where
  scope : ∀ name, (s.scope name).isSome = isVariable seeded body index name
  pending : pendingAt seeded body index = s.stack.map Value.names

namespace State.Tracks

variable {seeded : Scope} {body : List Instruction} {index : Nat} {s next : State} {i : Instruction}

theorem start (seeded : Scope) (body : List Instruction) : Tracks seeded body 0 { scope := seeded } := by
  constructor
  · intro name
    rw [isVariable, List.take_zero, List.contains_nil, Bool.or_false]
  · rfl

/-- The scope after an instruction that is not a store. -/
theorem scope_succ (h : s.Tracks seeded body index) (hcode : body[index]? = some i)
    (hstore : ∀ name, i ≠ .storeLocal name) (name : String) :
    (s.scope name).isSome = isVariable seeded body (index + 1) name := by
  rw [isVariable_succ seeded hcode, beq_false_of_ne (hstore name), Bool.or_false]
  exact h.scope name

/-- The scope after a store to a variable. -/
theorem scope_store {stored : String} (h : s.Tracks seeded body index)
    (hcode : body[index]? = some (.storeLocal stored)) {scope : Scope} (hstored : (scope stored).isSome)
    (hother : ∀ name, name ≠ stored → scope name = s.scope name) (name : String) :
    (scope name).isSome = isVariable seeded body (index + 1) name := by
  rw [isVariable_succ seeded hcode]
  by_cases hname : name = stored
  · subst hname
    rw [hstored, beq_self_eq_true, Bool.or_true]
  · have hne : Instruction.storeLocal stored ≠ .storeLocal name := by
      intro heq
      exact hname (Instruction.storeLocal.inj heq).symm
    rw [hother name hname, h.scope name, beq_false_of_ne hne, Bool.or_false]

/-- What an instruction does to the stack of lifting is what it does to the pending loads. -/
theorem pending_succ (h : s.Tracks seeded body index) (hcode : body[index]? = some i) :
    pendingAt seeded body (index + 1) =
      i.pending (isVariable seeded body index) (s.stack.map Value.names) := by
  rw [pendingAt_succ seeded hcode, h.pending]

end State.Tracks

/-- The variables of the arguments of a call, from the top of the stack. -/
theorem Value.flatten_names (args : List Operand) :
    (((args.reverse.map Value.operand).map Value.names).reverse).flatten =
      Expr.argNames (args.map Operand.expr) := by
  rw [Expr.argNames_eq_flatten, List.map_reverse, List.map_reverse, List.reverse_reverse, List.map_map,
    List.map_map]
  rfl

/-- A plain instruction keeps track. -/
theorem State.PlainStep.tracks {c : Context} {seeded : Scope} {body : List Instruction} {index : Nat}
    {s next : State} {i : Instruction} {statement : Option Statement}
    (h : s.PlainStep c i next statement) (hcode : body[index]? = some i)
    (htracks : s.Tracks seeded body index) : next.Tracks seeded body (index + 1) := by
  -- Only stores change the scope; what is pending is compared instruction by instruction.
  have hscope (hstore : ∀ name, i ≠ .storeLocal name) := htracks.scope_succ hcode hstore
  have hpending := htracks.pending_succ hcode
  cases h with
  | number htype => exact ⟨hscope (by simp), hpending⟩
  | @«variable» i name type hvariable hi =>
      have hknown : isVariable seeded body index name = true := by
        rw [← htracks.scope, hvariable, Option.isSome_some]
      rcases hi with rfl | rfl
      · exact ⟨hscope (by simp), hpending⟩
      · refine ⟨hscope (by simp), ?_⟩
        rw [hpending, Instruction.pending, if_pos hknown]
        rfl
  | @callable i name callable hresolve hi =>
      rcases hi with rfl | ⟨rfl, hnone⟩
      · exact ⟨hscope (by simp), hpending⟩
      · have hunknown : isVariable seeded body index name = false := by
          rw [← htracks.scope, hnone, Option.isSome_none]
        refine ⟨hscope (by simp), ?_⟩
        rw [hpending, Instruction.pending, hunknown]
        rfl
  | @binary op left right rest type hstack htype =>
      refine ⟨hscope (by simp), ?_⟩
      rw [hpending, hstack, Instruction.pending]
      simp [State.push, Value.names, Expr.names]
  | @call args callee rest signature hstack hsignature =>
      refine ⟨hscope (by simp), ?_⟩
      have hcount : args.length = ((args.reverse.map Value.operand).map Value.names).length := by simp
      rw [hpending, hstack, Instruction.pending, List.map_append, List.map_cons, hcount,
        List.take_left' rfl, Value.flatten_names, ← List.drop_drop, List.drop_left' rfl]
      rfl
  | @assign name value rest declared hstack hdeclared =>
      refine ⟨htracks.scope_store hcode (by simp [hdeclared]) (fun _ _ => rfl), ?_⟩
      rw [hpending, hstack]
      rfl
  | @declare name value rest hstack hundeclared =>
      refine ⟨htracks.scope_store hcode (by simp) (fun _ hne => Scope.declare_of_ne _ _ hne), ?_⟩
      rw [hpending, hstack]
      rfl
  | eval hstack =>
      refine ⟨hscope (by simp), ?_⟩
      rw [hpending, hstack]
      rfl
  | ret hstack hreturns =>
      refine ⟨hscope (by simp), ?_⟩
      rw [hpending, hstack]
      rfl
  | retValue hstack hreturns =>
      refine ⟨hscope (by simp), ?_⟩
      rw [hpending, hstack]
      rfl
  | skip hstack => exact ⟨hscope (by simp), hpending⟩

namespace State.Tracks

variable {seeded : Scope} {body : List Instruction} {index target : Nat} {s : State}

/-- The start of a conditional body, where the condition is taken from the stack. -/
theorem enter {value : Value} (h : s.Tracks seeded body index)
    (hcode : body[index]? = some (.jumpIfFalse target)) (hstack : s.stack = [value]) (blocks : Blocks) :
    Tracks seeded body (index + 1) { s with stack := [], blocks := blocks } := by
  refine ⟨h.scope_succ hcode (by simp), ?_⟩
  rw [h.pending_succ hcode, hstack]
  rfl

/-- The start of an alternative. -/
theorem switch (h : s.Tracks seeded body index) (hcode : body[index]? = some (.jump target))
    (blocks : Blocks) : Tracks seeded body (index + 1) { s with blocks := blocks } :=
  ⟨h.scope_succ hcode (by simp), h.pending_succ hcode⟩

/-- Open bodies play no part. -/
theorem leave (h : s.Tracks seeded body index) (blocks : Blocks) :
    Tracks seeded body index { s with blocks := blocks } :=
  ⟨h.scope, h.pending⟩

end State.Tracks

/-- Lifting a tree keeps track. -/
theorem Nesting.Lifts.tracks {c : Context} {index : Nat} {s last : State} {t : JumpTree}
    {events : List Event} {lines : PlacedNesting} (h : t.Lifts c index s events lines last)
    {seeded : Scope} {body : List Instruction} (hcode : CodeAt body index (t.flatten index))
    (htracks : s.Tracks seeded body index) : last.Tracks seeded body (index + t.size) := by
  induction h with
  | nil => exact htracks
  | @leaf index s next last a rest now later statement lines hplain hnow hrest ih =>
      obtain ⟨hhead, htail⟩ := hcode.leaf
      have hsize := Nesting.add_size_leaf index a rest
      rw [hsize]
      exact ih htail (hplain.tracks hhead htracks)
  | @ifThen index stop s inside last inner rest condition within later inside' lines hstop hstack hbody
      hinside hrest ihBody ihRest =>
      obtain ⟨hhead, hinner, hafter⟩ := hcode.ifThen hstop
      have hsize := Nesting.add_size_ifThen hstop rest
      have hend := ihBody hinner (htracks.enter hhead hstack _)
      rw [← hstop] at hend
      rw [hsize]
      exact ihRest hafter (hend.leave _)
  | @ifElse index middle stop s inside switched last inner other rest condition within without later
      inside' alternative lines hmiddle hstop hstack hbody hinside hother hswitched hrest ihBody ihOther
      ihRest =>
      obtain ⟨hhead, hinner, hjump, halternative, hafter⟩ := hcode.ifElse hmiddle hstop
      have hsize := Nesting.add_size_ifElse hmiddle hstop rest
      have hend := ihBody hinner (htracks.enter hhead hstack _)
      rw [← hmiddle] at hend
      have hend' := ihOther halternative (hend.switch hjump _)
      rw [← hstop] at hend'
      rw [hsize]
      exact ihRest hafter (hend'.leave _)

/-! ## The machine at an instruction -/

section Machine

variable {V : Type} {I : Interpretation V} {lookup : Lookup} {faithful : Prop} {seeded : Scope}
  {body : List Instruction}

/-- An entry of the machine's stack stands for a value of lifting.  Functions are the same; where the entries
are faithful, an operand holds what its expression gives. -/
inductive Entry.Holds (I : Interpretation V) (lookup : Lookup) (faithful : Prop) (store : Store V) :
    Value → Entry V → Prop
  | operand {operand : Operand} {held : Store V → V}
      (heq : faithful → held = lookup.hold store fun now => operand.expr.eval I now) :
      Holds I lookup faithful store (.operand operand) (.value held)
  | callable {callable : Callable} :
      Holds I lookup faithful store (.callable callable) (.function callable.name)

/-- The stack of the machine stands for the stack of lifting. -/
abbrev Entry.HoldsAll (I : Interpretation V) (lookup : Lookup) (faithful : Prop) (store : Store V) :
    List Value → List (Entry V) → Prop :=
  List.Forall₂ (Entry.Holds I lookup faithful store)

/-- A store to a variable leaves faithful what does not depend on it, and what is looked up later anyway. -/
theorem Entry.Holds.set {store : Store V} {value : Value} {entry : Entry V} {name : String} (stored : V)
    (h : Entry.Holds I lookup faithful store value entry)
    (hsafe : faithful → lookup = .atUse ∨ name ∉ value.names) :
    Entry.Holds I lookup faithful (store.set name stored) value entry := by
  cases h with
  | callable => exact .callable
  | @operand operand held heq =>
      refine .operand fun hfaithful => ?_
      rw [heq hfaithful]
      rcases hsafe hfaithful with rfl | hname
      · rfl
      · cases lookup with
        | atUse => rfl
        -- The entry keeps the value that was looked up, so the expression has to keep it too.
        | atLoad =>
            rw [Lookup.hold, Lookup.hold, Expr.eval_set_of_not_mem I store stored operand.expr hname]

theorem Entry.HoldsAll.set {store : Store V} {values : List Value} {stack : List (Entry V)} (name : String)
    (stored : V) (h : Entry.HoldsAll I lookup faithful store values stack)
    (hsafe : faithful → lookup = .atUse ∨ ∀ value ∈ values, name ∉ value.names) :
    Entry.HoldsAll I lookup faithful (store.set name stored) values stack := by
  induction h with
  | nil => exact .nil
  | @cons value entry values stack hhead htail ih =>
      refine .cons (hhead.set stored fun hfaithful => ?_) (ih fun hfaithful => ?_)
      · exact (hsafe hfaithful).imp_right fun hnames => hnames value List.mem_cons_self
      · exact (hsafe hfaithful).imp_right fun hnames other hmem =>
          hnames other (List.mem_cons_of_mem _ hmem)

/-- The arguments of a call are found on the stack of the machine. -/
theorem Entry.HoldsAll.takeValues {store : Store V} {args : List Operand} {values : List Value}
    {stack : List (Entry V)}
    (h : Entry.HoldsAll I lookup faithful store (args.map .operand ++ values) stack) :
    ∃ held rest, Entry.takeValues args.length stack = some (held, rest) ∧
      (faithful → held = (args.map fun arg => lookup.hold store fun now => arg.expr.eval I now).reverse) ∧
      Entry.HoldsAll I lookup faithful store values rest := by
  induction args generalizing stack with
  | nil => exact ⟨[], stack, rfl, fun _ => rfl, h⟩
  | cons arg args ih =>
      cases h with
      | cons hhead htail =>
          cases hhead with
          | @operand _ top heq =>
              obtain ⟨held, rest, htake, hheld, hrest⟩ := ih htail
              refine ⟨held ++ [top], rest, ?_, ?_, hrest⟩
              · rw [List.length_cons, Entry.takeValues, htake]
              · intro hfaithful
                rw [hheld hfaithful, heq hfaithful, List.map_cons, List.reverse_cons]

/-- The machine does what statements do: it comes to `stop` with the store that they lead to and with entries for
`values` on the stack, or it ends as they end.  Where the entries are not faithful, it does one of the two. -/
inductive Performs (I : Interpretation V) (lookup : Lookup) (faithful : Prop) (seeded : Scope)
    (body : List Instruction) (start : MachineState V ⊕ Option (Final V)) (stop : Nat)
    (values : List Value) (execution : Store V ⊕ Final V) : Prop
  | goesOn {store : Store V} {stack : List (Entry V)} (hexecution : faithful → execution = .inl store)
      (hstack : Entry.HoldsAll I lookup faithful store values stack)
      (hruns : Runs (stackStep I lookup seeded body) start (.inl ⟨stop, store, stack⟩))
  | ends {final : Final V} (hexecution : faithful → execution = .inr final)
      (hruns : Runs (stackStep I lookup seeded body) start (.inr (some final)))

namespace Performs

variable {start middle : MachineState V ⊕ Option (Final V)} {stop stop' : Nat}
  {values values' : List Value} {execution execution' : Store V ⊕ Final V}

theorem after (hruns : Runs (stackStep I lookup seeded body) start middle)
    (h : Performs I lookup faithful seeded body middle stop values execution) :
    Performs I lookup faithful seeded body start stop values execution := by
  cases h with
  | goesOn hexecution hstack hlater => exact .goesOn hexecution hstack (hruns.trans hlater)
  | ends hexecution hlater => exact .ends hexecution (hruns.trans hlater)

theorem congr (h : Performs I lookup faithful seeded body start stop values execution)
    (heq : faithful → execution' = execution) :
    Performs I lookup faithful seeded body start stop values execution' := by
  cases h with
  | goesOn hexecution hstack hruns =>
      exact .goesOn (fun hfaithful => (heq hfaithful).trans (hexecution hfaithful)) hstack hruns
  | ends hexecution hruns =>
      exact .ends (fun hfaithful => (heq hfaithful).trans (hexecution hfaithful)) hruns

/-- A machine that does what some statements do and then what others do does what both do. -/
theorem andThen {next : Store V → Store V ⊕ Final V}
    (h : Performs I lookup faithful seeded body start stop values execution)
    (hnext : ∀ store stack, Entry.HoldsAll I lookup faithful store values stack →
      Performs I lookup faithful seeded body (.inl ⟨stop, store, stack⟩) stop' values' (next store)) :
    Performs I lookup faithful seeded body start stop' values' (Final.andThen execution next) := by
  cases h with
  | @goesOn store stack hexecution hstack hruns =>
      refine (after hruns (hnext store stack hstack)).congr fun hfaithful => ?_
      rw [hexecution hfaithful, Final.andThen]
  | ends hexecution hruns =>
      refine .ends (fun hfaithful => ?_) hruns
      rw [hexecution hfaithful, Final.andThen]

/-- The machine takes the jump over an alternative, unless it has ended before. -/
theorem jump (h : Performs I lookup faithful seeded body start stop values execution)
    (hcode : body[stop]? = some (.jump stop')) :
    Performs I lookup faithful seeded body start stop' values execution := by
  cases h with
  | ends hexecution hruns => exact .ends hexecution hruns
  | goesOn hexecution hstack hruns =>
      exact .goesOn hexecution hstack
        (hruns.trans (.step_trans (stackStep_eq I lookup seeded hcode _ _) (.refl _)))

/-- The machine halts at the end of the body, if not before. -/
theorem halts (h : Performs I lookup faithful seeded body start stop values execution)
    (hstop : body.length ≤ stop) :
    ∃ final, Runs (stackStep I lookup seeded body) start (.inr (some final)) ∧
      (faithful → final = .ofExecution execution) := by
  cases h with
  | @goesOn store stack hexecution hstack hruns =>
      refine ⟨⟨store, none⟩, hruns.trans (.step_trans ?_ (.refl _)), fun hfaithful => ?_⟩
      · simp only [stackStep, List.getElem?_eq_none hstop]
      · rw [hexecution hfaithful, Final.ofExecution]
  | @ends final hexecution hruns =>
      refine ⟨final, hruns, fun hfaithful => ?_⟩
      rw [hexecution hfaithful, Final.ofExecution]

end Performs

/-- A store does what the assignment of its value does: if the entries are faithful, those that are left on the stack do
not depend on the variable or are looked up later. -/
theorem State.Tracks.performs_store {s : State} {index : Nat} {name : String} {value : Operand}
    {rest : List Value} (htracks : s.Tracks seeded body index)
    (hcode : body[index]? = some (.storeLocal name)) (htop : s.stack = .operand value :: rest)
    (hsafe : faithful → lookup = .atUse ∨ storesSafely seeded body) {store : Store V}
    {stack : List (Entry V)} (hstack : Entry.HoldsAll I lookup faithful store s.stack stack) :
    Performs I lookup faithful seeded body (.inl ⟨index, store, stack⟩) (index + 1) rest
      (.inl (store.set name (value.expr.eval I store))) := by
  have hnames (hsafely : storesSafely seeded body) (below : Value) (hmem : below ∈ rest) :
      name ∉ below.names := by
    apply not_mem_of_storesSafely hsafely hcode
    rw [htracks.pending, htop]
    exact List.mem_map_of_mem hmem
  rw [htop] at hstack
  rcases hstack with _ | ⟨hvalue, hrest⟩
  obtain @⟨_, held, hheld⟩ := hvalue
  have hrest' := Entry.HoldsAll.set name (held store) hrest fun hfaithful =>
    (hsafe hfaithful).imp_right hnames
  refine .goesOn (fun hfaithful => ?_) hrest'
    (.step_trans (stackStep_eq I lookup seeded hcode store _) (.refl _))
  rw [hheld hfaithful, lookup.hold_self]

/-- The machine at a plain instruction does what the added statement does. -/
theorem State.PlainStep.performs {c : Context} {s next : State} {i : Instruction} {index : Nat}
    {statement : Option Statement} (h : s.PlainStep c i next statement)
    (hcode : body[index]? = some i) (hjump : ∀ target, i = .jump target → target = index + 1)
    (htracks : s.Tracks seeded body index)
    (hsafe : faithful → lookup = .atUse ∨ storesSafely seeded body) {store : Store V}
    {stack : List (Entry V)} (hstack : Entry.HoldsAll I lookup faithful store s.stack stack) :
    Performs I lookup faithful seeded body (.inl ⟨index, store, stack⟩) (index + 1) next.stack
      (statement.elim (.inl store) (Statement.execute I store)) := by
  have hstep {result : MachineState V ⊕ Option (Final V)}
      (hperform : MachineState.perform I lookup (isVariable seeded body index) ⟨index, store, stack⟩ i =
        result) : Runs (stackStep I lookup seeded body) (.inl ⟨index, store, stack⟩) result :=
    .step_trans ((stackStep_eq I lookup seeded hcode store stack).trans hperform) (.refl _)
  cases h with
  | @number value type htype =>
      have hentry := (lookup.hold_const store (I.literal (.number value))).symm
      exact .goesOn (fun _ => rfl) (.cons (.operand fun _ => hentry) hstack) (hstep rfl)
  | @«variable» i name type hscope hi =>
      have hstack' : Entry.HoldsAll I lookup faithful store (.operand ⟨type, .var name⟩ :: s.stack)
          (.value (lookup.hold store fun now => now name) :: stack) :=
        .cons (.operand fun _ => rfl) hstack
      rcases hi with rfl | rfl
      · exact .goesOn (fun _ => rfl) hstack' (hstep rfl)
      · have hknown : isVariable seeded body index name = true := by
          rw [← htracks.scope, hscope, Option.isSome_some]
        exact .goesOn (fun _ => rfl) hstack' (hstep (if_pos hknown))
  | @callable i name callable hresolve hi =>
      cases Context.name_of_resolve hresolve
      have hstack' : Entry.HoldsAll I lookup faithful store (.callable callable :: s.stack)
          (.function callable.name :: stack) := .cons .callable hstack
      rcases hi with rfl | ⟨rfl, hnone⟩
      · exact .goesOn (fun _ => rfl) hstack' (hstep rfl)
      · have hunknown : ¬ isVariable seeded body index callable.name = true := by
          rw [← htracks.scope, hnone, Option.isSome_none]
          exact Bool.false_ne_true
        exact .goesOn (fun _ => rfl) hstack' (hstep (if_neg hunknown))
  | @binary op left right rest type htop htype =>
      rw [htop] at hstack
      rcases hstack with _ | ⟨hright, _ | ⟨hleft, hrest⟩⟩
      obtain ⟨hright⟩ := hright
      obtain ⟨hleft⟩ := hleft
      refine .goesOn (fun _ => rfl) (.cons (.operand fun hfaithful => ?_) hrest) (hstep rfl)
      rw [hright hfaithful, hleft hfaithful]
      exact (lookup.hold_binary store (I.operator op) _ _).symm
  | @call args callee rest signature htop hsignature =>
      rw [htop] at hstack
      -- The arguments are on top of the callable, the last one first.
      obtain ⟨held, below, htake, hheld, hbelow⟩ := hstack.takeValues
      rcases hbelow with _ | ⟨hcallee, hrest⟩
      cases hcallee
      rw [List.length_reverse] at htake
      refine .goesOn (fun _ => rfl) (.cons (.operand fun hfaithful => ?_) hrest)
        (hstep (by simp only [MachineState.perform, htake]; rfl))
      have hcall : (fun now => (Expr.call callee.name (args.map Operand.expr)).eval I now) = fun now =>
          I.function callee.name ((args.map fun arg now => arg.expr.eval I now).map fun arg => arg now) := by
        funext now
        rw [Expr.eval, Expr.evalArgs_eq_map, List.map_map, List.map_map]
        rfl
      rw [hheld hfaithful, hcall, lookup.hold_call, List.map_reverse, List.reverse_reverse, List.map_map]
      rfl
  | assign htop hdeclared => exact htracks.performs_store hcode htop hsafe hstack
  | declare htop hundeclared => exact htracks.performs_store hcode htop hsafe hstack
  | eval htop =>
      rw [htop] at hstack
      rcases hstack with _ | ⟨hvalue, hrest⟩
      cases hvalue
      exact .goesOn (fun _ => rfl) hrest (hstep rfl)
  | ret htop hreturns =>
      rw [htop] at hstack
      cases hstack
      exact .ends (fun _ => rfl) (hstep rfl)
  | retValue htop hreturns =>
      rw [htop] at hstack
      rcases hstack with _ | ⟨hvalue, _ | _⟩
      obtain @⟨_, held, hheld⟩ := hvalue
      refine .ends (fun hfaithful => ?_) (hstep rfl)
      rw [hheld hfaithful, lookup.hold_self]
      rfl
  | @skip target htop =>
      cases hjump target rfl
      exact .goesOn (fun _ => rfl) hstack (hstep rfl)

/-! ## The machine along a lifted tree -/

theorem Nesting.execute_leaves (I : Interpretation V) (index : Nat) (statement : Option Statement)
    (rest : PlacedNesting) (store : Store V) :
    (leaves (statement.toList.map (Prod.mk index)) rest).statements.execute I store =
      Final.andThen (statement.elim (.inl store) (Statement.execute I store))
        (rest.statements.execute I) := by
  cases statement with
  | none => rfl
  | some statement => rfl

/-- The machine at a conditional jump: it goes into the body or to the target, as the condition says. -/
theorem State.runs_jumpIfFalse {s : State} {index target : Nat} {condition : Operand}
    (hcode : body[index]? = some (.jumpIfFalse target)) (htop : s.stack = [.operand condition])
    {store : Store V} {stack : List (Entry V)}
    (hstack : Entry.HoldsAll I lookup faithful store s.stack stack) :
    ∃ holds : Bool, (faithful → I.holds (condition.expr.eval I store) = holds) ∧
      Runs (stackStep I lookup seeded body) (.inl ⟨index, store, stack⟩)
        (.inl ⟨if holds then index + 1 else target, store, []⟩) := by
  rw [htop] at hstack
  rcases hstack with _ | ⟨hvalue, _ | _⟩
  obtain @⟨_, held, hheld⟩ := hvalue
  refine ⟨I.holds (held store), fun hfaithful => ?_,
    .step_trans (stackStep_eq I lookup seeded hcode store _) (.refl _)⟩
  rw [hheld hfaithful, lookup.hold_self]

/-- Along a lifted tree the machine does what the nested statements do. -/
theorem Nesting.Lifts.performs (I : Interpretation V) (lookup : Lookup) {c : Context} {index : Nat}
    {s last : State} {t : JumpTree} {events : List Event} {lines : PlacedNesting}
    (h : t.Lifts c index s events lines last)
    (hcode : CodeAt body index (t.flatten index)) (htracks : s.Tracks seeded body index)
    (hsafe : faithful → lookup = .atUse ∨ storesSafely seeded body) (store : Store V)
    (stack : List (Entry V)) (hstack : Entry.HoldsAll I lookup faithful store s.stack stack) :
    Performs I lookup faithful seeded body (.inl ⟨index, store, stack⟩) (index + t.size) last.stack
      (lines.statements.execute I store) := by
  induction h generalizing store stack with
  | nil => exact .goesOn (fun _ => rfl) hstack (.refl _)
  | @leaf index s next last a rest now later statement lines hplain hnow hrest ih =>
      obtain ⟨hhead, htail⟩ := hcode.leaf
      have hsize := Nesting.add_size_leaf index a rest
      rw [execute_leaves, hsize]
      have hfirst := hplain.performs hhead (fun _ => Plain.eq_of_at_eq_jump) htracks hsafe hstack
      exact hfirst.andThen (ih htail (hplain.tracks hhead htracks))
  | @ifThen index stop s inside last inner rest condition within later inside' lines hstop htop hbody
      hinside hrest ihBody ihRest =>
      obtain ⟨hhead, hinner, hafter⟩ := hcode.ifThen hstop
      have hsize := Nesting.add_size_ifThen hstop rest
      have henter := htracks.enter hhead htop (.ifBody stop :: s.blocks)
      -- What lifting knows after the body holds also where the body was jumped over.
      have hend := hbody.tracks hinner henter
      rw [← hstop] at hend ihBody
      rw [hsize]
      -- The branch is performed up to `stop`, where the stack is empty whichever way was taken.
      have hbranch : Performs I lookup faithful seeded body (.inl ⟨index, store, stack⟩) stop inside.stack
          (if I.holds (condition.eval I store) then inside'.statements.execute I store
            else .inl store) := by
        obtain ⟨holds, hholds, hruns⟩ := State.runs_jumpIfFalse hhead htop hstack
        cases holds with
        | true =>
            refine (Performs.after hruns (ihBody hinner henter store [] .nil)).congr fun hfaithful => ?_
            rw [if_pos (hholds hfaithful)]
        | false =>
            rw [hinside]
            refine .goesOn (fun hfaithful => ?_) .nil hruns
            rw [hholds hfaithful, if_neg Bool.false_ne_true]
      exact hbranch.andThen (ihRest hafter (hend.leave _))
  | @ifElse index middle stop s inside switched last inner other rest condition within without later
      inside' alternative lines hmiddle hstop htop hbody hinside hother hswitched hrest ihBody ihOther
      ihRest =>
      obtain ⟨hhead, hinner, hjump, halternative, hafter⟩ := hcode.ifElse hmiddle hstop
      have hsize := Nesting.add_size_ifElse hmiddle hstop rest
      have henter := htracks.enter hhead htop (.ifBody (middle + 1) :: s.blocks)
      have hend := hbody.tracks hinner henter
      rw [← hmiddle] at hend ihBody
      have hswitch := hend.switch hjump (.elseBody stop :: inside.blocks.tail)
      have hend' := hother.tracks halternative hswitch
      rw [← hstop] at hend' ihOther
      rw [hsize]
      have hbranch : Performs I lookup faithful seeded body (.inl ⟨index, store, stack⟩) stop switched.stack
          (if I.holds (condition.eval I store) then inside'.statements.execute I store
            else alternative.statements.execute I store) := by
        obtain ⟨holds, hholds, hruns⟩ := State.runs_jumpIfFalse hhead htop hstack
        cases holds with
        | true =>
            -- The body ends with a jump over the alternative.
            have hthen := (Performs.after hruns (ihBody hinner henter store [] .nil)).jump hjump
            rw [hinside, ← hswitched] at hthen
            refine hthen.congr fun hfaithful => ?_
            rw [if_pos (hholds hfaithful)]
        | false =>
            have hempty : Entry.HoldsAll I lookup faithful store inside.stack [] := by
              rw [hinside]
              exact .nil
            refine (Performs.after hruns (ihOther halternative hswitch store [] hempty)).congr
              fun hfaithful => ?_
            rw [hholds hfaithful, if_neg Bool.false_ne_true]
      exact hbranch.andThen (ihRest hafter (hend'.leave _))

end Machine

/-! ## Whole functions -/

/-- A machine that starts with this store at the first instruction halts with this result. -/
def EndsWith {V : Type} (I : Interpretation V) (lookup : Lookup) (seeded : Scope) (body : List Instruction)
    (store : Store V) (final : Option (Final V)) : Prop :=
  Runs (stackStep I lookup seeded body) (.inl ⟨0, store, []⟩) (.inr final)

/-- A lifted function does what its instructions do when variables are looked up where their values are used.  Both
machines halt, whatever the function does, and each has one end.  The one that looks variables up where they are loaded
ends as the lifted statements do if no variable gets a new value while an entry of the stack is made from it. -/
theorem lift_preserves_dataflow_iff {d : Dialect} {function : StackFunction} {args : List TypeId}
    {bound : List Shader} {interface : Interface} {shader : Shader} {seeded : Scope}
    (h : (lift d function args bound interface).outcome = .ok shader)
    (hseeded : seeded = initialScope interface (args.zip function.params)) :
    ∃ nested : Nesting Statement Expr,
      Nesting.read? (shader.body.map fun line => line.statement.mark) = some nested ∧
      ∀ (V : Type) (I : Interpretation V) (store : Store V), ∃ loaded : Final V,
        (∀ final, EndsWith I .atLoad seeded function.body store final ↔ final = some loaded) ∧
        (∀ final, EndsWith I .atUse seeded function.body store final ↔
          final = some (.ofExecution (nested.execute I store))) ∧
        (storesSafely seeded function.body → loaded = .ofExecution (nested.execute I store)) := by
  subst hseeded
  obtain ⟨t, within, lines, last, hproper, hflatten, hlifts, hstack, hbody, hmarks⟩ :=
    exists_lifts_of_lift (congrArg (Run.mk _) h)
  refine ⟨lines.statements, ?_, ?_⟩
  · rw [hbody]
    exact hlifts.read?_lines
  · intro V I store
    obtain ⟨hcode, hlength⟩ := CodeAt.of_flatten hflatten
    have htracks := State.Tracks.start (initialScope interface (args.zip function.params)) function.body
    -- Entries are faithful at a lookup where they are loaded only if all stores are safe.
    obtain ⟨loaded, hloaded, hsafe⟩ :=
      (hlifts.performs I .atLoad hcode htracks .inr store [] .nil).halts hlength
    obtain ⟨used, hused, hemitted⟩ :=
      (hlifts.performs I .atUse hcode htracks (fun _ : True => .inl rfl) store [] .nil).halts hlength
    rw [← hemitted trivial]
    refine ⟨loaded, hloaded.result_iff, hused.result_iff, fun hsafely => ?_⟩
    exact (hsafe hsafely).trans (hemitted trivial).symm

/-- A function that returns the greater of its arguments. -/
def greater : StackFunction where
  name := "f"
  params := ["x", "y"]
  body :=
    [.loadLocal "x", .loadLocal "y", .binary .lt, .jumpIfFalse 6, .loadLocal "y", .storeLocal "x",
      .loadLocal "x", .ret]

/-- Numbers, where every operator compares and one is true. -/
def comparison : Interpretation Nat where
  literal _ := 0
  operator _ left right := if left < right then 1 else 0
  function _ _ := 0
  holds value := value == 1

/-- The first argument is three and the second one is seven. -/
def threeAndSeven : Store Nat :=
  fun name => if name = "x" then 3 else 7

set_option maxRecDepth 4000 in
theorem lift_preserves_dataflow_greater :
    (lift .standard greater [.pos 2, .pos 2] [] {}).outcome.toOption.isSome ∧
      storesSafely (initialScope {} (List.zip [.pos 2, .pos 2] greater.params)) greater.body ∧
      EndsWith comparison .atLoad (initialScope {} (List.zip [.pos 2, .pos 2] greater.params)) greater.body
        threeAndSeven (some ⟨threeAndSeven.set "x" 7, some 7⟩) := by
  have hlifted : ((lift .standard greater [.pos 2, .pos 2] [] {}).outcome.toOption.bind fun shader =>
      Nesting.read? (shader.body.map fun line => line.statement.mark)) =
        some (.ifThen (.binary .lt (.var "x") (.var "y")) (.leaf (.assign "x" (.var "y")) .nil)
          (.leaf (.ret (some (.var "x"))) .nil)) := by rfl
  have hsafely : storesSafely (initialScope {} (List.zip [.pos 2, .pos 2] greater.params))
      greater.body := by decide +kernel
  obtain ⟨shader, hshader, hlines⟩ := Run.exists_ok_of_bind hlifted
  obtain ⟨nested, hread, hends⟩ := lift_preserves_dataflow_iff hshader rfl
  cases hread.symm.trans hlines
  refine ⟨by rw [hshader]; rfl, hsafely, ?_⟩
  obtain ⟨loaded, hloaded, -, hsafe⟩ := hends Nat comparison threeAndSeven
  rw [hloaded, hsafe hsafely]
  rfl

/-- A function that loads a variable, gives it a new value and then stores the loaded value. -/
def overwritten : StackFunction where
  name := "f"
  params := ["x"]
  body := [.loadLocal "x", .pushConst (.number (.int 1)), .storeLocal "x", .storeLocal "y"]

/-- The lifted statements do not see the value that was loaded. -/
theorem lift_overwritten_load :
    ∃ shader nested, (lift .standard overwritten [.pos 2] [] {}).outcome = .ok shader ∧
      Nesting.read? (shader.body.map fun line => line.statement.mark) = some nested ∧
      ∃ (I : Interpretation Bool) (store : Store Bool) (loaded : Final Bool),
        EndsWith I .atLoad (initialScope {} (List.zip [.pos 2] overwritten.params)) overwritten.body store
          (some loaded) ∧
        loaded.store "y" = false ∧ (Final.ofExecution (nested.execute I store)).store "y" = true := by
  have hlifted : ((lift .standard overwritten [.pos 2] [] {}).outcome.toOption.bind fun shader =>
      Nesting.read? (shader.body.map fun line => line.statement.mark)) =
        some (.leaf (.assign "x" (.number (.int 1))) (.leaf (.declare (.pos 2) "y" (.var "x")) .nil)) := by
    rfl
  obtain ⟨shader, hshader, hlines⟩ := Run.exists_ok_of_bind hlifted
  refine ⟨shader, _, hshader, hlines, ⟨fun _ => true, fun _ _ _ => true, fun _ _ => true, id⟩,
    fun _ => false, ⟨Store.set (Store.set (fun _ => false) "x" true) "y" false, none⟩, ?_, ?_, ?_⟩
  · exact .next (.next (.next (.next (.next (.refl _)))))
  · rfl
  · rfl

end ShaderLift
