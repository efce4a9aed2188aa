import ShaderLift.Proofs.LiftingContext
import ShaderLift.Proofs.ProgramLifting

/-!
# The code of expressions

The instructions of an expression, on any stack, push the typed expression and do nothing else, or they fail at the
first part of the expression that has no meaning.

* `Source.nodes` lists the parts of an expression in postfix order, one for each instruction (`Source.code_eq_map`).
* `State.visitAll` lifts instructions in a row.
* `Source.Evaluates`: the two ways in which the instructions of some nodes are lifted, closed under `Run.bind`.
* `Source.evaluates_code`: each expression is lifted in one of these ways.
* `Source.lift_code`: the same, read off for an expression in any state of lifting.
-/

namespace ShaderLift

namespace State

/-- Lifts instructions one after another.  No bodies are closed between them. -/
def visitAll (c : Context) (length : Nat) : Nat → State → List Instruction → Run State
  | _, s, [] => .pure s
  | index, s, i :: rest => (s.visit c length index i).bind fun s => visitAll c length (index + 1) s rest

theorem visitAll_append (c : Context) (length index : Nat) (s : State) (xs ys : List Instruction) :
    visitAll c length index s (xs ++ ys) =
      (visitAll c length index s xs).bind fun s => visitAll c length (index + xs.length) s ys := by
  induction xs generalizing index s with
  | nil => rfl
  | cons x xs ih =>
      have hindex : index + 1 + xs.length = index + (x :: xs).length := by
        rw [List.length_cons]
        omega
      simp only [List.cons_append, visitAll, Run.bind_assoc, ih, hindex]

theorem visitAll_singleton (c : Context) (length index : Nat) (s : State) (i : Instruction) :
    visitAll c length index s [i] = s.visit c length index i :=
  Run.bind_pure _

/-- Where no open body ends, lifting is lifting in a row. -/
theorem liftFrom_append_of_reachTo (c : Context) {length index : Nat} {s : State} {xs : List Instruction}
    (hjumps : ∀ i ∈ xs, i.isJump = false) (hreach : s.blocks.ReachTo (index + xs.length))
    (ys : List Instruction) :
    liftFrom c length index s (xs ++ ys) =
      (visitAll c length index s xs).bind fun s => liftFrom c length (index + xs.length) s ys := by
  induction xs generalizing index s with
  | nil => rfl
  | cons x xs ih =>
      have hindex : index + (x :: xs).length = index + 1 + xs.length := by
        rw [List.length_cons]
        omega
      rw [hindex] at hreach ⊢
      rw [List.cons_append, liftFrom, close_eq_pure (hreach.mono (by omega)), Run.pure_bind, visitAll,
        Run.bind_assoc]
      apply Run.bind_congr
      intro events next hvisit
      -- An instruction that is not a jump leaves the open bodies as they are.
      obtain ⟨later, hstep, -⟩ := visit_eq_ok hvisit
      obtain ⟨statement, hplain, -⟩ :=
        plainStep_of_step (a := .instruction ⟨x, hjumps x List.mem_cons_self⟩) hstep
      rw [← hplain.blocks_eq] at hreach
      exact ih (fun i hmem => hjumps i (List.mem_cons_of_mem _ hmem)) hreach

end State

namespace Source

/-- A part of an expression that has an instruction of its own. -/
inductive Node where
  /-- The function of a call. -/
  | callee (name : String)
  /-- An expression, whose operands or arguments come before it. -/
  | value (e : Source)

namespace Node

/-- The instruction of a node. -/
def instruction : Node → Instruction
  | callee name => .loadGlobal name
  | value (literal constant) => .pushConst constant
  | value (var name) => .loadLocal name
  | value (binary op _ _) => .binary op
  | value (call _ args) => .call args.length

/-- A node is well formed if it refers to a function or if it has a type. -/
def WellFormed (c : Context) (scope : Scope) : Node → Prop
  | callee name => (c.resolve name).isSome
  | value e => (e.type? c scope).isSome

/-- The kind of error for which a node is refused. -/
def errorKind (c : Context) : Node → ErrorKind
  | callee _ => .unknownIdentifier
  | value (literal _) => .unsupportedInstruction
  | value (var _) => .unknownIdentifier
  | value (binary _ _ _) => .typeMismatch
  | value (call name args) =>
      if (c.resolve name).any (·.hasArity args.length) then .typeMismatch else .arityMismatch

end Node

mutual

/-- The nodes of an expression in postfix order. -/
def nodes : Source → List Node
  | literal value => [.value (literal value)]
  | var name => [.value (var name)]
  | binary op left right => left.nodes ++ right.nodes ++ [.value (binary op left right)]
  | call callee args => .callee callee :: argsNodes args ++ [.value (call callee args)]

/-- The nodes of arguments, first one first. -/
def argsNodes : List Source → List Node
  | [] => []
  | arg :: rest => arg.nodes ++ argsNodes rest

end

mutual

/-- The instructions of an expression are those of its nodes. -/
theorem code_eq_map : (e : Source) → e.code = e.nodes.map Node.instruction
  | literal value => rfl
  | var name => rfl
  | binary op left right => by
      rw [code, nodes, List.map_append, List.map_append, ← code_eq_map left, ← code_eq_map right]
      rfl
  | call callee args => by
      rw [code, nodes, List.map_append, List.map_cons, ← argsCode_eq_map args]
      rfl

theorem argsCode_eq_map : (args : List Source) → argsCode args = (argsNodes args).map Node.instruction
  | [] => rfl
  | arg :: rest => by
      rw [argsCode, argsNodes, List.map_append, ← code_eq_map arg, ← argsCode_eq_map rest]

end

theorem length_nodes (e : Source) : e.nodes.length = e.code.length := by
  rw [code_eq_map, List.length_map]

theorem length_argsNodes (args : List Source) : (argsNodes args).length = (argsCode args).length := by
  rw [argsCode_eq_map, List.length_map]

/-! ## How nodes are lifted -/

/-- How the instructions of nodes are lifted, the first of which stands at `index`: either all nodes are well formed
and there is a state afterwards, or the first node that is not is refused.  No lines are added. -/
inductive Evaluates (c : Context) (scope : Scope) (index : Nat) :
    List Node → Option State → Run State → Prop
  | done {nodes : List Node} {next : State} {events : List Event}
      (hnodes : ∀ node ∈ nodes, node.WellFormed c scope) (hlines : events.filterMap Event.line? = []) :
      Evaluates c scope index nodes (some next) ⟨events, .ok next⟩
  | refused {before after : List Node} {node : Node} {events : List Event} {cause : Cause}
      (hbefore : ∀ node ∈ before, node.WellFormed c scope) (hnode : ¬ node.WellFormed c scope)
      (hkind : cause.kind = node.errorKind c) (hlines : events.filterMap Event.line? = []) :
      Evaluates c scope index (before ++ node :: after) none
        ⟨events, .error ⟨.instruction (index + before.length), cause⟩⟩

namespace Evaluates

variable {c : Context} {scope : Scope} {index : Nat}

theorem lines_eq {nodes : List Node} {last : Option State} {r : Run State}
    (h : Evaluates c scope index nodes last r) : r.lines = [] := by
  cases h with
  | done hnodes hlines => exact hlines
  | refused hbefore hnode hkind hlines => exact hlines

theorem outcome_of_some {nodes : List Node} {last : State} {r : Run State}
    (h : Evaluates c scope index nodes (some last) r) : r.outcome = .ok last := by
  cases h
  rfl

theorem outcome_of_none {nodes : List Node} {r : Run State} (h : Evaluates c scope index nodes none r) :
    ∃ before node after cause, nodes = before ++ node :: after ∧
      (∀ earlier ∈ before, earlier.WellFormed c scope) ∧ ¬ node.WellFormed c scope ∧
      r.outcome = .error ⟨.instruction (index + before.length), cause⟩ ∧ cause.kind = node.errorKind c := by
  cases h with
  | refused hbefore hnode hkind hlines => exact ⟨_, _, _, _, rfl, hbefore, hnode, rfl, hkind⟩

/-- Nodes that are lifted after others, where nothing comes of the second if nothing comes of the first. -/
theorem andThen {first second : List Node} {middle last : Option State} {r : Run State}
    {f : State → Run State} (h : Evaluates c scope index first middle r) (hnone : middle = none → last = none)
    (hf : ∀ next, middle = some next → Evaluates c scope (index + first.length) second last (f next)) :
    Evaluates c scope index (first ++ second) last (r.bind f) := by
  cases h with
  | @refused before after node events cause hbefore hnode hkind hlines =>
      rw [hnone rfl, List.append_assoc, List.cons_append]
      exact .refused hbefore hnode hkind hlines
  | @done _ next events hnodes hlines =>
      have hsecond := hf next rfl
      generalize hrun : f next = run at hsecond
      have hall {before : List Node} (hbefore : ∀ node ∈ before, node.WellFormed c scope) :
          ∀ node ∈ first ++ before, node.WellFormed c scope := by
        intro node hmem
        rcases List.mem_append.mp hmem with hmem | hmem
        · exact hnodes node hmem
        · exact hbefore node hmem
      have hquiet {later : List Event} (hlater : later.filterMap Event.line? = []) :
          (events ++ later).filterMap Event.line? = [] := by
        rw [List.filterMap_append, hlines, hlater, List.append_nil]
      cases hsecond with
      | @done _ last later hnodes' hlines' =>
          have hbind : Run.bind ⟨events, .ok next⟩ f = ⟨events ++ later, .ok last⟩ := by
            simp only [Run.bind, Run.after, hrun]
          rw [hbind]
          exact .done (hall hnodes') (hquiet hlines')
      | @refused before after node later cause hbefore hnode hkind hlines' =>
          have hlength : index + first.length + before.length = index + (first ++ before).length := by
            rw [List.length_append]
            omega
          have hbind : Run.bind ⟨events, .ok next⟩ f =
              ⟨events ++ later, .error ⟨.instruction (index + (first ++ before).length), cause⟩⟩ := by
            simp only [Run.bind, Run.after, hrun, hlength]
          rw [hbind, ← List.append_assoc]
          exact .refused (hall hbefore) hnode hkind (hquiet hlines')

/-- A single node, whose instruction changes only the state. -/
theorem single {length : Nat} {s : State} (node : Node) {done : Except Cause State}
    (hstep : s.step c length index node.instruction = done.map fun next => (next, []))
    (hok : ∀ next, done = .ok next → node.WellFormed c scope)
    (herror : ∀ cause, done = .error cause → ¬ node.WellFormed c scope ∧ cause.kind = node.errorKind c) :
    Evaluates c scope index [node] done.toOption (s.visitAll c length index [node.instruction]) := by
  rw [State.visitAll_singleton, State.visit]
  cases done with
  | ok next =>
      rw [hstep]
      refine .done (fun other hmem => ?_) rfl
      rw [List.mem_singleton.mp hmem]
      exact hok next rfl
  | error cause =>
      rw [hstep]
      obtain ⟨hnode, hkind⟩ := herror cause rfl
      have hnone : ∀ other ∈ ([] : List Node), other.WellFormed c scope :=
        fun _ hmem => absurd hmem List.not_mem_nil
      exact .refused hnone hnode hkind rfl

end Evaluates

/-! ## One node -/

section Nodes

variable (c : Context) (length index : Nat) (s : State)

theorem evaluates_literal (value : Literal) :
    Evaluates c s.scope index [.value (literal value)]
      (((literal value).operand? c s.scope).map fun operand => s.push operand.type operand.expr)
      (s.visitAll c length index [.pushConst value]) := by
  rw [← State.toOption_pushLiteral]
  refine .single (.value (literal value)) ?_ ?_ ?_
  · simp only [Node.instruction, State.step, bind, Except.bind]
    cases s.pushLiteral c value <;> rfl
  · intro next hpush
    have hoperand := State.toOption_pushLiteral c s value
    rw [hpush] at hoperand
    obtain ⟨operand, hoperand, -⟩ := Option.map_eq_some_iff.mp hoperand.symm
    rw [Node.WellFormed, (operand?_eq_some_iff.mp hoperand).1, Option.isSome_some]
  · intro cause hpush
    have hoperand := State.toOption_pushLiteral c s value
    rw [hpush] at hoperand
    refine ⟨?_, ?_⟩
    · rw [Node.WellFormed, ← map_type_operand?, Option.map_eq_none_iff.mp hoperand.symm]
      exact Bool.false_ne_true
    · unfold State.pushLiteral at hpush
      split at hpush
      · split at hpush
        · cases hpush
        · cases hpush
          rfl
      · cases hpush
      · cases hpush
        rfl

theorem evaluates_var (name : String) :
    Evaluates c s.scope index [.value (var name)]
      (((var name).operand? c s.scope).map fun operand => s.push operand.type operand.expr)
      (s.visitAll c length index [.loadLocal name]) := by
  cases hscope : s.scope name with
  | none =>
      have hoperand : (var name).operand? c s.scope = none := by
        simp only [operand?, type?, hscope]
        rfl
      have hstep : s.step c length index (Node.value (var name)).instruction =
          (.error (.unknownVariable name) : Except Cause State).map fun next => (next, []) := by
        simp only [Node.instruction, State.step, hscope]
        rfl
      rw [hoperand]
      refine .single (.value (var name)) hstep ?_ ?_
      · intro next hnext
        cases hnext
      · intro cause hcause
        cases hcause
        refine ⟨?_, rfl⟩
        rw [Node.WellFormed, type?, hscope]
        exact Bool.false_ne_true
  | some type =>
      have hoperand : (var name).operand? c s.scope = some ⟨type, .var name⟩ := by
        simp only [operand?, type?, hscope]
        rfl
      have hstep : s.step c length index (Node.value (var name)).instruction =
          (.ok (s.push type (.var name)) : Except Cause State).map fun next => (next, []) := by
        simp only [Node.instruction, State.step, hscope]
        rfl
      rw [hoperand]
      refine .single (.value (var name)) hstep ?_ ?_
      · intro next _
        rw [Node.WellFormed, type?, hscope, Option.isSome_some]
      · intro cause hcause
        cases hcause

theorem evaluates_callee (name : String) :
    Evaluates c s.scope index [.callee name] ((c.resolve name).map s.pushCallable)
      (s.visitAll c length index [.loadGlobal name]) := by
  have hstep : s.step c length index (Node.callee name).instruction =
      (s.pushFunction c name).map fun next => (next, []) := by
    simp only [Node.instruction, State.step, bind, Except.bind]
    cases s.pushFunction c name <;> rfl
  unfold State.pushFunction at hstep
  cases hresolve : c.resolve name with
  | none =>
      rw [hresolve] at hstep
      refine .single (.callee name) hstep ?_ ?_
      · intro next hnext
        cases hnext
      · intro cause hcause
        cases hcause
        refine ⟨?_, rfl⟩
        rw [Node.WellFormed, hresolve]
        exact Bool.false_ne_true
  | some callable =>
      rw [hresolve] at hstep
      refine .single (.callee name) hstep ?_ ?_
      · intro next _
        rw [Node.WellFormed, hresolve, Option.isSome_some]
      · intro cause hcause
        cases hcause

variable {c s}

/-- An operator whose operands are on the stack. -/
theorem evaluates_binary (op : Operator) {left right : Source} {first second : Operand}
    (hleft : left.operand? c s.scope = some first) (hright : right.operand? c s.scope = some second) :
    Evaluates c s.scope index [.value (binary op left right)]
      (((binary op left right).operand? c s.scope).map fun operand => s.push operand.type operand.expr)
      (((s.push first.type first.expr).push second.type second.expr).visitAll c length index [.binary op]) := by
  have htype : (binary op left right).type? c s.scope =
      (c.types.operatorType op first.type second.type).toOption := by
    rw [type?, (operand?_eq_some_iff.mp hleft).1, (operand?_eq_some_iff.mp hright).1]
    rfl
  have hoperand : ((binary op left right).operand? c s.scope).map (fun operand => s.push operand.type operand.expr) =
      (((s.push first.type first.expr).push second.type second.expr).applyOperator c op).toOption := by
    rw [operand?_binary, hleft, hright, State.toOption_applyOperator]
    simp only [Option.bind_some, Option.map_map, Function.comp_def]
  rw [hoperand]
  refine .single (.value (binary op left right)) ?_ ?_ ?_
  · simp only [Node.instruction, State.step, bind, Except.bind]
    cases State.applyOperator c _ op <;> rfl
  · intro next happly
    rw [Node.WellFormed, htype]
    cases hresult : c.types.operatorType op first.type second.type with
    | ok type => rfl
    | error error =>
        simp only [State.applyOperator, State.popOperand, State.push, bind, Except.bind, hresult] at happly
        cases happly
  · intro cause happly
    rw [Node.WellFormed, htype]
    cases hresult : c.types.operatorType op first.type second.type with
    | ok type =>
        simp only [State.applyOperator, State.popOperand, State.push, bind, Except.bind, hresult] at happly
        cases happly
    | error error =>
        simp only [State.applyOperator, State.popOperand, State.push, bind, Except.bind, hresult] at happly
        cases happly
        exact ⟨Bool.false_ne_true, rfl⟩

/-- A call is refused for its number of arguments if no signature has that number, and else for their types. -/
theorem call_error_kind {next : State} {args : List Operand} {callable : Callable} {rest : List Value}
    {cause : Cause} (hstack : next.stack = args.reverse.map .operand ++ .callable callable :: rest)
    (h : next.call c args.length = .error cause) :
    callable.signature? c.types (args.map Operand.type) = none ∧
      cause.kind = if callable.hasArity args.length then .typeMismatch else .arityMismatch := by
  have hlength : ¬next.stack.length < args.length + 1 := by
    simp only [hstack, List.length_append, List.length_map, List.length_reverse, List.length_cons]
    omega
  have hpop := State.popOperands_map_append args.reverse hstack
  rw [List.length_reverse, List.reverse_reverse] at hpop
  simp only [State.call, if_neg hlength, hpop, bind, Except.bind] at h
  split at h
  · cases h
  · rename_i hsignature
    refine ⟨hsignature, ?_⟩
    split at h
    · rename_i harity
      cases h
      rw [if_pos harity]
      rfl
    · rename_i harity
      cases h
      rw [if_neg harity]
      rfl

/-- A call whose function and arguments are on the stack. -/
theorem evaluates_call {callee : String} {args : List Source} {callable : Callable} {operands : List Operand}
    (hresolve : c.resolve callee = some callable) (hargs : operands? c s.scope args = some operands) :
    Evaluates c s.scope index [.value (call callee args)]
      (((call callee args).operand? c s.scope).map fun operand => s.push operand.type operand.expr)
      (State.visitAll c length index
        { s with stack := operands.reverse.map .operand ++ .callable callable :: s.stack } [.call args.length]) := by
  have hcount := length_of_operands? hargs
  have htype : (call callee args).type? c s.scope =
      (callable.signature? c.types (operands.map Operand.type)).map Signature.result := by
    rw [type?, hresolve, (operands?_eq_some_iff.mp hargs).1]
    simp only [Option.bind_eq_bind, Option.bind_some, Option.pure_def, Option.map_eq_bind, Function.comp_def]
  have hoperand : ((call callee args).operand? c s.scope).map (fun operand => s.push operand.type operand.expr) =
      (State.call c { s with stack := operands.reverse.map .operand ++ .callable callable :: s.stack }
        args.length).toOption := by
    rw [operand?_call, hresolve, hargs, ← hcount, State.toOption_call c rfl, Context.name_of_resolve hresolve]
    simp only [Option.bind_some, Option.map_map, Function.comp_def]
  rw [hoperand]
  refine .single (.value (call callee args)) ?_ ?_ ?_
  · simp only [Node.instruction, State.step, bind, Except.bind]
    cases State.call c _ args.length <;> rfl
  · intro next hcall
    rw [hcall] at hoperand
    obtain ⟨operand, hsome, -⟩ := Option.map_eq_some_iff.mp hoperand
    rw [Node.WellFormed, (operand?_eq_some_iff.mp hsome).1, Option.isSome_some]
  · intro cause hcall
    rw [← hcount] at hcall
    obtain ⟨hsignature, hkind⟩ := call_error_kind rfl hcall
    refine ⟨?_, ?_⟩
    · rw [Node.WellFormed, htype, hsignature]
      exact Bool.false_ne_true
    · rw [hkind, Node.errorKind, hresolve, Option.any_some, hcount]

end Nodes

/-! ## Whole expressions -/

mutual

/-- The instructions of an expression push the typed expression, or the first node that is not well formed is
refused. -/
theorem evaluates_code (c : Context) (length : Nat) :
    (e : Source) → (index : Nat) → (s : State) →
      Evaluates c s.scope index e.nodes
        ((e.operand? c s.scope).map fun operand => s.push operand.type operand.expr)
        (s.visitAll c length index e.code)
  | literal value, index, s => evaluates_literal c length index s value
  | var name, index, s => evaluates_var c length index s name
  | binary op left right, index, s => by
      rw [nodes, code, List.append_assoc, List.append_assoc, State.visitAll_append]
      refine (evaluates_code c length left index s).andThen ?_ ?_
      · intro hnone
        rw [operand?_binary, Option.map_eq_none_iff.mp hnone]
        rfl
      · intro next hnext
        obtain ⟨first, hleft, rfl⟩ := Option.map_eq_some_iff.mp hnext
        rw [length_nodes, State.visitAll_append]
        -- The left operand is on the stack while the right one is computed, in the same scope.
        refine (evaluates_code c length right _ (s.push first.type first.expr)).andThen ?_ ?_
        · intro hnone
          rw [operand?_binary, hleft, Option.bind_some]
          have hright : right.operand? c s.scope = none := Option.map_eq_none_iff.mp hnone
          rw [hright]
          rfl
        · intro next hnext
          obtain ⟨second, hright, rfl⟩ := Option.map_eq_some_iff.mp hnext
          rw [length_nodes]
          exact evaluates_binary length _ op hleft hright
  | call callee args, index, s => by
      have hcode : code (call callee args) =
          [.loadGlobal callee] ++ (argsCode args ++ [.call args.length]) := rfl
      have hnodes : nodes (call callee args) =
          [.callee callee] ++ (argsNodes args ++ [.value (call callee args)]) := rfl
      rw [hnodes, hcode, State.visitAll_append]
      refine (evaluates_callee c length index s callee).andThen ?_ ?_
      · intro hnone
        rw [operand?_call, Option.map_eq_none_iff.mp hnone]
        rfl
      · intro next hnext
        obtain ⟨callable, hresolve, rfl⟩ := Option.map_eq_some_iff.mp hnext
        rw [State.visitAll_append]
        -- The function is on the stack below the arguments.
        refine (evaluates_argsCode c length args _ (s.pushCallable callable)).andThen ?_ ?_
        · intro hnone
          rw [operand?_call, hresolve, Option.bind_some]
          have hargs : operands? c s.scope args = none := Option.map_eq_none_iff.mp hnone
          rw [hargs]
          rfl
        · intro next hnext
          obtain ⟨operands, hargs, rfl⟩ := Option.map_eq_some_iff.mp hnext
          rw [length_argsNodes]
          exact evaluates_call (s := s) length _ hresolve hargs

/-- The instructions of arguments push the typed expressions, the last one on top. -/
theorem evaluates_argsCode (c : Context) (length : Nat) :
    (args : List Source) → (index : Nat) → (s : State) →
      Evaluates c s.scope index (argsNodes args)
        ((operands? c s.scope args).map fun operands =>
          { s with stack := operands.reverse.map .operand ++ s.stack })
        (s.visitAll c length index (argsCode args))
  | [], index, s => .done (fun _ hmem => absurd hmem List.not_mem_nil) rfl
  | arg :: rest, index, s => by
      rw [argsNodes, argsCode, State.visitAll_append]
      refine (evaluates_code c length arg index s).andThen ?_ ?_
      · intro hnone
        rw [operands?, Option.map_eq_none_iff.mp hnone]
        rfl
      · intro next hnext
        obtain ⟨operand, harg, rfl⟩ := Option.map_eq_some_iff.mp hnext
        have hresult : (operands? c s.scope (arg :: rest)).map (fun operands =>
              ({ s with stack := operands.reverse.map .operand ++ s.stack } : State)) =
            (operands? c s.scope rest).map fun operands =>
              { s with stack := operands.reverse.map .operand ++ .operand operand :: s.stack } := by
          simp only [operands?, harg, Option.bind_eq_bind, Option.bind_some, Option.pure_def, Option.map_eq_bind,
            Option.bind_assoc, Function.comp_def, List.reverse_cons, List.map_append, List.map_cons,
            List.map_nil, List.append_assoc, List.cons_append, List.nil_append]
        rw [hresult, length_nodes]
        exact evaluates_argsCode c length rest _ (s.push operand.type operand.expr)

end

/-- The instructions of an expression in any state of lifting, where calls refer to the bound shaders first and to the
functions of the dialect second.  If the expression has a type, they push one operand with that type and with the text
of the expression, and change nothing else.  If not, they fail at the first node in postfix order that is not well
formed, for the reason of that node.  Where no open body ends before the expression does, this is how it is lifted as a
part of a function. -/
theorem lift_code (d : Dialect) (bound : List Shader) (length index : Nat) (s : State) (e : Source) :
    let c := Context.ofDialect d bound
    let run := s.visitAll c length index e.code
    (∀ type, e.type? c s.scope = some type →
      ∃ expr, e.expr? = some expr ∧ expr.text = e.text ∧
        run.outcome = .ok { s with stack := .operand ⟨type, expr⟩ :: s.stack }) ∧
    (e.type? c s.scope = none →
      ∃ before node after cause, e.nodes = before ++ node :: after ∧
        (∀ earlier ∈ before, earlier.WellFormed c s.scope) ∧ ¬ node.WellFormed c s.scope ∧
        run.outcome = .error ⟨.instruction (index + before.length), cause⟩ ∧
        cause.kind = node.errorKind c) ∧
    run.lines = [] ∧ e.code = e.nodes.map Node.instruction ∧
    (∀ name, c.resolve name =
      ((bound.find? (·.name == name)).map Shader.callable).or (d.functions.find? name)) ∧
    (s.blocks.ReachTo (index + e.code.length) → ∀ rest,
      State.liftFrom c length index s (e.code ++ rest) =
        run.bind fun s => State.liftFrom c length (index + e.code.length) s rest) := by
  intro c run
  have hevaluates := e.evaluates_code c length index s
  refine ⟨?_, ?_, hevaluates.lines_eq, e.code_eq_map, Context.resolve_ofDialect d bound, ?_⟩
  · intro type htype
    obtain ⟨expr, hexpr⟩ := e.exists_expr?_of_type? htype
    have hoperand : e.operand? c s.scope = some ⟨type, expr⟩ := operand?_eq_some_iff.mpr ⟨htype, hexpr⟩
    rw [hoperand] at hevaluates
    exact ⟨expr, hexpr, text_of_expr? hexpr, hevaluates.outcome_of_some⟩
  · intro htype
    rw [← map_type_operand?, Option.map_eq_none_iff] at htype
    rw [htype] at hevaluates
    exact hevaluates.outcome_of_none
  · intro hreach
    exact State.liftFrom_append_of_reachTo c (fun i => e.isJump_of_mem_code) hreach

/-- A call of a function with two components. -/
def components (callee : String) : Source :=
  .call callee [.binary .mul (.var "x") (.binary .sub (.var "x") (.literal (.number (.int 2)))), .var "x"]

/-- A state inside of a body, with a value and a function on the stack. -/
def insideBody : State where
  scope := Scope.empty.declare "x" (.pos 3)
  stack := [.operand ⟨.pos 2, .var "i"⟩, .callable ⟨"f", []⟩]
  blocks := [.ifBody 20]

set_option maxRecDepth 4000 in
/-- Two components make a `vec2`, but no `vec3`. -/
theorem lift_code_components :
    (∃ expr : Expr, expr.text = "vec2(x * (x - 2), x)" ∧
      (insideBody.visitAll (.ofDialect .standard []) 30 7 (components "vec2").code).outcome =
        .ok { insideBody with stack := .operand ⟨.pos 4, expr⟩ :: insideBody.stack }) ∧
      (insideBody.visitAll (.ofDialect .standard []) 30 7 (components "vec3").code).outcome =
        .error ⟨.instruction 14, .argumentCount "vec3" [3] 2⟩ := by
  obtain ⟨hpushes, -⟩ := lift_code .standard [] 30 7 insideBody (components "vec2")
  obtain ⟨expr, -, htext, houtcome⟩ := hpushes (.pos 4) (by rfl)
  exact ⟨⟨expr, htext.trans (by decide +kernel), houtcome⟩, by rfl⟩

end Source

end ShaderLift
