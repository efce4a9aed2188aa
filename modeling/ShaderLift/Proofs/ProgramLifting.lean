import ShaderLift.Proofs.LiftedLines
import ShaderLift.Proofs.ProgramText

/-!
# Lifting structured programs

The instructions of a structured program are lifted exactly if the program passes the check, and the lines of the lifted
body are the program's own text.

* `Nesting.flatten_toTree`: the instructions of a program are a flattened tree of the jump grammar.
* `Source.nested?_code`: the instructions of an expression push the typed expression, or fail if there is none.
* `Nesting.nested?_toTree`: lifting the tree of a program is elaborating the program.
* `lift_lower`: lifting the instructions of a program is checking the program and writing it down.
-/

namespace ShaderLift

/-! ## The tree of a program -/

/-- An instruction that is not a jump, as a part of a tree. -/
def Plain.ofInstruction (i : Instruction) : Plain :=
  if h : i.isJump = false then .instruction ⟨i, h⟩ else .skip

theorem Plain.at_ofInstruction {i : Instruction} (h : i.isJump = false) (index : Nat) :
    (Plain.ofInstruction i).at index = i := by
  rw [Plain.ofInstruction, dif_pos h]
  rfl

namespace Nesting

/-- Instructions that are not jumps in front of a tree. -/
def plains (code : List Instruction) (t : JumpTree) : JumpTree :=
  leaves (code.map Plain.ofInstruction) t

/-- The tree of the instructions of a program. -/
def toTree : StructuredProgram → JumpTree
  | nil => nil
  | leaf command rest => plains command.code rest.toTree
  | ifThen e body rest => plains e.code (ifThen () body.toTree rest.toTree)
  | ifElse e body other rest => plains e.code (ifElse () body.toTree other.toTree rest.toTree)

theorem plains_append (code code' : List Instruction) (t : JumpTree) :
    plains (code ++ code') t = plains code (plains code' t) := by
  simp only [plains, leaves, List.map_append, List.foldr_append]

theorem size_plains (code : List Instruction) (t : JumpTree) :
    (plains code t).size = code.length + t.size := by
  induction code with
  | nil => exact (Nat.zero_add _).symm
  | cons i code ih =>
      show (plains code t).size + 1 = _
      rw [ih, List.length_cons]
      omega

theorem proper_plains {code : List Instruction} {t : JumpTree} (h : t.Proper) :
    (plains code t).Proper := by
  induction code with
  | nil => exact h
  | cons i code ih => exact ih

theorem flatten_plains {code : List Instruction} (hcode : ∀ i ∈ code, i.isJump = false) (t : JumpTree)
    (index : Nat) : (plains code t).flatten index = code ++ t.flatten (index + code.length) := by
  induction code generalizing index with
  | nil => rfl
  | cons i code ih =>
      have hindex : index + (i :: code).length = index + 1 + code.length := by
        rw [List.length_cons]
        omega
      have hrest := ih (fun j hmem => hcode j (List.mem_cons_of_mem _ hmem)) (index + 1)
      rw [hindex, List.cons_append, ← hrest]
      show (Plain.ofInstruction i).at index :: (plains code t).flatten (index + 1) = _
      rw [Plain.at_ofInstruction (hcode i List.mem_cons_self)]

end Nesting

namespace Source

mutual

theorem isJump_of_mem_code {i : Instruction} : (e : Source) → i ∈ e.code → i.isJump = false
  | literal value, h => by
      rw [code, List.mem_singleton] at h
      rw [h]
      rfl
  | var name, h => by
      rw [code, List.mem_singleton] at h
      rw [h]
      rfl
  | binary op left right, h => by
      rw [code, List.mem_append, List.mem_append, List.mem_singleton] at h
      rcases h with (hleft | hright) | rfl
      · exact isJump_of_mem_code left hleft
      · exact isJump_of_mem_code right hright
      · rfl
  | call callee args, h => by
      rw [code, List.cons_append, List.mem_cons, List.mem_append, List.mem_singleton] at h
      rcases h with rfl | hargs | rfl
      · rfl
      · exact isJump_of_mem_argsCode args hargs
      · rfl

theorem isJump_of_mem_argsCode {i : Instruction} :
    (args : List Source) → i ∈ argsCode args → i.isJump = false
  | [], h => by
      rw [argsCode] at h
      exact absurd h List.not_mem_nil
  | arg :: rest, h => by
      rw [argsCode, List.mem_append] at h
      rcases h with harg | hrest
      · exact isJump_of_mem_code arg harg
      · exact isJump_of_mem_argsCode rest hrest

end

end Source

theorem Command.isJump_of_mem_code {i : Instruction} {command : Command} (h : i ∈ command.code) :
    i.isJump = false := by
  cases command with
  | assign name value =>
      rw [code, List.mem_append, List.mem_singleton] at h
      rcases h with hvalue | rfl
      · exact value.isJump_of_mem_code hvalue
      · rfl
  | eval value =>
      rw [code, List.mem_append, List.mem_singleton] at h
      rcases h with hvalue | rfl
      · exact value.isJump_of_mem_code hvalue
      · rfl
  | ret value =>
      cases value with
      | none =>
          rw [code, List.mem_singleton] at h
          rw [h]
          rfl
      | some value =>
          rw [code, List.mem_append, List.mem_singleton] at h
          rcases h with hvalue | rfl
          · exact value.isJump_of_mem_code hvalue
          · rfl

theorem Command.code_ne_nil (command : Command) : command.code ≠ [] := by
  cases command with
  | assign name value => exact List.append_ne_nil_of_right_ne_nil _ (List.cons_ne_nil _ _)
  | eval value => exact List.append_ne_nil_of_right_ne_nil _ (List.cons_ne_nil _ _)
  | ret value =>
      cases value with
      | none => exact List.cons_ne_nil _ _
      | some value => exact List.append_ne_nil_of_right_ne_nil _ (List.cons_ne_nil _ _)

namespace Nesting

theorem size_toTree (p : StructuredProgram) : p.toTree.size = p.codeSize := by
  induction p with
  | nil => rfl
  | leaf command rest ih => rw [toTree, size_plains, ih, codeSize]
  | ifThen e body rest ihBody ihRest =>
      rw [toTree, size_plains, size, ihBody, ihRest, codeSize]
      omega
  | ifElse e body other rest ihBody ihOther ihRest =>
      rw [toTree, size_plains, size, ihBody, ihOther, ihRest, codeSize]
      omega

/-- The instructions of a program are its tree written flat. -/
theorem flatten_toTree (p : StructuredProgram) (index : Nat) :
    p.toTree.flatten index = p.lower index := by
  induction p generalizing index with
  | nil => rfl
  | leaf command rest ih =>
      rw [toTree, flatten_plains (fun _ => Command.isJump_of_mem_code), ih, lower]
  | ifThen e body rest ihBody ihRest =>
      rw [toTree, flatten_plains (fun _ => e.isJump_of_mem_code), flatten, size_toTree, ihBody, ihRest,
        lower]
  | ifElse e body other rest ihBody ihOther ihRest =>
      rw [toTree, flatten_plains (fun _ => e.isJump_of_mem_code), flatten, size_toTree, size_toTree,
        ihBody, ihOther, ihRest, lower]

theorem toTree_ne_nil {p : StructuredProgram} (h : p ≠ nil) : p.toTree ≠ nil := by
  intro htree
  have hsize : p.codeSize = 0 := by
    rw [← size_toTree, htree]
    rfl
  cases p with
  | nil => exact h rfl
  | leaf command rest =>
      have hlength := List.length_pos_iff.mpr command.code_ne_nil
      rw [codeSize] at hsize
      omega
  | ifThen e body rest =>
      rw [codeSize] at hsize
      omega
  | ifElse e body other rest =>
      rw [codeSize] at hsize
      omega

theorem proper_toTree {p : StructuredProgram} (h : p.Proper) : p.toTree.Proper := by
  induction p with
  | nil => trivial
  | leaf command rest ih => exact proper_plains (ih h)
  | ifThen e body rest ihBody ihRest => exact proper_plains ⟨ihBody h.1, ihRest h.2⟩
  | ifElse e body other rest ihBody ihOther ihRest =>
      obtain ⟨hbody, hne, hother, hrest⟩ := h
      exact proper_plains ⟨ihBody hbody, toTree_ne_nil hne, ihOther hother, ihRest hrest⟩

end Nesting

/-! ## The nested statements that a tree is lifted to -/

/-- The result of a run that did not fail. -/
def Run.result? {α : Type} (r : Run α) : Option α :=
  r.outcome.toOption

theorem Run.result?_pure {α : Type} (a : α) : (Run.pure a).result? = some a := rfl

theorem Run.result?_bind {α β : Type} (r : Run α) (f : α → Run β) :
    (r.bind f).result? = r.result?.bind fun a => (f a).result? := by
  obtain ⟨events, outcome⟩ := r
  cases outcome with
  | error e => rfl
  | ok a => rfl

theorem Run.result?_eq_some_iff {α : Type} {r : Run α} {a : α} :
    r.result? = some a ↔ r.outcome = .ok a :=
  toOption_outcome_eq_some_iff

namespace Nesting

/-- The nested statements that a tree is lifted to, with the state afterwards. -/
def nested? (c : Context) (length index : Nat) (s : State) (t : JumpTree) :
    Option (Nesting Statement Expr × State) :=
  (t.lift c length index s).result?.map fun (lines, last) => (lines.statements, last)

variable (c : Context) (length index : Nat) (s : State)

theorem statements_leaves (placed : List (Nat × Statement)) (t : PlacedNesting) :
    (leaves placed t).statements = leaves (placed.map Prod.snd) t.statements := by
  induction placed with
  | nil => rfl
  | cons first placed ih =>
      show leaf first.2 (leaves placed t).statements = _
      rw [ih]
      rfl

theorem nested?_leaf (a : Plain) (rest : JumpTree) :
    nested? c length index s (leaf a rest) =
      (s.step c length index (a.at index)).toOption.bind fun (next, events) =>
        (rest.nested? c length (index + 1) next).map fun (nested, last) =>
          (leaves ((events.filterMap Event.line?).map Line.statement) nested, last) := by
  cases hstep : s.step c length index (a.at index) with
  | error cause => simp only [nested?, lift, State.visit, hstep]; rfl
  | ok done =>
      obtain ⟨next, events⟩ := done
      have hvisit : s.visit c length index (a.at index) =
          ⟨.visited index (a.at index) s.depth :: events, .ok next⟩ := by
        simp only [State.visit, hstep]
      have hlines : (s.visit c length index (a.at index)).lines = events.filterMap Event.line? := by
        rw [hvisit]
        rfl
      have hresult : (s.visit c length index (a.at index)).result? = some next := by
        rw [hvisit]
        rfl
      have htoOption : (Except.ok (next, events) : Except Cause _).toOption = some (next, events) := rfl
      simp only [nested?, lift, Run.result?_bind, Run.result?_pure, hresult, hlines, htoOption,
        Option.bind_some, Option.map_eq_bind, Option.bind_assoc, Function.comp_def, statements_leaves,
        List.map_map]

theorem nested?_ifThen (body rest : JumpTree) :
    nested? c length index s (ifThen () body rest) =
      (s.enterIf c index (index + 1 + body.size)).result?.bind fun (condition, inside) =>
        (body.nested? c length (index + 1) inside).bind fun (inner, inside) =>
          (inside.leaveBody (index + 1 + body.size)).result?.bind fun outside =>
            (rest.nested? c length (index + 1 + body.size) outside).map fun (nested, last) =>
              (ifThen condition inner nested, last) := by
  simp only [nested?, lift, Run.result?_bind, Run.result?_pure, Option.map_eq_bind, Option.bind_assoc,
    Option.bind_some, Function.comp_def]
  rfl

theorem nested?_ifElse (body other rest : JumpTree) :
    nested? c length index s (ifElse () body other rest) =
      let middle := index + 1 + body.size + 1
      let stop := middle + other.size
      (s.enterIf c index middle).result?.bind fun (condition, inside) =>
        (body.nested? c length (index + 1) inside).bind fun (inner, inside) =>
          (inside.switchElse (index + 1 + body.size) stop).result?.bind fun inside =>
            (other.nested? c length middle inside).bind fun (alternative, inside) =>
              (inside.leaveBody stop).result?.bind fun outside =>
                (rest.nested? c length stop outside).map fun (nested, last) =>
                  (ifElse condition inner alternative nested, last) := by
  simp only [nested?, lift, Run.result?_bind, Run.result?_pure, Option.map_eq_bind, Option.bind_assoc,
    Option.bind_some, Function.comp_def]
  rfl

/-- An instruction that only changes the state. -/
theorem nested?_quiet {i : Instruction} (hi : i.isJump = false) {done : Except Cause State}
    (hstep : s.step c length index i = done.map fun next => (next, [])) (t : JumpTree) :
    nested? c length index s (plains [i] t) =
      done.toOption.bind fun next => t.nested? c length (index + 1) next := by
  show nested? c length index s (leaf (Plain.ofInstruction i) t) = _
  rw [nested?_leaf, Plain.at_ofInstruction hi, hstep]
  cases done with
  | error cause => rfl
  | ok next =>
      show Option.map _ (t.nested? c length (index + 1) next) = t.nested? c length (index + 1) next
      cases t.nested? c length (index + 1) next with
      | none => rfl
      | some done => rfl

/-- An instruction that adds a statement. -/
theorem nested?_statement {i : Instruction} (hi : i.isJump = false) {done : Except Cause State}
    {events : State → List Event} {statement : Statement}
    (hstep : s.step c length index i = done.map fun next => (next, events next))
    (hevents : ∀ next, ((events next).filterMap Event.line?).map Line.statement = [statement])
    (t : JumpTree) :
    nested? c length index s (plains [i] t) =
      done.toOption.bind fun next =>
        (t.nested? c length (index + 1) next).map fun (nested, last) => (leaf statement nested, last) := by
  show nested? c length index s (leaf (Plain.ofInstruction i) t) = _
  rw [nested?_leaf, Plain.at_ofInstruction hi, hstep]
  cases done with
  | error cause => rfl
  | ok next =>
      show Option.map _ (t.nested? c length (index + 1) next) = _
      rw [hevents]
      rfl

end Nesting

/-! ## Expressions -/

namespace State

theorem toOption_pushLiteral (c : Context) (s : State) (value : Literal) :
    (s.pushLiteral c value).toOption =
      ((Source.literal value).operand? c s.scope).map fun operand => s.push operand.type operand.expr := by
  cases value with
  | number value =>
      cases value with
      | int value =>
          simp only [pushLiteral, Source.operand?, Source.type?, Context.numberType?, Source.expr?]
          split
          · rfl
          · rfl
      | float value => rfl
  | bool value => rfl
  | str value => rfl
  | none => rfl

theorem toOption_applyOperator (c : Context) (s : State) (op : Operator) (left right : Operand) :
    (((s.push left.type left.expr).push right.type right.expr).applyOperator c op).toOption =
      (c.types.operatorType op left.type right.type).toOption.map fun type =>
        s.push type (.binary op left.expr right.expr) := by
  simp only [applyOperator, popOperand, push, bind, Except.bind]
  cases c.types.operatorType op left.type right.type with
  | error error => rfl
  | ok type => rfl

/-- Values on top of the stack are taken in one go. -/
theorem popOperands_map_append (operands : List Operand) {rest : List Value} {s : State}
    (hstack : s.stack = operands.map .operand ++ rest) :
    s.popOperands operands.length = .ok (operands.reverse, { s with stack := rest }) := by
  induction operands generalizing s with
  | nil =>
      have hrest : s.stack = rest := hstack
      rw [← hrest]
      rfl
  | cons operand operands ih =>
      have hpop : s.popOperand = .ok (operand, { s with stack := operands.map .operand ++ rest }) := by
        simp only [popOperand, hstack, List.map_cons, List.cons_append]
      have hothers := ih (s := { s with stack := operands.map .operand ++ rest }) rfl
      simp only [List.length_cons, popOperands, hpop, hothers, bind, Except.bind, List.reverse_cons]
      rfl

theorem toOption_call (c : Context) {s : State} {args : List Operand} {callee : Callable}
    {rest : List Value} (hstack : s.stack = args.reverse.map .operand ++ .callable callee :: rest) :
    (s.call c args.length).toOption =
      (callee.signature? c.types (args.map Operand.type)).map fun signature =>
        { s with stack := rest }.push signature.result (.call callee.name (args.map Operand.expr)) := by
  have hlength : ¬s.stack.length < args.length + 1 := by
    simp only [hstack, List.length_append, List.length_map, List.length_reverse, List.length_cons]
    omega
  have hpop := popOperands_map_append args.reverse hstack
  rw [List.length_reverse, List.reverse_reverse] at hpop
  simp only [call, if_neg hlength, hpop, bind, Except.bind]
  cases callee.signature? c.types (args.map Operand.type) with
  | some signature => rfl
  | none =>
      dsimp only
      split
      · rfl
      · rfl

end State

namespace Source

theorem operand?_binary (c : Context) (scope : Scope) (op : Operator) (left right : Source) :
    (binary op left right).operand? c scope =
      (left.operand? c scope).bind fun first => (right.operand? c scope).bind fun second =>
        (c.types.operatorType op first.type second.type).toOption.map fun type =>
          ⟨type, .binary op first.expr second.expr⟩ := by
  ext operand
  simp only [operand?_eq_some_iff, type?, expr?, Option.bind_eq_bind, Option.bind_eq_some_iff,
    Option.map_eq_some_iff]
  constructor
  · rintro ⟨⟨leftType, hleftType, rightType, hrightType, htype⟩, leftExpr, hleftExpr, rightExpr,
      hrightExpr, hexpr⟩
    refine ⟨⟨leftType, leftExpr⟩, ⟨hleftType, hleftExpr⟩, ⟨rightType, rightExpr⟩,
      ⟨hrightType, hrightExpr⟩, operand.type, htype, ?_⟩
    exact congrArg (Operand.mk operand.type) (Option.some.inj hexpr)
  · rintro ⟨first, ⟨hleftType, hleftExpr⟩, second, ⟨hrightType, hrightExpr⟩, type, htype, rfl⟩
    exact ⟨⟨_, hleftType, _, hrightType, htype⟩, _, hleftExpr, _, hrightExpr, rfl⟩

/-- Typed arguments have the types and the text of what they stand for. -/
theorem operands?_eq_some_iff {c : Context} {scope : Scope} {args : List Source}
    {operands : List Operand} :
    operands? c scope args = some operands ↔
      argTypes? c scope args = some (operands.map Operand.type) ∧
        argExprs? args = some (operands.map Operand.expr) := by
  induction args generalizing operands with
  | nil =>
      cases operands with
      | nil => simp only [operands?, argTypes?, argExprs?, List.map_nil, and_self]
      | cons operand operands =>
          simp only [operands?, argTypes?, argExprs?, Option.some.injEq, List.map_cons, reduceCtorEq,
            and_self]
  | cons arg rest ih =>
      simp only [operands?, argTypes?, argExprs?, Option.bind_eq_bind, Option.bind_eq_some_iff,
        operand?_eq_some_iff, ih]
      constructor
      · rintro ⟨operand, ⟨htype, hexpr⟩, others, ⟨htypes, hexprs⟩, hoperands⟩
        cases hoperands
        exact ⟨⟨_, htype, _, htypes, rfl⟩, _, hexpr, _, hexprs, rfl⟩
      · rintro ⟨⟨type, htype, types, htypes, htypes'⟩, expr, hexpr, exprs, hexprs, hexprs'⟩
        cases operands with
        | nil => cases htypes'
        | cons operand others =>
            cases htypes'
            cases hexprs'
            exact ⟨operand, ⟨htype, hexpr⟩, others, ⟨htypes, hexprs⟩, rfl⟩

theorem length_of_operands? {c : Context} {scope : Scope} {args : List Source}
    {operands : List Operand} (h : operands? c scope args = some operands) :
    operands.length = args.length := by
  induction args generalizing operands with
  | nil =>
      cases h
      rfl
  | cons arg rest ih =>
      simp only [operands?, Option.bind_eq_bind, Option.bind_eq_some_iff] at h
      obtain ⟨operand, -, others, hothers, h⟩ := h
      cases h
      rw [List.length_cons, List.length_cons, ih hothers]

theorem exists_operands? {c : Context} {scope : Scope} {args : List Source} {types : List TypeId}
    (h : argTypes? c scope args = some types) : ∃ operands, operands? c scope args = some operands := by
  induction args generalizing types with
  | nil => exact ⟨[], rfl⟩
  | cons arg rest ih =>
      simp only [argTypes?, Option.bind_eq_bind, Option.bind_eq_some_iff] at h
      obtain ⟨type, htype, types', htypes, -⟩ := h
      obtain ⟨expr, hexpr⟩ := exists_expr?_of_type? arg htype
      obtain ⟨others, hothers⟩ := ih htypes
      have harg : arg.operand? c scope = some ⟨type, expr⟩ := operand?_eq_some_iff.mpr ⟨htype, hexpr⟩
      exact ⟨⟨type, expr⟩ :: others, by simp only [operands?, harg, hothers]; rfl⟩

theorem operand?_call (c : Context) (scope : Scope) (callee : String) (args : List Source) :
    (call callee args).operand? c scope =
      (c.resolve callee).bind fun callable => (operands? c scope args).bind fun operands =>
        (callable.signature? c.types (operands.map Operand.type)).map fun signature =>
          ⟨signature.result, .call callee (operands.map Operand.expr)⟩ := by
  ext operand
  simp only [operand?_eq_some_iff, type?, expr?, Option.bind_eq_bind, Option.bind_eq_some_iff,
    Option.map_eq_some_iff]
  constructor
  · rintro ⟨⟨callable, hresolve, types, htypes, signature, hsignature, htype⟩, exprs, hexprs, hexpr⟩
    obtain ⟨operands, hoperands⟩ := exists_operands? htypes
    obtain ⟨htypes', hexprs'⟩ := operands?_eq_some_iff.mp hoperands
    obtain rfl := Option.some.inj (htypes'.symm.trans htypes)
    obtain rfl := Option.some.inj (hexprs'.symm.trans hexprs)
    refine ⟨callable, hresolve, operands, hoperands, signature, hsignature, ?_⟩
    have hresult : signature.result = operand.type := Option.some.inj htype
    have hcall : Expr.call callee (operands.map Operand.expr) = operand.expr := Option.some.inj hexpr
    rw [hresult, hcall]
  · rintro ⟨callable, hresolve, operands, hoperands, signature, hsignature, rfl⟩
    obtain ⟨htypes, hexprs⟩ := operands?_eq_some_iff.mp hoperands
    exact ⟨⟨callable, hresolve, _, htypes, signature, hsignature, rfl⟩, _, hexprs, rfl⟩

mutual

/-- The instructions of an expression push the typed expression, or fail if there is none. -/
theorem nested?_code (c : Context) (length : Nat) :
    (e : Source) → (index : Nat) → (s : State) → (t : JumpTree) →
      Nesting.nested? c length index s (.plains e.code t) =
        (e.operand? c s.scope).bind fun operand =>
          t.nested? c length (index + e.code.length) (s.push operand.type operand.expr)
  | literal value, index, s, t => by
      have hstep : s.step c length index (.pushConst value) =
          (s.pushLiteral c value).map fun next => (next, []) := by
        simp only [State.step, bind, Except.bind]
        cases s.pushLiteral c value <;> rfl
      rw [code, Nesting.nested?_quiet c length index s rfl hstep, State.toOption_pushLiteral,
        Option.bind_map]
      rfl
  | var name, index, s, t => by
      rw [code]
      cases hscope : s.scope name with
      | none =>
          have hstep : s.step c length index (.loadLocal name) =
              (.error (.unknownVariable name) : Except Cause State).map fun next => (next, []) := by
            simp only [State.step, hscope]
            rfl
          rw [Nesting.nested?_quiet c length index s rfl hstep]
          simp only [operand?, type?, hscope]
          rfl
      | some type =>
          have hstep : s.step c length index (.loadLocal name) =
              (.ok (s.push type (.var name)) : Except Cause State).map fun next => (next, []) := by
            simp only [State.step, hscope]
            rfl
          rw [Nesting.nested?_quiet c length index s rfl hstep]
          simp only [operand?, type?, hscope, expr?]
          rfl
  | binary op left right, index, s, t => by
      rw [code, Nesting.plains_append, Nesting.plains_append, nested?_code c length left,
        operand?_binary, Option.bind_assoc]
      -- Both sides fail with the left operand; otherwise it is on the stack while the right one is computed.
      refine congrArg _ (funext fun first => ?_)
      rw [nested?_code c length right, Option.bind_assoc]
      refine congrArg _ (funext fun second => ?_)
      have hstep (s : State) (index : Nat) : s.step c length index (.binary op) =
          (s.applyOperator c op).map fun next => (next, []) := by
        simp only [State.step, bind, Except.bind]
        cases s.applyOperator c op <;> rfl
      rw [Nesting.nested?_quiet _ _ _ _ rfl (hstep _ _), State.toOption_applyOperator, Option.bind_map,
        Option.bind_map]
      simp only [Function.comp_def, List.length_append, List.length_singleton, Nat.add_assoc]
  | call callee args, index, s, t => by
      have hload : s.step c length index (.loadGlobal callee) =
          (s.pushFunction c callee).map fun next => (next, []) := by
        simp only [State.step, bind, Except.bind]
        cases s.pushFunction c callee <;> rfl
      have hcode : code (call callee args) =
          [.loadGlobal callee] ++ (argsCode args ++ [.call args.length]) := rfl
      rw [hcode, Nesting.plains_append, Nesting.nested?_quiet _ _ _ _ rfl hload, operand?_call,
        Option.bind_assoc, State.pushFunction]
      cases hresolve : c.resolve callee with
      | none => rfl
      | some callable =>
          -- The callable is below the arguments, and a call is written with its name.
          have hname := Context.name_of_resolve hresolve
          show Nesting.nested? c length (index + 1) (s.pushCallable callable) _ = _
          rw [Option.bind_some, Nesting.plains_append, nested?_argsCode c length args, Option.bind_assoc]
          show (operands? c s.scope args).bind _ = _
          cases hoperands : operands? c s.scope args with
          | none => rfl
          | some operands =>
              have hcall (s : State) (index : Nat) : s.step c length index (.call args.length) =
                  (s.call c operands.length).map fun next => (next, []) := by
                rw [length_of_operands? hoperands]
                simp only [State.step, bind, Except.bind]
                cases s.call c args.length <;> rfl
              rw [Option.bind_some, Option.bind_some, Nesting.nested?_quiet _ _ _ _ rfl (hcall _ _),
                State.toOption_call c rfl, Option.bind_map, Option.bind_map, hname]
              simp only [Function.comp_def, List.length_append, List.length_singleton, Nat.add_assoc]
              rfl

/-- The instructions of arguments push the typed expressions, the last one on top. -/
theorem nested?_argsCode (c : Context) (length : Nat) :
    (args : List Source) → (index : Nat) → (s : State) → (t : JumpTree) →
      Nesting.nested? c length index s (.plains (argsCode args) t) =
        (operands? c s.scope args).bind fun operands =>
          t.nested? c length (index + (argsCode args).length)
            { s with stack := operands.reverse.map .operand ++ s.stack }
  | [], index, s, t => rfl
  | arg :: rest, index, s, t => by
      rw [argsCode, Nesting.plains_append, nested?_code c length arg]
      simp only [operands?, Option.bind_eq_bind, Option.bind_assoc]
      refine congrArg _ (funext fun operand => ?_)
      rw [nested?_argsCode c length rest]
      refine congrArg _ (funext fun others => ?_)
      simp only [State.push, List.length_append, Nat.add_assoc, Option.pure_def, Option.bind_some,
        List.reverse_cons, List.map_append, List.map_cons, List.map_nil, List.append_assoc,
        List.cons_append, List.nil_append]

end

end Source

/-! ## Statements -/

/-- The state of lifting between two statements, where no value is on the stack. -/
def Env.state (env : Env) (blocks : Blocks) : State :=
  { scope := env.scope, returns := env.returns, blocks := blocks }

namespace State

theorem toOption_recordReturn (env : Env) (blocks : Blocks) (type : TypeId) :
    ((env.state blocks).recordReturn type).toOption =
      (env.addReturn type).map fun env => env.state blocks := by
  obtain ⟨scope, returns⟩ := env
  cases returns with
  | none => simp [recordReturn, Env.addReturn, Env.state, Except.toOption]
  | some expected =>
      by_cases htype : expected = type
      · simp [recordReturn, Env.addReturn, Env.state, Except.toOption, htype]
      · simp [recordReturn, Env.addReturn, Env.state, Except.toOption, htype]

theorem step_storeLocal (c : Context) (length index : Nat) (s : State) (name : String) (value : Operand) :
    (s.push value.type value.expr).step c length index (.storeLocal name) = .ok (s.store name value) :=
  rfl

theorem step_pop (c : Context) (length index : Nat) (s : State) (value : Operand) :
    (s.push value.type value.expr).step c length index .pop = .ok (s.emit (.eval value.expr)) :=
  rfl

theorem step_ret (c : Context) (length index : Nat) (env : Env) (blocks : Blocks) :
    (env.state blocks).step c length index .ret =
      ((env.state blocks).recordReturn (c.prim .void)).map fun next =>
        (next, [.emitted ⟨next.depth, .ret none⟩]) := by
  show (env.state blocks).leave c = _
  simp only [leave, Env.state, bind, Except.bind]
  cases State.recordReturn _ (c.prim .void) <;> rfl

theorem step_retValue (c : Context) (length index : Nat) (env : Env) (blocks : Blocks)
    (value : Operand) :
    ((env.state blocks).push value.type value.expr).step c length index .ret =
      ((env.state blocks).recordReturn value.type).map fun next =>
        (next, [.emitted ⟨next.depth, .ret (some value.expr)⟩]) := by
  show ((env.state blocks).push value.type value.expr).leave c = _
  simp only [leave, Env.state, push, popOperand, bind, Except.bind]
  cases State.recordReturn _ value.type <;> rfl

/-- A body is entered under a condition if the only value on the stack has the type `bool`. -/
theorem result?_enterIf (c : Context) (index stop : Nat) (env : Env) (blocks : Blocks)
    (operand : Operand) :
    (((env.state blocks).push operand.type operand.expr).enterIf c index stop).result? =
      if operand.type = c.prim .bool then
        some (operand.expr, env.state (.ifBody stop :: blocks))
      else
        none := by
  simp only [enterIf, State.condition, popOperand, push, bind, Except.bind]
  by_cases htype : operand.type = c.prim .bool
  · simp only [htype, ne_eq, not_true_eq_false, if_false, if_true]
    rfl
  · simp only [htype, ne_eq, not_false_eq_true, if_true, if_false]
    rfl

theorem result?_switchElse (index stop : Nat) (env : Env) (block : Block) (blocks : Blocks) :
    ((env.state (block :: blocks)).switchElse index stop).result? =
      some (env.state (.elseBody stop :: blocks)) :=
  rfl

theorem result?_leaveBody (stop : Nat) (env : Env) (block : Block) (blocks : Blocks) :
    ((env.state (block :: blocks)).leaveBody stop).result? = some (env.state blocks) :=
  rfl

end State

/-- The instructions of a command add its statement, or fail if it has none. -/
theorem Command.nested?_code (c : Context) (length index : Nat) (env : Env) (blocks : Blocks)
    (command : Command) (t : JumpTree) :
    Nesting.nested? c length index (env.state blocks) (.plains command.code t) =
      (command.elaborate c env).bind fun (statement, env) =>
        (t.nested? c length (index + command.code.length) (env.state blocks)).map fun (nested, last) =>
          (.leaf statement nested, last) := by
  cases command with
  | assign name value =>
      rw [code, Nesting.plains_append, value.nested?_code, elaborate, Option.bind_eq_bind,
        Option.bind_assoc]
      refine congrArg _ (funext fun operand => ?_)
      rw [List.length_append, ← Nat.add_assoc]
      -- The scope decides on both sides whether the store declares the variable.
      cases hscope : env.scope name with
      | none =>
          have hstep (index : Nat) :
              ((env.state blocks).push operand.type operand.expr).step c length index (.storeLocal name) =
                (.ok (Env.state { env with scope := env.scope.declare name operand.type } blocks) :
                  Except Cause State).map fun next =>
                    (next, [.emitted ⟨next.depth, .declare operand.type name operand.expr⟩]) := by
            simp only [State.step_storeLocal, State.store, Env.state, hscope]
            rfl
          rw [Nesting.nested?_statement _ _ _ _ rfl (hstep _) (fun _ => rfl),
            if_neg (by rw [Option.isSome_none]; exact Bool.false_ne_true)]
          rfl
      | some declared =>
          have hstep (index : Nat) :
              ((env.state blocks).push operand.type operand.expr).step c length index (.storeLocal name) =
                (.ok (env.state blocks) : Except Cause State).map fun next =>
                  (next, ((env.state blocks).store name operand).2) := by
            simp only [State.step_storeLocal, State.store, Env.state, hscope]
            rfl
          have hevents :
              (((env.state blocks).store name operand).2.filterMap Event.line?).map Line.statement =
                [.assign name operand.expr] := by
            simp only [State.store, Env.state, hscope]
            split
            · rfl
            · rfl
          rw [Nesting.nested?_statement _ _ _ _ rfl (hstep _) (fun _ => hevents),
            if_pos (Option.isSome_some)]
          rfl
  | eval value =>
      rw [code, Nesting.plains_append, value.nested?_code, elaborate, Option.bind_eq_bind,
        Option.bind_assoc]
      refine congrArg _ (funext fun operand => ?_)
      have hstep (index : Nat) :
          ((env.state blocks).push operand.type operand.expr).step c length index .pop =
            (.ok (env.state blocks) : Except Cause State).map fun next =>
              (next, [.emitted ⟨next.depth, .eval operand.expr⟩]) :=
        State.step_pop c length index (env.state blocks) operand
      rw [Nesting.nested?_statement _ _ _ _ rfl (hstep _) (fun _ => rfl), List.length_append,
        ← Nat.add_assoc]
      rfl
  | ret value =>
      cases value with
      | none =>
          rw [code, Nesting.nested?_statement _ _ _ _ rfl (State.step_ret c length index env blocks)
            (fun _ => rfl), State.toOption_recordReturn, Option.bind_map, elaborate, Option.bind_eq_bind,
            Option.bind_assoc]
          rfl
      | some value =>
          rw [code, Nesting.plains_append, value.nested?_code, elaborate, Option.bind_eq_bind,
            Option.bind_assoc]
          refine congrArg _ (funext fun operand => ?_)
          rw [Nesting.nested?_statement _ _ _ _ rfl (State.step_retValue c length _ env blocks operand)
            (fun _ => rfl), State.toOption_recordReturn, Option.bind_map, Option.bind_eq_bind,
            Option.bind_assoc, List.length_append, ← Nat.add_assoc]
          rfl

/-- The value of a condition and what follows inside of the body that it opens. -/
theorem Source.condition?_bind (c : Context) (index stop : Nat) (env : Env) (blocks : Blocks)
    (e : Source) {α : Type} (next : Expr × State → Option α) :
    ((e.operand? c (env.state blocks).scope).bind fun operand =>
      (((env.state blocks).push operand.type operand.expr).enterIf c index stop).result?.bind next) =
      (e.condition? c env.scope).bind fun condition =>
        next (condition, env.state (.ifBody stop :: blocks)) := by
  rw [condition?, Option.bind_eq_bind, Option.bind_assoc]
  refine congrArg _ (funext fun operand => ?_)
  rw [State.result?_enterIf]
  by_cases htype : operand.type = c.prim .bool
  · rw [if_pos htype, if_pos htype]
    rfl
  · rw [if_neg htype, if_neg htype]
    rfl

/-- Lifting the tree of a program is elaborating the program. -/
theorem Nesting.nested?_toTree (c : Context) (length index : Nat) (env : Env) (blocks : Blocks)
    (p : StructuredProgram) :
    p.toTree.nested? c length index (env.state blocks) =
      (p.elaborate c env).map fun (nested, env) => (nested, env.state blocks) := by
  induction p generalizing index env blocks with
  | nil => rfl
  | leaf command rest ih =>
      simp only [toTree, Command.nested?_code, elaborate, ih, Option.bind_eq_bind, Option.pure_def,
        Option.map_eq_bind, Option.bind_assoc, Option.bind_some, Function.comp_def]
  | ifThen e body rest ihBody ihRest =>
      rw [toTree, e.nested?_code]
      simp only [nested?_ifThen]
      rw [e.condition?_bind]
      simp only [elaborate, ihBody, ihRest, State.result?_leaveBody, Option.bind_eq_bind, Option.pure_def,
        Option.map_eq_bind, Option.bind_assoc, Option.bind_some, Function.comp_def]
  | ifElse e body other rest ihBody ihOther ihRest =>
      rw [toTree, e.nested?_code]
      simp only [nested?_ifElse]
      rw [e.condition?_bind]
      simp only [elaborate, ihBody, ihOther, ihRest, State.result?_switchElse, State.result?_leaveBody,
        Option.bind_eq_bind, Option.pure_def, Option.map_eq_bind, Option.bind_assoc, Option.bind_some,
        Function.comp_def]

/-! ## Functions -/

/-- When a function whose body is a flattened tree can be lifted, and to what. -/
theorem lift_flatten_outcome_iff (d : Dialect) {function : StackFunction} {args : List TypeId}
    (bound : List Shader) (interface : Interface) {t : JumpTree} (hproper : t.Proper)
    (hbody : t.flatten 0 = function.body) (hargs : args.length = function.params.length)
    (shader : Shader) :
    (lift d function args bound interface).outcome = .ok shader ↔
      ∃ nested last,
        t.nested? (.ofDialect d bound) t.size 0
          { scope := initialScope interface (args.zip function.params) } = some (nested, last) ∧
        last.stack = [] ∧
        shader = .ofBody d function (args.zip function.params) bound interface
          (last.returns.getD (d.prim .void)) (nested.lines 1) := by
  have hliftBody := State.liftBody_flatten (.ofDialect d bound)
    (initialScope interface (args.zip function.params)) hproper
  rw [hbody] at hliftBody
  constructor
  · intro houtcome
    obtain ⟨-, within, last, hlifted, rfl, -⟩ := lift_eq_ok_iff.mp (congrArg (Run.mk _) houtcome)
    rw [hliftBody] at hlifted
    obtain ⟨⟨lines, last'⟩, before, after, hlift, hend, rfl⟩ := Run.bind_eq_ok_iff.mp hlifted
    obtain ⟨-, hstack, rfl, rfl⟩ := State.checkEnd_eq_ok_iff.mp hend
    have hlines := (Nesting.lifts_of_lift hlift).shows.lines_eq
    refine ⟨lines.statements, last, ?_, hstack, ?_⟩
    · rw [Nesting.nested?, hlift]
      rfl
    · rw [List.append_nil, hlines]
      rfl
  · rintro ⟨nested, last, hnested, hstack, rfl⟩
    obtain ⟨⟨lines, last'⟩, hresult, hlast⟩ := Option.map_eq_some_iff.mp hnested
    obtain ⟨rfl, rfl⟩ := Prod.mk.inj hlast
    have hlift := congrArg (Run.mk (t.lift (.ofDialect d bound) t.size 0
      { scope := initialScope interface (args.zip function.params) }).events)
      (Run.result?_eq_some_iff.mp hresult)
    have hlifts := Nesting.lifts_of_lift hlift
    have hend : last'.checkEnd = ⟨[], .ok last'⟩ :=
      State.checkEnd_eq_ok_iff.mpr ⟨hlifts.blocks_eq, hstack, rfl, rfl⟩
    have hlifted := hliftBody.trans (Run.bind_eq_ok_iff.mpr ⟨_, _, _, hlift, hend, rfl⟩)
    have hfunction := lift_eq_ok_iff.mpr ⟨hargs, _, last', hlifted, rfl, rfl⟩
    rw [hfunction, List.append_nil, hlifts.shows.lines_eq]
    rfl

/-- The instructions of a structured program are lifted exactly if the program passes the check.  The lines of the
lifted function are then those of the program's nested statements, and their text is the program's own text: bodies are
indented, and a variable that is not there from the start is declared where it is first assigned to.  All else in the
lifted function is made from these lines and from the type of the returns. -/
theorem lift_lower (d : Dialect) (name : String) (params : List String) (args : List TypeId)
    (hargs : args.length = params.length) (bound : List Shader) (interface : Interface)
    (p : StructuredProgram) (hproper : p.Proper) :
    let c := Context.ofDialect d bound
    let seeded := initialScope interface (args.zip params)
    let function : StackFunction := ⟨name, params, p.lower 0⟩
    ((∃ shader, (lift d function args bound interface).outcome = .ok shader) ↔
      (p.check c { scope := seeded }).isSome) ∧
    ∀ env, p.check c { scope := seeded } = some env →
      ∃ shader nested, (lift d function args bound interface).outcome = .ok shader ∧
        p.print? env.scope seeded [] = some nested ∧ shader.body = nested.lines 1 ∧
        shader.body.map (Line.text d.types) = indented (p.text d.types.name env.scope seeded []) ∧
        shader =
          .ofBody d function (args.zip params) bound interface (env.returns.getD (d.prim .void)) shader.body := by
  intro c seeded function
  have hflatten : p.toTree.flatten 0 = function.body := Nesting.flatten_toTree p 0
  have hnested := Nesting.nested?_toTree c p.toTree.size 0 { scope := seeded } [] p
  have houtcome := lift_flatten_outcome_iff d bound interface (Nesting.proper_toTree hproper) hflatten
    hargs
  have hsome (env : Env) (hcheck : p.check c { scope := seeded } = some env) :
      ∃ nested, p.print? env.scope seeded [] = some nested ∧
        (lift d function args bound interface).outcome =
          .ok (.ofBody d function (args.zip params) bound interface (env.returns.getD (d.prim .void))
            (nested.lines 1)) := by
    obtain ⟨nested, hprint, helaborate⟩ := Nesting.exists_print?_of_check hcheck
    rw [helaborate] at hnested
    exact ⟨nested, hprint, (houtcome _).mpr ⟨nested, env.state [], hnested, rfl, rfl⟩⟩
  refine ⟨⟨?_, ?_⟩, ?_⟩
  · rintro ⟨shader, hshader⟩
    obtain ⟨nested, last, hlifted, -, -⟩ := (houtcome shader).mp hshader
    obtain ⟨⟨nested', env⟩, helaborate, -⟩ := Option.map_eq_some_iff.mp (hnested.symm.trans hlifted)
    rw [← Nesting.map_snd_elaborate, helaborate]
    rfl
  · intro hcheck
    obtain ⟨env, hcheck⟩ := Option.isSome_iff_exists.mp hcheck
    obtain ⟨nested, -, hshader⟩ := hsome env hcheck
    exact ⟨_, hshader⟩
  · intro env hcheck
    obtain ⟨nested, hprint, hshader⟩ := hsome env hcheck
    exact ⟨_, nested, hshader, hprint, rfl, Nesting.indented_of_print? d.types hprint, rfl⟩

/-- A program with an empty body, with conditionals that end at the same place and with every kind of expression. -/
def selection : StructuredProgram :=
  .leaf (.assign "y" (.literal (.number (.int 7))))
    (.ifElse (.binary .lt (.var "x") (.var "y")) .nil
      (.ifElse (.binary .lt (.var "y") (.var "x")) (.leaf (.assign "z" (.var "x")) .nil)
        (.leaf (.assign "z" (.binary .sub (.var "y") (.binary .sub (.var "x") (.literal (.number (.int (-2))))))) .nil)
        .nil)
      (.leaf (.eval (.call "vec2" [.var "x", .literal (.number (.float ⟨0x3fe0000000000000⟩))]))
        (.leaf (.ret (some (.var "z"))) .nil)))

theorem selection_proper : selection.Proper := by
  refine ⟨trivial, ?_, ⟨trivial, ?_, trivial, trivial⟩, trivial⟩
  · intro h
    cases h
  · intro h
    cases h

set_option maxRecDepth 4000 in
theorem lift_lower_selection :
    ∃ shader, (lift .standard ⟨"f", ["x"], selection.lower 0⟩ [.pos 2] [] {}).outcome = .ok shader ∧
      shader.result = .pos 2 ∧
      shader.body.map (Line.text Dialect.standard.types) =
        ["\tint y = 7;",
          "\tif (x < y) \x7b",
          "\t\x7d else \x7b",
          "\t\tif (y < x) \x7b",
          "\t\t\tint z = x;",
          "\t\t\x7d else \x7b",
          "\t\t\tz = y - (x - (-2));",
          "\t\t\x7d",
          "\t\x7d",
          "\tvec2(x, 0.5);",
          "\treturn z;"] := by
  obtain ⟨-, hchecked⟩ := lift_lower .standard "f" ["x"] [.pos 2] rfl [] {} selection selection_proper
  let scope := ((initialScope {} [(.pos 2, "x")]).declare "y" (.pos 2)).declare "z" (.pos 2)
  obtain ⟨shader, nested, hshader, -, -, htext, hmade⟩ := hchecked ⟨scope, some (.pos 2)⟩ rfl
  refine ⟨shader, hshader, ?_, htext.trans (by decide +kernel)⟩
  rw [hmade]
  rfl

end ShaderLift
