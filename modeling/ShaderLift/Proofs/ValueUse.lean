import Mathlib.Data.List.Perm.Basic
import ShaderLift.Proofs.FlatLifting
import ShaderLift.Proofs.Machine

/-!
# Every value is used once

An instruction that pushes a value adds one node to an expression: a constant, a variable, the callee of a call, an
operator or a call.  The nodes of an expression in the order in which a stack machine computes it, operands before
operators, are therefore the work of instructions that stand in the body in that order.

* `Accounts`: every value that was pushed so far is used by a line or still on the stack.
* `State.PlainStep.accounts`, `Nesting.Lifts.accounts`: this holds before and after each instruction and each tree.
* `lift_uses_values_once`: in a lifted function no value is lost and none is used twice.
-/

namespace ShaderLift

/-- What one instruction adds to an expression. -/
inductive Node where
  | number (value : Number)
  | var (name : String)
  /-- What is called, below the arguments on the stack. -/
  | callee (name : String)
  | binary (op : Operator)
  | call (count : Nat)
deriving DecidableEq, Repr

namespace Expr

mutual

/-- The nodes of an expression in the order in which a stack machine computes it. -/
def nodes : Expr → List Node
  | number value => [.number value]
  | var name => [.var name]
  | binary op left right => left.nodes ++ right.nodes ++ [.binary op]
  | call callee args => .callee callee :: argNodes args ++ [.call args.length]

/-- The nodes of arguments, one argument after another. -/
def argNodes : List Expr → List Node
  | [] => []
  | arg :: rest => arg.nodes ++ argNodes rest

end

theorem argNodes_eq_flatMap (args : List Expr) : argNodes args = args.flatMap nodes := by
  induction args with
  | nil => rfl
  | cons arg rest ih => rw [argNodes, ih, List.flatMap_cons]

end Expr

/-- The nodes of an entry of the operand stack. -/
def Value.nodes : Value → List Node
  | operand value => value.expr.nodes
  | callable callee => [.callee callee.name]

namespace Instruction

/-- Whether an instruction pushes a value. -/
def produces : Instruction → Bool
  | pushConst _ | loadLocal _ | loadName _ | loadGlobal _ | binary _ | call _ => true
  | storeLocal _ | pop | ret | jumpIfFalse _ | jump _ => false

/-- Whether an instruction takes a value into a line. -/
def consumes : Instruction → Bool
  | storeLocal _ | pop | ret | jumpIfFalse _ => true
  | pushConst _ | loadLocal _ | loadName _ | loadGlobal _ | binary _ | call _ | jump _ => false

/-- The nodes that an instruction can add to an expression. -/
inductive Yields : Instruction → Node → Prop
  | number (value : Number) : Yields (pushConst (.number value)) (.number value)
  | loadLocal (name : String) : Yields (loadLocal name) (.var name)
  | variableName (name : String) : Yields (loadName name) (.var name)
  | callableName (name : String) : Yields (loadName name) (.callee name)
  | loadGlobal (name : String) : Yields (loadGlobal name) (.callee name)
  | binary (op : Operator) : Yields (binary op) (.binary op)
  | call (count : Nat) : Yields (call count) (.call count)

theorem Yields.produces_eq {i : Instruction} {node : Node} (h : i.Yields node) : i.produces = true := by
  cases h <;> rfl

end Instruction

/-- The instruction at the index adds the node. -/
def YieldsAt (body : List Instruction) (index : Nat) (node : Node) : Prop :=
  ∃ i, body[index]? = some i ∧ i.Yields node

/-- The instructions that added the nodes of an entry of the operand stack. -/
def Value.ComesFrom (body : List Instruction) (sources : List Nat) (value : Value) : Prop :=
  List.Forall₂ (YieldsAt body) sources value.nodes

/-- The indices before `stop` of the instructions that push a value. -/
def producing (body : List Instruction) (stop : Nat) : List Nat :=
  (List.range stop).filter fun index => body[index]?.any Instruction.produces

theorem producing_succ {body : List Instruction} {index : Nat} {i : Instruction} (h : body[index]? = some i) :
    producing body (index + 1) = producing body index ++ if i.produces then [index] else [] := by
  rw [producing, List.range_succ, List.filter_append, List.filter_singleton, h, Option.any_some, cond_eq_ite]
  rfl

theorem lt_of_mem_producing {body : List Instruction} {index k : Nat} (h : k ∈ producing body index) :
    k < index :=
  List.mem_range.mp (List.mem_filter.mp h).1

/-! ## Uses -/

/-- The use of a value in a line. -/
structure Use where
  /-- The instruction that takes the value. -/
  index : Nat
  expr : Expr
  /-- The instructions that added the nodes of the expression, in the order of the nodes. -/
  sources : List Nat

namespace Use

/-- The expression of the line and the instruction that the line was lifted from. -/
def value (use : Use) : Nat × Expr :=
  (use.index, use.expr)

/-- How a use fits the body, after the uses before it. -/
structure Sound (body : List Instruction) (before : List Use) (use : Use) : Prop where
  consumes : ∃ i, body[use.index]? = some i ∧ i.consumes = true
  nodes : List.Forall₂ (YieldsAt body) use.sources use.expr.nodes
  increasing : use.sources.Pairwise (· < ·)
  lt_index : ∀ k ∈ use.sources, k < use.index
  /-- What was pushed since the first of the sources was used before, so the value was on top of the stack. -/
  latest : ∀ source ∈ use.sources, ∀ k ∈ producing body use.index, source ≤ k →
    k ∈ use.sources ∨ k ∈ before.flatMap sources

/-- Every one of the uses fits the body. -/
def AllSound (body : List Instruction) (uses : List Use) : Prop :=
  ∀ before use after, uses = before ++ use :: after → use.Sound body before

theorem AllSound.append {body : List Instruction} {uses : List Use} {use : Use} (h : AllSound body uses)
    (huse : use.Sound body uses) : AllSound body (uses ++ [use]) := by
  intro before other after heq
  rcases append_eq_append_cons heq with ⟨between, hbefore, -⟩ | ⟨between, rfl, hafter⟩
  · exact h before other between hbefore
  · cases between with
    | nil =>
        cases hafter
        rw [List.append_nil]
        exact huse
    | cons first between =>
        cases between <;> cases hafter

/-- The sources of the uses add the nodes of the expressions. -/
theorem AllSound.yieldsAt {body : List Instruction} {uses : List Use} (h : AllSound body uses) :
    List.Forall₂ (YieldsAt body) (uses.flatMap sources) (uses.flatMap fun use => use.expr.nodes) := by
  rw [List.flatMap_def, List.flatMap_def]
  refine List.rel_flatten ?_
  rw [List.forall₂_map_left_iff, List.forall₂_map_right_iff, List.forall₂_same]
  intro use hmem
  obtain ⟨before, after, heq⟩ := List.append_of_mem hmem
  exact (h before use after heq).nodes

end Use

/-- What was pushed before `index` is used by a line or on the stack, where `pending` has the sources of each entry. -/
structure Accounts (body : List Instruction) (index : Nat) (stack : List Value) (pending : List (List Nat))
    (uses : List Use) : Prop where
  nodes : List.Forall₂ (Value.ComesFrom body) pending stack
  increasing : pending.reverse.flatten.Pairwise (· < ·)
  complete : (uses.flatMap Use.sources ++ pending.reverse.flatten).Perm (producing body index)
  sound : Use.AllSound body uses

namespace Accounts

variable {body : List Instruction} {index : Nat} {stack taken rest : List Value} {pending : List (List Nat)}
  {uses : List Use} {i : Instruction} {value : Value} {node : Node}

/-- Nothing is pushed and nothing is used. -/
theorem start (body : List Instruction) : Accounts body 0 [] [] [] where
  nodes := .nil
  increasing := .nil
  complete := .nil
  sound := fun before use after heq => absurd heq (by simp)

theorem mem_pending_lt (h : Accounts body index stack pending uses) {k : Nat}
    (hmem : k ∈ pending.reverse.flatten) : k < index :=
  lt_of_mem_producing (h.complete.subset (List.mem_append_right _ hmem))

/-- An instruction that neither pushes a value nor takes one. -/
theorem skip (h : Accounts body index stack pending uses) (hcode : body[index]? = some i)
    (hproduces : i.produces = false) : Accounts body (index + 1) stack pending uses where
  nodes := h.nodes
  increasing := h.increasing
  complete := by
    rw [producing_succ hcode, hproduces]
    exact (List.append_nil (producing body index)).symm ▸ h.complete
  sound := h.sound

/-- An instruction that makes one value of those on top of the stack. -/
theorem apply (h : Accounts body index (taken ++ rest) pending uses) (hcode : body[index]? = some i)
    (hyields : i.Yields node) (hnodes : value.nodes = taken.reverse.flatMap Value.nodes ++ [node]) :
    ∃ pending, Accounts body (index + 1) (value :: rest) pending uses := by
  have hfirst := List.forall₂_take_append _ _ _ h.nodes
  have hbelow := List.forall₂_drop_append _ _ _ h.nodes
  have hpending := List.take_append_drop taken.length pending
  generalize pending.take taken.length = first at hfirst hpending
  generalize pending.drop taken.length = below at hbelow hpending
  subst hpending
  have horder : (((first.reverse.flatten ++ [index]) :: below) : List (List Nat)).reverse.flatten =
      (first ++ below).reverse.flatten ++ [index] := by
    simp
  refine ⟨(first.reverse.flatten ++ [index]) :: below, ?_, ?_, ?_, h.sound⟩
  · refine .cons ?_ hbelow
    have hparts : List.Forall₂ (YieldsAt body) first.reverse.flatten (taken.reverse.flatMap Value.nodes) := by
      rw [List.flatMap_def]
      refine List.rel_flatten ?_
      rw [List.forall₂_map_right_iff]
      exact List.rel_reverse hfirst
    rw [Value.ComesFrom, hnodes]
    exact List.rel_append hparts (.cons ⟨i, hcode, hyields⟩ .nil)
  · rw [horder, List.pairwise_append]
    refine ⟨h.increasing, List.pairwise_singleton _ _, ?_⟩
    intro k hk last hlast
    rw [List.mem_singleton.mp hlast]
    exact h.mem_pending_lt hk
  · rw [horder, producing_succ hcode, hyields.produces_eq, ← List.append_assoc]
    exact h.complete.append_right [index]

/-- An instruction that takes the value on top of the stack into a line. -/
theorem use {operand : Operand} (h : Accounts body index (.operand operand :: rest) pending uses)
    (hcode : body[index]? = some i) (hproduces : i.produces = false) (hconsumes : i.consumes = true) :
    ∃ sources pending, Accounts body (index + 1) rest pending (uses ++ [⟨index, operand.expr, sources⟩]) := by
  obtain ⟨first, below, hfirst, hbelow, rfl⟩ := List.forall₂_cons_right_iff.mp h.nodes
  have horder : (first :: below).reverse.flatten = below.reverse.flatten ++ first := by simp
  have hincreasing := h.increasing
  rw [horder, List.pairwise_append] at hincreasing
  obtain ⟨hpending, hsources, hbefore⟩ := hincreasing
  refine ⟨first, below, hbelow, hpending, ?_, h.sound.append ⟨⟨i, hcode, hconsumes⟩, hfirst, hsources, ?_, ?_⟩⟩
  · have hmoved : (first ++ below.reverse.flatten).Perm (first :: below).reverse.flatten := by
      rw [horder]
      exact List.perm_append_comm
    have hcomplete := (hmoved.append_left _).trans (h.skip hcode hproduces).complete
    simpa using hcomplete
  · intro k hk
    refine h.mem_pending_lt ?_
    rw [horder]
    exact List.mem_append_right _ hk
  · -- What is below the value on the stack was pushed before any of its sources.
    intro source hsource k hk hle
    have hmem := h.complete.mem_iff.mpr hk
    rw [horder] at hmem
    rcases List.mem_append.mp hmem with hused | hpending
    · exact .inr hused
    · rcases List.mem_append.mp hpending with hbelow | hfirst
      · have hlt := hbefore k hbelow source hsource
        omega
      · exact .inl hfirst

end Accounts

/-! ## Steps and trees -/

/-- The expression in a line. -/
def Statement.value? : Statement → Option Expr
  | declare _ _ value => some value
  | assign _ value => some value
  | eval value => some value
  | ret value => value
  | openIf condition => some condition
  | openElse => none
  | close => none

/-- The expressions of nested lines, each with the instruction that the line was lifted from. -/
def Nesting.values : PlacedNesting → List (Nat × Expr)
  | nil => []
  | leaf (index, statement) rest => statement.value?.toList.map (Prod.mk index) ++ rest.values
  | ifThen condition body rest => condition :: (body.values ++ rest.values)
  | ifElse condition body other rest => condition :: (body.values ++ (other.values ++ rest.values))

theorem Nesting.values_leaves (index : Nat) (statement : Option Statement) (rest : PlacedNesting) :
    (leaves (statement.toList.map (Prod.mk index)) rest).values =
      (statement.bind Statement.value?).toList.map (Prod.mk index) ++ rest.values := by
  cases statement with
  | none => rfl
  | some statement => rfl

namespace State

variable {c : Context} {s next : State} {i : Instruction} {statement : Option Statement}

/-- A plain instruction pushes one value for those that it takes, or takes one into its line. -/
theorem PlainStep.accounts {body : List Instruction} {index : Nat} {pending : List (List Nat)} {uses : List Use}
    (h : s.PlainStep c i next statement) (hcode : body[index]? = some i)
    (hs : Accounts body index s.stack pending uses) :
    ∃ pending now, Accounts body (index + 1) next.stack pending (uses ++ now) ∧
      now.map Use.value = (statement.bind Statement.value?).toList.map (Prod.mk index) := by
  -- There are three ways to treat the stack: to put one value in place of some, to take one, to leave it alone.
  have hpush (taken : List Value) {rest : List Value} {value : Value} {node : Node} (hstack : s.stack = taken ++ rest)
      (hyields : i.Yields node) (hnodes : value.nodes = taken.reverse.flatMap Value.nodes ++ [node]) :
      ∃ pending now, Accounts body (index + 1) (value :: rest) pending (uses ++ now) ∧ now.map Use.value = [] := by
    rw [hstack] at hs
    obtain ⟨pending, hnext⟩ := hs.apply hcode hyields hnodes
    exact ⟨pending, [], by rwa [List.append_nil], rfl⟩
  have htake {value : Operand} {rest : List Value} (hstack : s.stack = .operand value :: rest)
      (hproduces : i.produces = false) (hconsumes : i.consumes = true) :
      ∃ pending now, Accounts body (index + 1) rest pending (uses ++ now) ∧
        now.map Use.value = [(index, value.expr)] := by
    rw [hstack] at hs
    obtain ⟨sources, pending, hnext⟩ := hs.use hcode hproduces hconsumes
    exact ⟨pending, [⟨index, value.expr, sources⟩], hnext, rfl⟩
  have hpass (hproduces : i.produces = false) :
      ∃ pending now, Accounts body (index + 1) s.stack pending (uses ++ now) ∧ now.map Use.value = [] :=
    ⟨pending, [], by rw [List.append_nil]; exact hs.skip hcode hproduces, rfl⟩
  cases h with
  | number htype => exact hpush [] rfl (.number _) rfl
  | «variable» hscope hi =>
      rcases hi with rfl | rfl
      · exact hpush [] rfl (.loadLocal _) rfl
      · exact hpush [] rfl (.variableName _) rfl
  | callable hresolve hi =>
      rename_i name callable
      have hname := Context.name_of_resolve hresolve
      rcases hi with rfl | ⟨rfl, -⟩
      · exact hpush [] rfl (.loadGlobal _) (by rw [← hname]; rfl)
      · exact hpush [] rfl (.callableName _) (by rw [← hname]; rfl)
  | @binary op left right rest type hstack htype =>
      refine hpush [.operand right, .operand left] hstack (.binary op) ?_
      simp [Value.nodes, Expr.nodes]
  | @call args callee rest signature hstack hsignature =>
      refine hpush (args.reverse.map .operand ++ [.callable callee]) ?_ (.call args.length) ?_
      · rw [hstack, List.append_assoc]
        rfl
      · simp [Value.nodes, Expr.nodes, Expr.argNodes_eq_flatMap, List.flatMap_map]
  | assign hstack hscope => exact htake hstack rfl rfl
  | declare hstack hscope => exact htake hstack rfl rfl
  | eval hstack => exact htake hstack rfl rfl
  | ret hstack hreturns => exact hpass rfl
  | retValue hstack hreturns => exact htake hstack rfl rfl
  | skip hstack => exact hpass rfl

end State

/-- Along a lifted tree, every value that is pushed is used by a line or left on the stack. -/
theorem Nesting.Lifts.accounts {c : Context} {index : Nat} {s last : State} {t : JumpTree} {events : List Event}
    {lines : PlacedNesting} (h : t.Lifts c index s events lines last) {body : List Instruction}
    (hcode : CodeAt body index (t.flatten index)) {pending : List (List Nat)} {uses : List Use}
    (hs : Accounts body index s.stack pending uses) :
    ∃ pending within, Accounts body (index + t.size) last.stack pending (uses ++ within) ∧
      within.map Use.value = lines.values := by
  induction h generalizing pending uses with
  | nil => exact ⟨pending, [], by rwa [List.append_nil], rfl⟩
  | leaf hplain hnow hrest ih =>
      obtain ⟨hat, hcode⟩ := hcode.leaf
      obtain ⟨_, now, hnext, hvalue⟩ := hplain.accounts hat hs
      obtain ⟨pending, later, hlast, hvalues⟩ := ih hcode hnext
      rw [List.append_assoc, Nat.add_right_comm] at hlast
      exact ⟨pending, now ++ later, hlast, by rw [values_leaves, List.map_append, hvalue, hvalues]⟩
  | @ifThen index stop _ _ _ _ rest condition _ _ _ _ hstop hstack hbody hinside hrest ihBody ihRest =>
      obtain ⟨hat, hcodeBody, hcodeRest⟩ := hcode.ifThen hstop
      rw [hstack] at hs
      obtain ⟨sources, _, hcondition⟩ := hs.use hat rfl rfl
      obtain ⟨_, inner, hinner, hinnerValues⟩ := ihBody hcodeBody hcondition
      rw [← hstop] at hinner
      obtain ⟨pending, later, hlast, hlaterValues⟩ := ihRest hcodeRest hinner
      rw [← add_size_ifThen hstop rest, List.append_assoc, List.append_assoc] at hlast
      refine ⟨pending, ⟨index, condition, sources⟩ :: (inner ++ later), hlast, ?_⟩
      rw [List.map_cons, List.map_append, hinnerValues, hlaterValues]
      rfl
  | @ifElse index middle stop _ _ _ _ _ _ rest condition _ _ _ _ _ _ hmiddle hstop hstack hbody hinside hother
      hswitched hrest ihBody ihOther ihRest =>
      obtain ⟨hat, hcodeBody, hswitch, hcodeOther, hcodeRest⟩ := hcode.ifElse hmiddle hstop
      rw [hstack] at hs
      obtain ⟨sources, _, hcondition⟩ := hs.use hat rfl rfl
      obtain ⟨_, inner, hinner, hinnerValues⟩ := ihBody hcodeBody hcondition
      rw [← hmiddle] at hinner
      obtain ⟨_, other, hother, hotherValues⟩ := ihOther hcodeOther (hinner.skip hswitch rfl)
      rw [← hstop] at hother
      obtain ⟨pending, later, hlast, hlaterValues⟩ := ihRest hcodeRest hother
      rw [← add_size_ifElse hmiddle hstop rest, List.append_assoc, List.append_assoc, List.append_assoc] at hlast
      refine ⟨pending, ⟨index, condition, sources⟩ :: (inner ++ (other ++ later)), hlast, ?_⟩
      rw [List.map_cons, List.map_append, List.map_append, hinnerValues, hotherValues, hlaterValues]
      rfl

/-! ## Whole functions -/

/-- In a lifted function, every instruction that pushes a value adds one node to one expression of the lines: that of
the instruction that takes the value. -/
theorem lift_uses_values_once {d : Dialect} {function : StackFunction} {args : List TypeId} {bound : List Shader}
    {interface : Interface} {shader : Shader} (h : (lift d function args bound interface).outcome = .ok shader) :
    ∃ (lines : PlacedNesting) (uses : List Use),
      Nesting.read? (Event.marks 0 (lift d function args bound interface).events) = some lines ∧
      shader.body = lines.statements.lines 1 ∧ uses.map Use.value = lines.values ∧
      Use.AllSound function.body uses ∧
      (uses.flatMap Use.sources).Perm (producing function.body function.body.length) ∧
      ∃ nodes, List.Forall₂ (YieldsAt function.body) (producing function.body function.body.length) nodes ∧
        nodes.Perm (lines.values.flatMap fun value => value.2.nodes) := by
  obtain ⟨t, within, lines, last, -, hflatten, hlifts, hstack, hbody, hmarks⟩ :=
    exists_lifts_of_lift (congrArg (Run.mk _) h)
  obtain ⟨hcode, -⟩ := CodeAt.of_flatten hflatten
  obtain ⟨pending, uses, hlast, hvalues⟩ := hlifts.accounts hcode (.start function.body)
  have hlength : 0 + t.size = function.body.length := by
    rw [← hflatten, Nesting.length_flatten, Nat.zero_add]
  rw [hlength, hstack, List.nil_append] at hlast
  obtain ⟨hnodes, -, hcomplete, hsound⟩ := hlast
  cases hnodes
  rw [List.reverse_nil, List.flatten_nil, List.append_nil] at hcomplete
  refine ⟨lines, uses, Nesting.read?_eq_some_iff.mpr (hmarks 0), hbody, hvalues, hsound, hcomplete, ?_⟩
  obtain ⟨nodes, hyields, hperm⟩ := List.perm_comp_forall₂ hcomplete.symm hsound.yieldsAt
  refine ⟨nodes, hyields, ?_⟩
  rwa [← hvalues, List.flatMap_map]

/-- A function that keeps the result of a call on the stack while another variable gets its value. -/
def waiting : StackFunction where
  name := "f"
  params := ["x"]
  body :=
    [.loadGlobal "vec2", .loadLocal "x", .loadLocal "x", .pushConst (.number (.int 1)), .binary .add, .call 2,
      .loadLocal "x", .storeLocal "y", .storeLocal "z", .loadLocal "z", .ret]

set_option maxRecDepth 4000 in
theorem lift_uses_values_once_waiting :
    (lift .standard waiting [.pos 2] [] {}).outcome.toOption.isSome ∧
      ∃ uses : List Use,
        uses.map Use.value =
          [(7, .var "x"),
            (8, .call "vec2" [.var "x", .binary .add (.var "x") (.number (.int 1))]), (10, .var "z")] ∧
        Use.AllSound waiting.body uses ∧ (uses.flatMap Use.sources).Perm [0, 1, 2, 3, 4, 5, 6, 9] := by
  have hlines : Nesting.read? (Event.marks 0 (lift .standard waiting [.pos 2] [] {}).events) =
      some (.leaf (7, .declare (.pos 2) "y" (.var "x"))
        (.leaf (8, .declare (.pos 4) "z"
            (.call "vec2" [.var "x", .binary .add (.var "x") (.number (.int 1))]))
          (.leaf (10, .ret (some (.var "z"))) .nil))) := by rfl
  have hok : (lift .standard waiting [.pos 2] [] {}).outcome.toOption.isSome := by decide +kernel
  obtain ⟨shader, hshader⟩ := Run.exists_ok_of_isSome hok
  obtain ⟨lines, uses, hread, -, hvalues, hsound, hcomplete, -⟩ := lift_uses_values_once hshader
  cases hread.symm.trans hlines
  exact ⟨hok, uses, hvalues, hsound, hcomplete⟩

end ShaderLift
