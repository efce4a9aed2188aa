import ShaderLift.Lift
import ShaderLift.Proofs.PlainStep

/-!
# Structured programs

A small language of assignments, expression statements, returns and conditionals, with four things to do with its
programs:

* `Nesting.lower` gives the instructions of a program, with every jump target an index in the whole body;
* `Nesting.check` types a program in textual order;
* `Nesting.print?` gives the nested statements that the program stands for;
* `Nesting.elaborate` does the last two at once.

Elaborating is checking (`Nesting.map_snd_elaborate`) and printing (`Nesting.print?_of_elaborate`).  A program is
printed without types, up to the types of its declarations, which are those that checking ends with.
-/

namespace ShaderLift

/-- An expression of a structured program. -/
inductive Source where
  | literal (value : Literal)
  | var (name : String)
  | binary (op : Operator) (left right : Source)
  | call (callee : String) (args : List Source)

/-- A statement without a body. -/
inductive Command where
  | assign (name : String) (value : Source)
  | eval (value : Source)
  | ret (value : Option Source)

/-- A sequence of commands and conditionals. -/
abbrev StructuredProgram := Nesting Command Source

/-! ## Instructions -/

namespace Source

mutual

/-- The instructions that push the value of an expression. -/
def code : Source → List Instruction
  | literal value => [.pushConst value]
  | var name => [.loadLocal name]
  | binary op left right => left.code ++ right.code ++ [.binary op]
  | call callee args => .loadGlobal callee :: argsCode args ++ [.call args.length]

/-- The instructions that push the values of arguments, first one first. -/
def argsCode : List Source → List Instruction
  | [] => []
  | arg :: rest => arg.code ++ argsCode rest

end

end Source

/-- The instructions of a command. -/
def Command.code : Command → List Instruction
  | assign name value => value.code ++ [.storeLocal name]
  | eval value => value.code ++ [.pop]
  | ret (some value) => value.code ++ [.ret]
  | ret none => [.ret]

namespace Nesting

/-- The number of instructions of a program. -/
def codeSize : StructuredProgram → Nat
  | nil => 0
  | leaf command rest => command.code.length + rest.codeSize
  | ifThen e body rest => e.code.length + 1 + body.codeSize + rest.codeSize
  | ifElse e body other rest =>
      e.code.length + 1 + body.codeSize + 1 + other.codeSize + rest.codeSize

/-- The instructions of a program whose first instruction stands at `index`. -/
def lower (index : Nat) : StructuredProgram → List Instruction
  | nil => []
  | leaf command rest => command.code ++ rest.lower (index + command.code.length)
  | ifThen e body rest =>
      let first := index + e.code.length + 1
      let stop := first + body.codeSize
      e.code ++ .jumpIfFalse stop :: (body.lower first ++ rest.lower stop)
  | ifElse e body other rest =>
      let first := index + e.code.length + 1
      let middle := first + body.codeSize + 1
      let stop := middle + other.codeSize
      e.code ++ .jumpIfFalse middle :: (body.lower first ++ .jump stop ::
        (other.lower middle ++ rest.lower stop))

end Nesting

/-! ## Types -/

namespace Source

mutual

/-- The type of an expression. -/
def type? (c : Context) (scope : Scope) : Source → Option TypeId
  | literal (.number value) => c.numberType? value
  | literal _ => none
  | var name => scope name
  | binary op left right => do
      let leftType ← left.type? c scope
      let rightType ← right.type? c scope
      (c.types.operatorType op leftType rightType).toOption
  | call callee args => do
      let callable ← c.resolve callee
      let types ← argTypes? c scope args
      let signature ← callable.signature? c.types types
      pure signature.result

/-- The types of arguments. -/
def argTypes? (c : Context) (scope : Scope) : List Source → Option (List TypeId)
  | [] => some []
  | arg :: rest => do
      let type ← arg.type? c scope
      let types ← argTypes? c scope rest
      pure (type :: types)

end

end Source

/-- What checking knows between two statements: the types of the variables and the type of the returns so far. -/
structure Env where
  scope : Scope
  returns : Option TypeId := none

/-- Records the type of a return, which is the same for all returns. -/
def Env.addReturn (env : Env) (type : TypeId) : Option Env :=
  if env.returns = none ∨ env.returns = some type then some { env with returns := some type } else none

/-- Types a command.  The first value that a variable gets declares it. -/
def Command.check (c : Context) (env : Env) : Command → Option Env
  | assign name value => do
      let type ← value.type? c env.scope
      if (env.scope name).isSome then
        pure env
      else
        pure { env with scope := env.scope.declare name type }
  | eval value => do
      let _ ← value.type? c env.scope
      pure env
  | ret (some value) => do
      let type ← value.type? c env.scope
      env.addReturn type
  | ret none => env.addReturn (c.prim .void)

/-- Types a program in textual order.  Conditions have the type `bool`. -/
def Nesting.check (c : Context) : Env → StructuredProgram → Option Env
  | env, nil => some env
  | env, leaf command rest => do
      let env ← command.check c env
      rest.check c env
  | env, ifThen e body rest =>
      if e.type? c env.scope = some (c.prim .bool) then do
        let env ← body.check c env
        rest.check c env
      else
        none
  | env, ifElse e body other rest =>
      if e.type? c env.scope = some (c.prim .bool) then do
        let env ← body.check c env
        let env ← other.check c env
        rest.check c env
      else
        none

/-! ## Text -/

namespace Source

mutual

/-- The expression of the shading language with the same operators and calls.  Only numbers are constants there. -/
def expr? : Source → Option Expr
  | literal (.number value) => some (.number value)
  | literal _ => none
  | var name => some (.var name)
  | binary op left right => do
      let leftExpr ← left.expr?
      let rightExpr ← right.expr?
      pure (.binary op leftExpr rightExpr)
  | call callee args => do
      let exprs ← argExprs? args
      pure (.call callee exprs)

/-- The expressions of arguments. -/
def argExprs? : List Source → Option (List Expr)
  | [] => some []
  | arg :: rest => do
      let expr ← arg.expr?
      let exprs ← argExprs? rest
      pure (expr :: exprs)

end

end Source

/-- The variables that a command assigns to. -/
def Command.stores : Command → List String
  | assign name _ => [name]
  | eval _ => []
  | ret _ => []

/-- The variables that a program assigns to, in textual order. -/
def Nesting.stores : StructuredProgram → List String
  | nil => []
  | leaf command rest => command.stores ++ rest.stores
  | ifThen _ body rest => body.stores ++ rest.stores
  | ifElse _ body other rest => body.stores ++ other.stores ++ rest.stores

/-- The statement of a command after assignments to the variables `earlier`.  The first assignment to a variable that
is not there from the start is its declaration. -/
def Command.print? (types seeded : Scope) (earlier : List String) : Command → Option Statement
  | assign name value => do
      let expr ← value.expr?
      if (seeded name).isSome ∨ name ∈ earlier then
        pure (.assign name expr)
      else
        let type ← types name
        pure (.declare type name expr)
  | eval value => do
      let expr ← value.expr?
      pure (.eval expr)
  | ret (some value) => do
      let expr ← value.expr?
      pure (.ret (some expr))
  | ret none => some (.ret none)

/-- The nested statements of a program after assignments to the variables `earlier`. -/
def Nesting.print? (types seeded : Scope) : List String → StructuredProgram →
    Option (Nesting Statement Expr)
  | _, nil => some nil
  | earlier, leaf command rest => do
      let statement ← command.print? types seeded earlier
      let after ← rest.print? types seeded (earlier ++ command.stores)
      pure (leaf statement after)
  | earlier, ifThen e body rest => do
      let condition ← e.expr?
      let inner ← body.print? types seeded earlier
      let after ← rest.print? types seeded (earlier ++ body.stores)
      pure (ifThen condition inner after)
  | earlier, ifElse e body other rest => do
      let condition ← e.expr?
      let inner ← body.print? types seeded earlier
      let alternative ← other.print? types seeded (earlier ++ body.stores)
      let after ← rest.print? types seeded (earlier ++ body.stores ++ other.stores)
      pure (ifElse condition inner alternative after)

/-! ## Types and text together -/

/-- The typed expression that an expression stands for. -/
def Source.operand? (c : Context) (scope : Scope) (e : Source) : Option Operand := do
  let type ← e.type? c scope
  let expr ← e.expr?
  pure ⟨type, expr⟩

/-- The typed expressions of arguments. -/
def Source.operands? (c : Context) (scope : Scope) : List Source → Option (List Operand)
  | [] => some []
  | arg :: rest => do
      let operand ← arg.operand? c scope
      let operands ← operands? c scope rest
      pure (operand :: operands)

/-- Types a command and gives its statement. -/
def Command.elaborate (c : Context) (env : Env) : Command → Option (Statement × Env)
  | assign name value => do
      let operand ← value.operand? c env.scope
      if (env.scope name).isSome then
        pure (.assign name operand.expr, env)
      else
        pure (.declare operand.type name operand.expr,
          { env with scope := env.scope.declare name operand.type })
  | eval value => do
      let operand ← value.operand? c env.scope
      pure (.eval operand.expr, env)
  | ret (some value) => do
      let operand ← value.operand? c env.scope
      let env ← env.addReturn operand.type
      pure (.ret (some operand.expr), env)
  | ret none => do
      let env ← env.addReturn (c.prim .void)
      pure (.ret none, env)

/-- The condition that an expression stands for. -/
def Source.condition? (c : Context) (scope : Scope) (e : Source) : Option Expr := do
  let operand ← e.operand? c scope
  if operand.type = c.prim .bool then pure operand.expr else none

/-- Types a program and gives its nested statements. -/
def Nesting.elaborate (c : Context) : Env → StructuredProgram → Option (Nesting Statement Expr × Env)
  | env, nil => some (nil, env)
  | env, leaf command rest => do
      let (statement, env) ← command.elaborate c env
      let (after, env) ← rest.elaborate c env
      pure (leaf statement after, env)
  | env, ifThen e body rest => do
      let condition ← e.condition? c env.scope
      let (inner, env) ← body.elaborate c env
      let (after, env) ← rest.elaborate c env
      pure (ifThen condition inner after, env)
  | env, ifElse e body other rest => do
      let condition ← e.condition? c env.scope
      let (inner, env) ← body.elaborate c env
      let (alternative, env) ← other.elaborate c env
      let (after, env) ← rest.elaborate c env
      pure (ifElse condition inner alternative after, env)

namespace Source

mutual

/-- What has a type has an expression in the shading language. -/
theorem exists_expr?_of_type? {c : Context} {scope : Scope} {type : TypeId} :
    (e : Source) → e.type? c scope = some type → ∃ expr, e.expr? = some expr
  | literal (.number value), _ => ⟨.number value, rfl⟩
  | var name, _ => ⟨.var name, rfl⟩
  | binary op left right, h => by
      simp only [type?, bind, Option.bind_eq_some_iff] at h
      obtain ⟨leftType, hleft, rightType, hright, -⟩ := h
      obtain ⟨leftExpr, hleftExpr⟩ := exists_expr?_of_type? left hleft
      obtain ⟨rightExpr, hrightExpr⟩ := exists_expr?_of_type? right hright
      exact ⟨.binary op leftExpr rightExpr, by simp only [expr?, hleftExpr, hrightExpr]; rfl⟩
  | call callee args, h => by
      simp only [type?, bind, Option.bind_eq_some_iff] at h
      obtain ⟨callable, -, types, htypes, -⟩ := h
      obtain ⟨exprs, hexprs⟩ := exists_argExprs?_of_argTypes? args htypes
      exact ⟨.call callee exprs, by simp only [expr?, hexprs]; rfl⟩

theorem exists_argExprs?_of_argTypes? {c : Context} {scope : Scope} {types : List TypeId} :
    (args : List Source) → argTypes? c scope args = some types → ∃ exprs, argExprs? args = some exprs
  | [], _ => ⟨[], rfl⟩
  | arg :: rest, h => by
      simp only [argTypes?, bind, Option.bind_eq_some_iff] at h
      obtain ⟨type, htype, types', htypes, -⟩ := h
      obtain ⟨expr, hexpr⟩ := exists_expr?_of_type? arg htype
      obtain ⟨exprs, hexprs⟩ := exists_argExprs?_of_argTypes? rest htypes
      exact ⟨expr :: exprs, by simp only [argExprs?, hexpr, hexprs]; rfl⟩

end

/-- A typed expression has the type and the text of what it stands for. -/
theorem operand?_eq_some_iff {c : Context} {scope : Scope} {e : Source} {operand : Operand} :
    e.operand? c scope = some operand ↔
      e.type? c scope = some operand.type ∧ e.expr? = some operand.expr := by
  simp only [operand?, bind, Option.bind_eq_some_iff]
  constructor
  · rintro ⟨type, htype, expr, hexpr, hoperand⟩
    cases hoperand
    exact ⟨htype, hexpr⟩
  · rintro ⟨htype, hexpr⟩
    exact ⟨operand.type, htype, operand.expr, hexpr, rfl⟩

theorem map_type_operand? (c : Context) (scope : Scope) (e : Source) :
    (e.operand? c scope).map Operand.type = e.type? c scope := by
  cases htype : e.type? c scope with
  | none => simp only [operand?, htype]; rfl
  | some type =>
      obtain ⟨expr, hexpr⟩ := exists_expr?_of_type? e htype
      have hoperand : e.operand? c scope = some ⟨type, expr⟩ :=
        operand?_eq_some_iff.mpr ⟨htype, hexpr⟩
      rw [hoperand]
      rfl

end Source

/-! ## Elaborating is checking and printing -/

/-- Checking a command gives the environment that elaborating it ends with. -/
theorem Command.map_snd_elaborate (c : Context) (env : Env) (command : Command) :
    (command.elaborate c env).map Prod.snd = command.check c env := by
  cases command with
  | assign name value =>
      simp only [elaborate, check, ← Source.map_type_operand?]
      cases value.operand? c env.scope with
      | none => rfl
      | some operand =>
          by_cases hknown : (env.scope name).isSome
          · simp [hknown]
          · simp [hknown]
  | eval value =>
      simp only [elaborate, check, ← Source.map_type_operand?]
      cases value.operand? c env.scope <;> rfl
  | ret value =>
      cases value with
      | none =>
          simp only [elaborate, check]
          cases env.addReturn (c.prim .void) <;> rfl
      | some value =>
          simp only [elaborate, check, ← Source.map_type_operand?]
          cases value.operand? c env.scope with
          | none => rfl
          | some operand =>
              simp only [Option.bind_eq_bind, Option.bind_some, Option.map_some]
              cases env.addReturn operand.type <;> rfl

/-- A condition is an expression of the type `bool`. -/
theorem Source.condition?_eq_some_iff {c : Context} {scope : Scope} {e : Source} {condition : Expr} :
    e.condition? c scope = some condition ↔
      e.type? c scope = some (c.prim .bool) ∧ e.expr? = some condition := by
  simp only [condition?, Option.bind_eq_bind, Option.bind_eq_some_iff, operand?_eq_some_iff]
  constructor
  · rintro ⟨operand, ⟨htype, hexpr⟩, hbool⟩
    split at hbool
    · rename_i heq
      cases hbool
      exact ⟨heq ▸ htype, hexpr⟩
    · cases hbool
  · rintro ⟨htype, hexpr⟩
    exact ⟨⟨c.prim .bool, condition⟩, ⟨htype, hexpr⟩, if_pos rfl⟩

theorem Source.condition?_eq_none {c : Context} {scope : Scope} {e : Source}
    (h : e.type? c scope ≠ some (c.prim .bool)) : e.condition? c scope = none := by
  cases hcondition : e.condition? c scope with
  | none => rfl
  | some condition => exact absurd (condition?_eq_some_iff.mp hcondition).1 h

/-- Checking a program gives the environment that elaborating it ends with. -/
theorem Nesting.map_snd_elaborate (c : Context) (env : Env) (p : StructuredProgram) :
    (p.elaborate c env).map Prod.snd = p.check c env := by
  induction p generalizing env with
  | nil => rfl
  | leaf command rest ih =>
      simp only [elaborate, check, ← Command.map_snd_elaborate, ← ih]
      cases command.elaborate c env with
      | none => rfl
      | some done =>
          obtain ⟨statement, env'⟩ := done
          simp only [Option.bind_eq_bind, Option.bind_some, Option.map_some]
          cases rest.elaborate c env' <;> rfl
  | ifThen e body rest ihBody ihRest =>
      simp only [elaborate, check, ← ihBody, ← ihRest]
      by_cases htype : e.type? c env.scope = some (c.prim .bool)
      · obtain ⟨condition, hexpr⟩ := Source.exists_expr?_of_type? e htype
        rw [if_pos htype, Source.condition?_eq_some_iff.mpr ⟨htype, hexpr⟩]
        simp only [Option.bind_eq_bind, Option.bind_some]
        cases body.elaborate c env with
        | none => rfl
        | some done =>
            obtain ⟨inner, env'⟩ := done
            simp only [Option.bind_some, Option.map_some]
            cases rest.elaborate c env' <;> rfl
      · rw [if_neg htype, Source.condition?_eq_none htype]
        rfl
  | ifElse e body other rest ihBody ihOther ihRest =>
      simp only [elaborate, check, ← ihBody, ← ihOther, ← ihRest]
      by_cases htype : e.type? c env.scope = some (c.prim .bool)
      · obtain ⟨condition, hexpr⟩ := Source.exists_expr?_of_type? e htype
        rw [if_pos htype, Source.condition?_eq_some_iff.mpr ⟨htype, hexpr⟩]
        simp only [Option.bind_eq_bind, Option.bind_some]
        cases body.elaborate c env with
        | none => rfl
        | some done =>
            obtain ⟨inner, env'⟩ := done
            simp only [Option.bind_some, Option.map_some]
            cases other.elaborate c env' with
            | none => rfl
            | some done =>
                obtain ⟨alternative, env''⟩ := done
                simp only [Option.bind_some, Option.map_some]
                cases rest.elaborate c env'' <;> rfl
      · rw [if_neg htype, Source.condition?_eq_none htype]
        rfl

/-- The second scope has the variables of the first one, of the same types, and those of the list. -/
structure Scope.Extends (scope scope' : Scope) (names : List String) : Prop where
  keeps : ∀ name type, scope name = some type → scope' name = some type
  isSome_iff : ∀ name, (scope' name).isSome ↔ (scope name).isSome ∨ name ∈ names

theorem Scope.Extends.trans {scope scope' scope'' : Scope} {names names' : List String}
    (h : scope.Extends scope' names) (h' : scope'.Extends scope'' names') :
    scope.Extends scope'' (names ++ names') := by
  constructor
  · intro name type hname
    exact h'.keeps name type (h.keeps name type hname)
  · intro name
    rw [h'.isSome_iff, h.isSome_iff, List.mem_append, or_assoc]

theorem Scope.Extends.refl (scope : Scope) : scope.Extends scope [] :=
  ⟨fun _ _ hname => hname, fun _ => by simp only [List.not_mem_nil, or_false]⟩

theorem Env.scope_of_addReturn {env env' : Env} {type : TypeId} (h : env.addReturn type = some env') :
    env'.scope = env.scope := by
  unfold addReturn at h
  split at h
  · cases h
    rfl
  · cases h

/-- A command leaves the variables as they are, apart from one that it may declare. -/
theorem Command.extends_of_elaborate {c : Context} {env env' : Env} {command : Command}
    {statement : Statement} (h : command.elaborate c env = some (statement, env')) :
    env.scope.Extends env'.scope command.stores := by
  cases command with
  | assign name value =>
      simp only [elaborate, Option.bind_eq_bind, Option.bind_eq_some_iff] at h
      obtain ⟨operand, -, h⟩ := h
      split at h
      · rename_i hknown
        cases h
        refine ⟨fun _ _ hname => hname, ?_⟩
        intro other
        rw [stores, List.mem_singleton]
        constructor
        · exact .inl
        · rintro (hother | rfl)
          · exact hother
          · exact hknown
      · rename_i hunknown
        cases h
        constructor
        · -- The name is no variable yet, so declaring it hides none.
          intro other type hother
          have hne : other ≠ name := by
            rintro rfl
            rw [hother] at hunknown
            exact hunknown rfl
          exact (Scope.declare_of_ne _ _ hne).trans hother
        · intro other
          rw [stores, List.mem_singleton]
          by_cases hother : other = name
          · subst hother
            simp only [Scope.declare_self, Option.isSome_some, or_true]
          · simp only [Scope.declare_of_ne _ _ hother, hother, or_false]
  | eval value =>
      simp only [elaborate, Option.bind_eq_bind, Option.bind_eq_some_iff] at h
      obtain ⟨operand, -, h⟩ := h
      cases h
      exact .refl env.scope
  | ret value =>
      cases value with
      | none =>
          simp only [elaborate, Option.bind_eq_bind, Option.bind_eq_some_iff] at h
          obtain ⟨added, hadded, h⟩ := h
          cases h
          rw [Env.scope_of_addReturn hadded]
          exact .refl env.scope
      | some value =>
          simp only [elaborate, Option.bind_eq_bind, Option.bind_eq_some_iff] at h
          obtain ⟨operand, -, added, hadded, h⟩ := h
          cases h
          rw [Env.scope_of_addReturn hadded]
          exact .refl env.scope

/-- A program leaves the variables as they are, apart from those that it declares. -/
theorem Nesting.extends_of_elaborate {c : Context} {env env' : Env} {p : StructuredProgram}
    {nested : Nesting Statement Expr} (h : p.elaborate c env = some (nested, env')) :
    env.scope.Extends env'.scope p.stores := by
  induction p generalizing env env' nested with
  | nil =>
      cases h
      exact .refl env.scope
  | leaf command rest ih =>
      simp only [elaborate, Option.bind_eq_bind, Option.bind_eq_some_iff] at h
      obtain ⟨⟨statement, env₁⟩, hcommand, ⟨after, env₂⟩, hrest, h⟩ := h
      cases h
      exact (Command.extends_of_elaborate hcommand).trans (ih hrest)
  | ifThen e body rest ihBody ihRest =>
      simp only [elaborate, Option.bind_eq_bind, Option.bind_eq_some_iff] at h
      obtain ⟨condition, -, ⟨inner, env₁⟩, hbody, ⟨after, env₂⟩, hrest, h⟩ := h
      cases h
      exact (ihBody hbody).trans (ihRest hrest)
  | ifElse e body other rest ihBody ihOther ihRest =>
      simp only [elaborate, Option.bind_eq_bind, Option.bind_eq_some_iff] at h
      obtain ⟨condition, -, ⟨inner, env₁⟩, hbody, ⟨alternative, env₂⟩, hother, ⟨after, env₃⟩, hrest, h⟩ := h
      cases h
      exact ((ihBody hbody).trans (ihOther hother)).trans (ihRest hrest)

/-- The statement of a command is the one that elaborating finds, if the types are those of the variables later on. -/
theorem Command.print?_of_elaborate {c : Context} {env env' : Env} {types seeded : Scope}
    {earlier : List String} {command : Command} {statement : Statement}
    (h : command.elaborate c env = some (statement, env')) (hearlier : seeded.Extends env.scope earlier)
    (htypes : ∀ name type, env'.scope name = some type → types name = some type) :
    command.print? types seeded earlier = some statement := by
  cases command with
  | assign name value =>
      simp only [elaborate, Option.bind_eq_bind, Option.bind_eq_some_iff] at h
      obtain ⟨operand, hoperand, h⟩ := h
      have hexpr := (Source.operand?_eq_some_iff.mp hoperand).2
      simp only [print?, hexpr, Option.bind_eq_bind, Option.bind_some]
      split at h
      · rename_i hknown
        cases h
        rw [if_pos ((hearlier.isSome_iff name).mp hknown)]
        rfl
      · rename_i hunknown
        cases h
        have htype := htypes name operand.type (Scope.declare_self _ _ _)
        rw [if_neg (mt (hearlier.isSome_iff name).mpr hunknown), htype]
        rfl
  | eval value =>
      simp only [elaborate, Option.bind_eq_bind, Option.bind_eq_some_iff] at h
      obtain ⟨operand, hoperand, h⟩ := h
      cases h
      simp only [print?, (Source.operand?_eq_some_iff.mp hoperand).2]
      rfl
  | ret value =>
      cases value with
      | none =>
          simp only [elaborate, Option.bind_eq_bind, Option.bind_eq_some_iff] at h
          obtain ⟨added, -, h⟩ := h
          cases h
          rfl
      | some value =>
          simp only [elaborate, Option.bind_eq_bind, Option.bind_eq_some_iff] at h
          obtain ⟨operand, hoperand, added, -, h⟩ := h
          cases h
          simp only [print?, (Source.operand?_eq_some_iff.mp hoperand).2]
          rfl

/-- The nested statements of a program are those that elaborating finds. -/
theorem Nesting.print?_of_elaborate {c : Context} {env env' : Env} {types seeded : Scope}
    {earlier : List String} {p : StructuredProgram} {nested : Nesting Statement Expr}
    (h : p.elaborate c env = some (nested, env')) (hearlier : seeded.Extends env.scope earlier)
    (htypes : ∀ name type, env'.scope name = some type → types name = some type) :
    p.print? types seeded earlier = some nested := by
  induction p generalizing env env' earlier nested with
  | nil =>
      cases h
      rfl
  | leaf command rest ih =>
      simp only [elaborate, Option.bind_eq_bind, Option.bind_eq_some_iff] at h
      obtain ⟨⟨statement, env₁⟩, hcommand, ⟨after, env₂⟩, hrest, h⟩ := h
      cases h
      have hcommandExtends := Command.extends_of_elaborate hcommand
      have hrestExtends := extends_of_elaborate hrest
      -- What the command declares keeps its type to the end, where `types` is read.
      have hstatement := Command.print?_of_elaborate hcommand hearlier fun name type hname =>
        htypes name type (hrestExtends.keeps name type hname)
      have hafter := ih hrest (hearlier.trans hcommandExtends) htypes
      simp only [print?, hstatement, hafter]
      rfl
  | ifThen e body rest ihBody ihRest =>
      simp only [elaborate, Option.bind_eq_bind, Option.bind_eq_some_iff] at h
      obtain ⟨condition, hcondition, ⟨inner, env₁⟩, hbody, ⟨after, env₂⟩, hrest, h⟩ := h
      cases h
      have hbodyExtends := extends_of_elaborate hbody
      have hrestExtends := extends_of_elaborate hrest
      have hinner := ihBody hbody hearlier fun name type hname =>
        htypes name type (hrestExtends.keeps name type hname)
      have hafter := ihRest hrest (hearlier.trans hbodyExtends) htypes
      simp only [print?, (Source.condition?_eq_some_iff.mp hcondition).2, hinner, hafter]
      rfl
  | ifElse e body other rest ihBody ihOther ihRest =>
      simp only [elaborate, Option.bind_eq_bind, Option.bind_eq_some_iff] at h
      obtain ⟨condition, hcondition, ⟨inner, env₁⟩, hbody, ⟨alternative, env₂⟩, hother,
        ⟨after, env₃⟩, hrest, h⟩ := h
      cases h
      have hbodyExtends := extends_of_elaborate hbody
      have hotherExtends := extends_of_elaborate hother
      have hrestExtends := extends_of_elaborate hrest
      have hinner := ihBody hbody hearlier fun name type hname =>
        htypes name type ((hotherExtends.trans hrestExtends).keeps name type hname)
      have halternative := ihOther hother (hearlier.trans hbodyExtends) fun name type hname =>
        htypes name type (hrestExtends.keeps name type hname)
      have hafter := ihRest hrest ((hearlier.trans hbodyExtends).trans hotherExtends) htypes
      simp only [print?, (Source.condition?_eq_some_iff.mp hcondition).2, hinner, halternative, hafter]
      rfl

/-- A program that passes the check can be printed with the types that checking ends with, and elaborating it finds
both. -/
theorem Nesting.exists_print?_of_check {c : Context} {seeded : Scope} {p : StructuredProgram} {env : Env}
    (h : p.check c { scope := seeded } = some env) :
    ∃ nested, p.print? env.scope seeded [] = some nested ∧
      p.elaborate c { scope := seeded } = some (nested, env) := by
  rw [← map_snd_elaborate] at h
  obtain ⟨⟨nested, env'⟩, helaborate, rfl⟩ := Option.map_eq_some_iff.mp h
  exact ⟨nested, print?_of_elaborate helaborate (.refl seeded) fun _ _ hname => hname, helaborate⟩

end ShaderLift
