import ShaderLift.Lifting.State
import ShaderLift.Proofs.Nesting

/-!
# Values of statements and instructions

Two ways to compute, for any interpretation of constants, operators and functions: `Nesting.execute` executes nested
statements over a store of variables, and `stackStep` is a machine that runs instructions with a stack of values.

The machine comes in two kinds (`Lookup`).  The usual one looks a variable up when it is loaded.  The other one leaves a
reference on the stack and looks the variable up when the value is used by a statement, as expressions do.  The two
differ if a variable gets a new value in between; `storesSafely` is a condition on the instructions under which that
does not happen.
-/

namespace ShaderLift

/-- Pure functions for constants, operators and functions, and which values count as true. -/
structure Interpretation (V : Type) where
  literal : Literal → V
  operator : Operator → V → V → V
  function : String → List V → V
  holds : V → Bool

/-- The values of all variables. -/
abbrev Store (V : Type) := String → V

/-- The store with another value of a variable. -/
def Store.set {V : Type} (store : Store V) (name : String) (value : V) : Store V :=
  fun other => if other = name then value else store other

/-- How a run ends: the values of the variables and the returned value, if there is one. -/
structure Final (V : Type) where
  store : Store V
  returned : Option V

variable {V : Type}

/-! ## Statements -/

namespace Expr

mutual

/-- The value of an expression. -/
def eval (I : Interpretation V) (store : Store V) : Expr → V
  | number value => I.literal (.number value)
  | var name => store name
  | binary op left right => I.operator op (left.eval I store) (right.eval I store)
  | call callee args => I.function callee (evalArgs I store args)

/-- The values of arguments. -/
def evalArgs (I : Interpretation V) (store : Store V) : List Expr → List V
  | [] => []
  | arg :: rest => arg.eval I store :: evalArgs I store rest

end

mutual

/-- The variables of an expression. -/
def names : Expr → List String
  | number _ => []
  | var name => [name]
  | binary _ left right => left.names ++ right.names
  | call _ args => argNames args

/-- The variables of arguments. -/
def argNames : List Expr → List String
  | [] => []
  | arg :: rest => arg.names ++ argNames rest

end

end Expr

/-- Executes a statement: gives the new store, or the end of the run. -/
def Statement.execute (I : Interpretation V) (store : Store V) : Statement → Store V ⊕ Final V
  | declare _ name value => .inl (store.set name (value.eval I store))
  | assign name value => .inl (store.set name (value.eval I store))
  | ret value => .inr ⟨store, value.map (Expr.eval I store)⟩
  | _ => .inl store

/-- Goes on with the store, unless the run has ended. -/
def Final.andThen (first : Store V ⊕ Final V) (next : Store V → Store V ⊕ Final V) :
    Store V ⊕ Final V :=
  match first with
  | .inl store => next store
  | .inr final => .inr final

/-- Executes nested statements. -/
def Nesting.execute (I : Interpretation V) : Nesting Statement Expr → Store V → Store V ⊕ Final V
  | nil, store => .inl store
  | leaf statement rest, store => Final.andThen (statement.execute I store) (rest.execute I)
  | ifThen c body rest, store =>
      Final.andThen (if I.holds (c.eval I store) then body.execute I store else .inl store)
        (rest.execute I)
  | ifElse c body other rest, store =>
      Final.andThen (if I.holds (c.eval I store) then body.execute I store else other.execute I store)
        (rest.execute I)

/-- The end of a function: one that does not return ends without a value. -/
def Final.ofExecution : Store V ⊕ Final V → Final V
  | .inl store => ⟨store, none⟩
  | .inr final => final

/-! ## Instructions -/

/-- When a machine looks up a variable that is loaded. -/
inductive Lookup where
  /-- When the load is run. -/
  | atLoad
  /-- When the loaded value is used by a statement. -/
  | atUse
deriving DecidableEq, Repr

/-- What is put on the stack for a value that depends on the store: its value now, or the dependency itself. -/
def Lookup.hold (lookup : Lookup) (store : Store V) (value : Store V → V) : Store V → V :=
  match lookup with
  | atLoad => fun _ => value store
  | atUse => value

/-- An entry of the stack of a machine.  A value is given the store at the time of its use. -/
inductive Entry (V : Type) where
  | value (held : Store V → V)
  | function (name : String)

/-- A state of the machine: the index of the next instruction, the store and the stack, top first. -/
structure MachineState (V : Type) where
  index : Nat
  store : Store V
  stack : List (Entry V)

/-- The state before the next instruction, with another stack. -/
def MachineState.next (s : MachineState V) (stack : List (Entry V)) : MachineState V :=
  ⟨s.index + 1, s.store, stack⟩

/-- Takes values from the top of a stack; gives them in the order in which they were pushed. -/
def Entry.takeValues : Nat → List (Entry V) → Option (List (Store V → V) × List (Entry V))
  | 0, stack => some ([], stack)
  | count + 1, .value held :: rest =>
      match takeValues count rest with
      | some (others, rest) => some (others ++ [held], rest)
      | none => none
  | _ + 1, _ => none

/-- Whether a name is a variable where an instruction stands: from the start, or because of a store before it. -/
def isVariable (seeded : Scope) (body : List Instruction) (index : Nat) (name : String) : Bool :=
  (seeded name).isSome || (body.take index).contains (.storeLocal name)

/-- Performs an instruction.  The machine is stuck, with no result, if the stack does not fit. -/
def MachineState.perform (I : Interpretation V) (lookup : Lookup) (known : String → Bool)
    (s : MachineState V) : Instruction → MachineState V ⊕ Option (Final V)
  | .pushConst literal => .inl (s.next (.value (fun _ => I.literal literal) :: s.stack))
  | .loadLocal name => .inl (s.next (.value (lookup.hold s.store fun now => now name) :: s.stack))
  | .loadName name =>
      if known name then
        .inl (s.next (.value (lookup.hold s.store fun now => now name) :: s.stack))
      else
        .inl (s.next (.function name :: s.stack))
  | .loadGlobal name => .inl (s.next (.function name :: s.stack))
  | .storeLocal name =>
      match s.stack with
      | .value held :: rest => .inl ⟨s.index + 1, s.store.set name (held s.store), rest⟩
      | _ => .inr none
  | .binary op =>
      match s.stack with
      | .value right :: .value left :: rest =>
          .inl (s.next (.value (fun now => I.operator op (left now) (right now)) :: rest))
      | _ => .inr none
  | .call count =>
      match Entry.takeValues count s.stack with
      | some (args, .function name :: rest) =>
          .inl (s.next (.value (fun now => I.function name (args.map fun arg => arg now)) :: rest))
      | _ => .inr none
  | .pop =>
      match s.stack with
      | .value _ :: rest => .inl (s.next rest)
      | _ => .inr none
  | .ret =>
      match s.stack with
      | [] => .inr (some ⟨s.store, none⟩)
      | [.value held] => .inr (some ⟨s.store, some (held s.store)⟩)
      | _ => .inr none
  | .jumpIfFalse target =>
      match s.stack with
      | .value held :: rest =>
          .inl ⟨if I.holds (held s.store) then s.index + 1 else target, s.store, rest⟩
      | _ => .inr none
  | .jump target => .inl { s with index := target }

/-- One step of the machine; it halts at the end of the body. -/
def stackStep (I : Interpretation V) (lookup : Lookup) (seeded : Scope) (body : List Instruction)
    (s : MachineState V) : MachineState V ⊕ Option (Final V) :=
  match body[s.index]? with
  | none => .inr (some ⟨s.store, none⟩)
  | some i => s.perform I lookup (isVariable seeded body s.index) i

theorem stackStep_eq (I : Interpretation V) (lookup : Lookup) (seeded : Scope) {body : List Instruction}
    {index : Nat} {i : Instruction} (hcode : body[index]? = some i) (store : Store V)
    (stack : List (Entry V)) :
    stackStep I lookup seeded body ⟨index, store, stack⟩ =
      MachineState.perform I lookup (isVariable seeded body index) ⟨index, store, stack⟩ i := by
  simp only [stackStep, hcode]

/-! ## Loads that are still to be used -/

/-- The variables that the entries of the stack are made from, after an instruction. -/
def Instruction.pending (known : String → Bool) (pending : List (List String)) :
    Instruction → List (List String)
  | pushConst _ => [] :: pending
  | loadLocal name => [name] :: pending
  | loadName name => (if known name then [name] else []) :: pending
  | loadGlobal _ => [] :: pending
  | storeLocal _ => pending.tail
  | binary _ => (pending.take 2).reverse.flatten :: pending.drop 2
  | call count => (pending.take count).reverse.flatten :: pending.drop (count + 1)
  | pop => pending.tail
  | ret => []
  | jumpIfFalse _ => pending.tail
  | jump _ => pending

/-- The variables that the entries of the stack are made from, before the instruction at an index.  Bodies of
conditionals start and end with an empty stack, so the order of the instructions is all that counts. -/
def pendingAt (seeded : Scope) (body : List Instruction) : Nat → List (List String)
  | 0 => []
  | index + 1 =>
      match body[index]? with
      | some i => i.pending (isVariable seeded body index) (pendingAt seeded body index)
      | none => pendingAt seeded body index

theorem isVariable_succ (seeded : Scope) {body : List Instruction} {index : Nat} {i : Instruction}
    (hcode : body[index]? = some i) (name : String) :
    isVariable seeded body (index + 1) name =
      (isVariable seeded body index name || i == .storeLocal name) := by
  have hswap : (Instruction.storeLocal name == i) = (i == .storeLocal name) := Bool.beq_comm
  rw [isVariable, isVariable, List.take_add_one, hcode, List.contains_append, Option.toList_some,
    List.contains_cons, List.contains_nil, Bool.or_false, hswap, Bool.or_assoc]

theorem pendingAt_succ (seeded : Scope) {body : List Instruction} {index : Nat} {i : Instruction}
    (hcode : body[index]? = some i) :
    pendingAt seeded body (index + 1) =
      i.pending (isVariable seeded body index) (pendingAt seeded body index) := by
  rw [pendingAt, hcode]

/-- Whether no variable gets a new value while an entry below the stored one is made from it. -/
def storesSafely (seeded : Scope) (body : List Instruction) : Bool :=
  (List.range body.length).all fun index =>
    match body[index]? with
    | some (.storeLocal name) =>
        (pendingAt seeded body index).tail.all fun names => !names.contains name
    | _ => true

theorem not_mem_of_storesSafely {seeded : Scope} {body : List Instruction} {index : Nat} {name : String}
    (hsafe : storesSafely seeded body) (hcode : body[index]? = some (.storeLocal name))
    {names : List String} (hnames : names ∈ (pendingAt seeded body index).tail) : name ∉ names := by
  have hlength : index < body.length := (List.getElem?_eq_some_iff.mp hcode).1
  have hindex := List.all_eq_true.mp hsafe index (List.mem_range.mpr hlength)
  rw [hcode] at hindex
  have hcontains := List.all_eq_true.mp hindex names hnames
  simpa using hcontains

/-! ## Values and stores -/

namespace Expr

mutual

/-- The value of an expression depends on its variables only. -/
theorem eval_set_of_not_mem (I : Interpretation V) (store : Store V) {name : String} (value : V) :
    (e : Expr) → name ∉ e.names → e.eval I (store.set name value) = e.eval I store
  | number _, _ => rfl
  | var other, h => by
      rw [names, List.mem_singleton] at h
      rw [eval, eval, Store.set, if_neg (Ne.symm h)]
  | binary op left right, h => by
      rw [names, List.mem_append, not_or] at h
      rw [eval, eval, eval_set_of_not_mem I store value left h.1,
        eval_set_of_not_mem I store value right h.2]
  | call callee args, h => by
      rw [eval, eval, evalArgs_set_of_not_mem I store value args h]

theorem evalArgs_set_of_not_mem (I : Interpretation V) (store : Store V) {name : String} (value : V) :
    (args : List Expr) → name ∉ argNames args →
      evalArgs I (store.set name value) args = evalArgs I store args
  | [], _ => rfl
  | arg :: rest, h => by
      rw [argNames, List.mem_append, not_or] at h
      rw [evalArgs, evalArgs, eval_set_of_not_mem I store value arg h.1,
        evalArgs_set_of_not_mem I store value rest h.2]

end

theorem evalArgs_eq_map (I : Interpretation V) (store : Store V) (args : List Expr) :
    evalArgs I store args = args.map (eval I store) := by
  induction args with
  | nil => rfl
  | cons arg rest ih => rw [evalArgs, List.map_cons, ih]

theorem argNames_eq_flatten (args : List Expr) : argNames args = (args.map names).flatten := by
  induction args with
  | nil => rfl
  | cons arg rest ih => rw [argNames, List.map_cons, List.flatten_cons, ih]

end Expr

namespace Lookup

/-- Whatever the kind of lookup is, a value that is used at once is the value now. -/
theorem hold_self (lookup : Lookup) (store : Store V) (value : Store V → V) :
    lookup.hold store value store = value store := by
  cases lookup <;> rfl

theorem hold_const (lookup : Lookup) (store : Store V) (value : V) :
    lookup.hold store (fun _ => value) = fun _ => value := by
  cases lookup <;> rfl

/-- Holding a result is computing with what is held. -/
theorem hold_binary (lookup : Lookup) (store : Store V) (f : V → V → V) (left right : Store V → V) :
    lookup.hold store (fun now => f (left now) (right now)) =
      fun now => f (lookup.hold store left now) (lookup.hold store right now) := by
  cases lookup <;> rfl

theorem hold_call (lookup : Lookup) (store : Store V) (f : List V → V) (args : List (Store V → V)) :
    lookup.hold store (fun now => f (args.map fun arg => arg now)) =
      fun now => f ((args.map (lookup.hold store)).map fun arg => arg now) := by
  cases lookup <;> simp only [hold, List.map_map, Function.comp_def]

end Lookup

end ShaderLift
