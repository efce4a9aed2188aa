import ShaderLift.Operator

/-!
# Type tables

A type table is a growing list of named types.  Each type carries the rules for operators whose left
operand it is, catch-all rules that apply to every operator it defines, and the types to which it converts.

A type is referred to by its position (`TypeId`).  A handle is not tied to a table: a rule may mention it
before any type stands at its position.  Names are looked up in a map of their own, beside the list.
-/

namespace ShaderLift

/-- A handle of a type: a position in type tables, or the null handle, at which no type stands. -/
inductive TypeId where
  | null
  | pos (index : Nat)
deriving DecidableEq, Repr

/-- The rule that an operator, applied to a right operand of type `rhs`, gives `result`. -/
structure OperatorRule where
  op : Operator
  rhs : TypeId
  result : TypeId
deriving DecidableEq, Repr

/-- A type with the rules for it as a left operand.  Rules are kept newest first, so that the latest rule
for a key is the one found. -/
structure TypeEntry where
  name : String
  /-- The operator rules. -/
  rules : List OperatorRule := []
  /-- The catch-all rules: right operand and result, for every operator that has some rule. -/
  anyRules : List (TypeId × TypeId) := []
  /-- The types as which a value may be passed to a function. -/
  conversions : List TypeId := []
deriving DecidableEq, Repr

namespace TypeEntry

/-- Whether some rule mentions the operator. -/
def defines (e : TypeEntry) (op : Operator) : Bool :=
  e.rules.any (·.op == op)

/-- The result of the latest rule for the operator and the right operand. -/
def ruleResult? (e : TypeEntry) (op : Operator) (rhs : TypeId) : Option TypeId :=
  (e.rules.find? fun r => r.op == op && r.rhs == rhs).map (·.result)

/-- The result of the latest catch-all rule for the right operand. -/
def anyResult? (e : TypeEntry) (rhs : TypeId) : Option TypeId :=
  e.anyRules.lookup rhs

end TypeEntry

/-- Why an operator cannot be applied. -/
inductive TypeError where
  /-- The left operand's type has no rule for the operator. -/
  | unsupportedOperator (op : Operator) (type : TypeId)
  /-- The left operand's type has rules for the operator, but none for the right operand. -/
  | unsupportedOperand (op : Operator) (lhs rhs : TypeId)
deriving DecidableEq, Repr

/-- The types in the order in which they were added, the map from names to handles, and the handles of the two
types between which the built-in conversion from `int` to `float` goes. -/
structure TypeTable where
  entries : List TypeEntry := []
  /-- The handle of each name.  Like the rules, it is kept newest first. -/
  handles : List (String × TypeId) := []
  intId : Option TypeId := none
  floatId : Option TypeId := none
deriving DecidableEq, Repr

namespace TypeTable

/-- The table without types. -/
def empty : TypeTable := {}

/-- The number of types. -/
def size (t : TypeTable) : Nat :=
  t.entries.length

/-- The names of the types, in order. -/
def names (t : TypeTable) : List String :=
  t.entries.map (·.name)

/-- The type that a handle refers to, if there is one. -/
def entry? (t : TypeTable) : TypeId → Option TypeEntry
  | .null => none
  | .pos index => t.entries[index]?

/-- Whether a type stands at a handle. -/
def contains (t : TypeTable) (id : TypeId) : Bool :=
  (t.entry? id).isSome

/-- The handles of the types, in order. -/
def ids (t : TypeTable) : List TypeId :=
  (List.range t.size).map .pos

/-- The name by which a handle is reported; a handle without a type has one too. -/
def name (t : TypeTable) (id : TypeId) : String :=
  match t.entry? id with
  | some e => e.name
  | none => "<unknown>"

/-- The handle of a name. -/
def find? (t : TypeTable) (name : String) : Option TypeId :=
  t.handles.lookup name

/-- Adds a type without rules and returns its handle.  If the name has a handle already, the table stays as it is
and that handle is returned. -/
def add (t : TypeTable) (name : String) : TypeTable × TypeId :=
  match t.find? name with
  | some id => (t, id)
  | none =>
      let id := TypeId.pos t.size
      ({ entries := t.entries ++ [{ name := name }]
         handles := (name, id) :: t.handles
         intId := if name = "int" then some id else t.intId
         floatId := if name = "float" then some id else t.floatId }, id)

/-- Changes the type that a handle refers to; without such a type the table stays as it is. -/
def modify (t : TypeTable) (id : TypeId) (f : TypeEntry → TypeEntry) : TypeTable :=
  match id with
  | .null => t
  | .pos index => { t with entries := t.entries.modify index f }

/-- From now on `id op rhs` has the type `result`. -/
def addRule (t : TypeTable) (id : TypeId) (op : Operator) (rhs result : TypeId) : TypeTable :=
  t.modify id fun e => { e with rules := ⟨op, rhs, result⟩ :: e.rules }

/-- From now on `id op rhs` has the type `result`, for each of the operators. -/
def addRules (t : TypeTable) (id : TypeId) (ops : List Operator) (rhs result : TypeId) : TypeTable :=
  ops.foldl (fun t op => t.addRule id op rhs result) t

/-- From now on `id op rhs` has the type `result`, for every operator that `id` defines. -/
def addAnyRule (t : TypeTable) (id rhs result : TypeId) : TypeTable :=
  t.modify id fun e => { e with anyRules := (rhs, result) :: e.anyRules }

/-- From now on a value of type `id` may be passed where `target` is expected. -/
def addConversion (t : TypeTable) (id target : TypeId) : TypeTable :=
  t.modify id fun e => { e with conversions := target :: e.conversions }

/-- The type of `lhs op rhs`.  The left operand's type must define the operator; then a catch-all rule for
the right operand goes before the rule of the operator itself. -/
def operatorType (t : TypeTable) (op : Operator) (lhs rhs : TypeId) : Except TypeError TypeId :=
  match t.entry? lhs with
  | none => .error (.unsupportedOperator op lhs)
  | some e =>
      if e.defines op then
        match (e.anyResult? rhs).or (e.ruleResult? op rhs) with
        | some result => .ok result
        | none => .error (.unsupportedOperand op lhs rhs)
      else
        .error (.unsupportedOperator op lhs)

/-- Whether a value of type `source` may be passed where `target` is expected: if the handles are equal, by
the built-in conversion, or by a conversion of `source`. -/
def converts (t : TypeTable) (source target : TypeId) : Bool :=
  source == target
    || (t.intId == some source && t.floatId == some target)
    || (t.entry? source).any (·.conversions.contains target)

end TypeTable

/-- The text of a type error, with the types named as in the table. -/
def TypeError.message (types : TypeTable) : TypeError → String
  | unsupportedOperator op type =>
      "operator `" ++ op.symbol ++ "` cannot be used on type `" ++ types.name type ++ "`"
  | unsupportedOperand op lhs rhs =>
      "type `" ++ types.name rhs ++ "` cannot be used with operator `" ++ op.symbol ++ "` on type `"
        ++ types.name lhs ++ "`"

end ShaderLift
