import ShaderLift.TypeTable.Basic

/-!
# Edits of a type table

The four ways in which a type table changes, as data.  Every table in use is the empty one after a list of
edits.
-/

namespace ShaderLift

namespace TypeTable

/-- One change of a type table. -/
inductive Edit where
  | add (name : String)
  | rule (type : TypeId) (op : Operator) (rhs result : TypeId)
  | anyRule (type rhs result : TypeId)
  | conversion (type target : TypeId)
deriving DecidableEq, Repr

/-- Performs an edit. -/
def apply (t : TypeTable) : Edit → TypeTable
  | .add name => (t.add name).1
  | .rule type op rhs result => t.addRule type op rhs result
  | .anyRule type rhs result => t.addAnyRule type rhs result
  | .conversion type target => t.addConversion type target

/-- Performs edits in order. -/
def applyAll (t : TypeTable) (edits : List Edit) : TypeTable :=
  edits.foldl apply t

@[simp] theorem applyAll_nil (t : TypeTable) : t.applyAll [] = t := rfl

@[simp] theorem applyAll_cons (t : TypeTable) (edit : Edit) (edits : List Edit) :
    t.applyAll (edit :: edits) = (t.apply edit).applyAll edits := rfl

theorem applyAll_append (t : TypeTable) (first second : List Edit) :
    t.applyAll (first ++ second) = (t.applyAll first).applyAll second := by
  simp [applyAll, List.foldl_append]

/-- Adding a rule for several operators is adding it for each of them in turn. -/
theorem addRules_eq_applyAll (t : TypeTable) (type : TypeId) (ops : List Operator)
    (rhs result : TypeId) :
    t.addRules type ops rhs result = t.applyAll (ops.map fun op => .rule type op rhs result) := by
  induction ops generalizing t with
  | nil => rfl
  | cons op ops ih =>
      simp only [List.map_cons, applyAll_cons, ← ih]
      rfl

end TypeTable

end ShaderLift
