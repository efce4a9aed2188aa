import ShaderLift.Proofs.TypeHandles

/-!
# Operators and conversions from the history of a table

What a type table answers is determined by the calls that made it.  A link, that is a rule or a conversion, counts if
the type that it is made for is there; the types that it leads to need not be.  Of several links for the same operands
the last one counts.

* `TypeTable.effectiveLinks`: the links that count.
* `TypeTable.Newest`: a question about a type that the newest link with an answer decides.
* `TypeTable.Newest.applyAll`, `TypeTable.Newest.applyAll_of_contains`: the answer to such a question after any edits.
* `TypeTable.queries_of_operations`: the answers of every table, from the calls that made it.
* `TypeTable.operatorType_later`: what becomes of the type of an operation when more calls are made.
-/

namespace ShaderLift

namespace TypeTable

/-! ## Links -/

namespace Edit

/-- The type that a link is made for. -/
def receiver? : Edit → Option TypeId
  | add _ => none
  | rule type _ _ _ => some type
  | anyRule type _ _ => some type
  | conversion type _ => some type

/-- The rule that a link makes for an operator. -/
def operatorRule? (op : Operator) : Edit → Option OperatorRule
  | rule _ op' rhs result => if op' = op then some ⟨op', rhs, result⟩ else none
  | _ => none

/-- The result that a link gives an operator with a right operand. -/
def ruleResult? (op : Operator) (rhs : TypeId) : Edit → Option TypeId
  | rule _ op' rhs' result => if op' = op ∧ rhs' = rhs then some result else none
  | _ => none

/-- The result that a link gives every operator with a right operand. -/
def anyResult? (rhs : TypeId) : Edit → Option TypeId
  | anyRule _ rhs' result => if rhs' = rhs then some result else none
  | _ => none

/-- The type to which a link converts, if it is `target`. -/
def conversion? (target : TypeId) : Edit → Option TypeId
  | conversion _ target' => if target' = target then some target' else none
  | _ => none

/-- What a link does to the type that it is made for. -/
def change : Edit → TypeEntry → TypeEntry
  | add _, e => e
  | rule _ op rhs result, e => { e with rules := ⟨op, rhs, result⟩ :: e.rules }
  | anyRule _ rhs result, e => { e with anyRules := (rhs, result) :: e.anyRules }
  | conversion _ target, e => { e with conversions := target :: e.conversions }

/-- Whether an edit is a link for a type whose handle is among the known ones. -/
def isEffective (known : List TypeId) (edit : Edit) : Bool :=
  edit.receiver?.any known.contains

end Edit

/-- The links among edits that are made for a type after its handle was returned, where `known` are the handles that
were returned before. -/
def effectiveLinks (t : TypeTable) (known : List TypeId) : List Edit → List Edit
  | [] => []
  | edit :: rest =>
      (if edit.isEffective known then [edit] else []) ++
        (t.apply edit).effectiveLinks (known ++ ((t.registration? edit).map Prod.snd).toList) rest

/-- The links for one type. -/
def linksFor (lhs : TypeId) (links : List Edit) : List Edit :=
  links.filter (·.receiver? == some lhs)

/-- The result of the last link for an operator and its operands. -/
def lastRule? (links : List Edit) (op : Operator) (lhs rhs : TypeId) : Option TypeId :=
  ((linksFor lhs links).filterMap (Edit.ruleResult? op rhs)).getLast?

/-- The result of the last link for two operands and every operator. -/
def lastAnyRule? (links : List Edit) (lhs rhs : TypeId) : Option TypeId :=
  ((linksFor lhs links).filterMap (Edit.anyResult? rhs)).getLast?

/-- The answer to a question about the type at a handle; there is none without a type. -/
def ask {α : Type} (t : TypeTable) (lhs : TypeId) (query : TypeEntry → Option α) : Option α :=
  (t.entry? lhs).bind query

/-! ## One edit -/

/-- Types stand at the handles that were known before an edit, and at the one that it returns. -/
theorem Consistent.contains_apply_iff {t : TypeTable} (h : t.Consistent) {edit : Edit} {id : TypeId} :
    (t.apply edit).contains id = true ↔
      t.contains id = true ∨ id ∈ ((t.registration? edit).map Prod.snd).toList := by
  rw [contains_apply]
  cases edit with
  | add name =>
      rcases t.add_cases name with ⟨found, hfind, hnew, hadd⟩ | ⟨-, hnew, hadd⟩
      · have hfound : t.contains found = true := ((h.find?_iff name found).mp hfind).1
        simp only [hnew, registration?, hadd, Option.isSome_none, Bool.false_eq_true, false_and, or_false,
          Option.map_some, Option.toList_some, List.mem_singleton]
        constructor
        · exact .inl
        · rintro (hcontains | rfl)
          · exact hcontains
          · exact hfound
      · simp [hnew, registration?, hadd]
  | _ => simp [newName?, registration?]

/-- A link changes the type that it is made for. -/
theorem apply_of_receiver? (t : TypeTable) {edit : Edit} {type : TypeId} (h : edit.receiver? = some type) :
    t.apply edit = t.modify type edit.change := by
  cases edit <;> cases h <;> rfl

/-- A question about a type that the newest link with an answer decides: `answer` is what a link for the type says. -/
structure Newest {α : Type} (query : TypeEntry → Option α) (answer : Edit → Option α) : Prop where
  fresh : ∀ name, query { name := name } = none
  change : ∀ edit entry, query (edit.change entry) = (answer edit).or (query entry)

theorem newest_operatorRule (op : Operator) :
    Newest (fun e => e.rules.find? (·.op == op)) (Edit.operatorRule? op) where
  fresh := fun _ => rfl
  change := fun edit entry => by
    cases edit with
    | rule type op' rhs result => by_cases h : op' = op <;> simp [Edit.change, Edit.operatorRule?, h]
    | _ => rfl

theorem newest_ruleResult (op : Operator) (rhs : TypeId) :
    Newest (fun e => e.ruleResult? op rhs) (Edit.ruleResult? op rhs) where
  fresh := fun _ => rfl
  change := fun edit entry => by
    cases edit with
    | rule type op' rhs' result =>
        by_cases h : op' = op ∧ rhs' = rhs <;>
          simp [Edit.change, Edit.ruleResult?, TypeEntry.ruleResult?, h]
    | _ => rfl

theorem newest_anyResult (rhs : TypeId) : Newest (fun e => e.anyResult? rhs) (Edit.anyResult? rhs) where
  fresh := fun _ => rfl
  change := fun edit entry => by
    cases edit with
    | anyRule type rhs' result =>
        show List.lookup rhs ((rhs', result) :: entry.anyRules) = _
        rw [List.lookup_cons, Edit.anyResult?]
        by_cases h : rhs' = rhs
        · subst h
          simp
        · rw [beq_false_of_ne (Ne.symm h), if_neg h, Option.none_or]
          rfl
    | _ => rfl

theorem newest_conversion (target : TypeId) :
    Newest (fun e => e.conversions.find? (· == target)) (Edit.conversion? target) where
  fresh := fun _ => rfl
  change := fun edit entry => by
    cases edit with
    | conversion type target' => by_cases h : target' = target <;> simp [Edit.change, Edit.conversion?, h]
    | _ => rfl

namespace Newest

variable {α : Type} {query : TypeEntry → Option α} {answer : Edit → Option α} {t : TypeTable} {known : List TypeId}
  {lhs : TypeId}

/-- An edit that is an effective link for the type gives its own answer, if it has one; any other edit leaves the answer
as it is. -/
theorem apply (h : Newest query answer) (hknown : lhs ∈ known ↔ t.contains lhs = true) (edit : Edit) :
    (t.apply edit).ask lhs query =
      ((linksFor lhs (if edit.isEffective known then [edit] else [])).filterMap answer).getLast?.or
        (t.ask lhs query) := by
  rw [ask, ask]
  cases hreceiver : edit.receiver? with
  | none =>
      -- Only the addition of a name is no link, and a new type has no rules.
      have hlinks : edit.isEffective known = false := by rw [Edit.isEffective, hreceiver, Option.any_none]
      rw [hlinks, if_neg Bool.false_ne_true]
      cases edit with
      | add name =>
          rw [TypeTable.apply, entry?_add]
          cases t.entry? lhs with
          | some entry => rfl
          | none =>
              split
              · exact h.fresh name
              · rfl
      | _ => cases hreceiver
  | some type =>
      rw [apply_of_receiver? t hreceiver, entry?_modify]
      by_cases hlhs : lhs = type
      · subst hlhs
        have heffective : edit.isEffective known = t.contains lhs := by
          rw [Edit.isEffective, hreceiver, Option.any_some, Bool.eq_iff_iff, List.contains_iff_mem, hknown]
        rw [heffective, if_pos rfl]
        cases hentry : t.entry? lhs with
        | none => simp [contains, hentry, linksFor]
        | some entry =>
            have hcontains : t.contains lhs = true := by rw [contains, hentry, Option.isSome_some]
            have hlinks : linksFor lhs [edit] = [edit] := by simp [linksFor, hreceiver]
            rw [hcontains, if_pos rfl, hlinks, Option.map_some, Option.bind_some, Option.bind_some, h.change]
            cases hanswer : answer edit <;> simp [hanswer]
      · have hlinks : linksFor lhs (if edit.isEffective known then [edit] else []) = [] := by
          split
          · simp [linksFor, hreceiver, Ne.symm hlhs]
          · rfl
        rw [if_neg hlhs, hlinks]
        rfl

/-- After any edits of a consistent table, the last effective link for the type that has an answer decides, and without
one the answer is the one from before. -/
theorem applyAll (h : Newest query answer) (ht : t.Consistent) (hknown : lhs ∈ known ↔ t.contains lhs = true)
    (edits : List Edit) :
    (t.applyAll edits).ask lhs query =
      ((linksFor lhs (t.effectiveLinks known edits)).filterMap answer).getLast?.or
        (t.ask lhs query) := by
  induction edits generalizing t known with
  | nil => rfl
  | cons edit rest ih =>
      have hnext :
          lhs ∈ known ++ ((t.registration? edit).map Prod.snd).toList ↔ (t.apply edit).contains lhs = true := by
        rw [List.mem_append, hknown, ht.contains_apply_iff]
      rw [applyAll_cons, ih (ht.apply edit) hnext, h.apply hknown, effectiveLinks, linksFor, linksFor, linksFor,
        List.filter_append, List.filterMap_append, List.getLast?_append, Option.or_assoc]

/-- For a type that is there, in whatever table, all links count. -/
theorem applyAll_of_contains (h : Newest query answer) (hlhs : t.contains lhs = true) (edits : List Edit) :
    (t.applyAll edits).ask lhs query = ((linksFor lhs edits).filterMap answer).getLast?.or (t.ask lhs query) := by
  induction edits generalizing t with
  | nil => rfl
  | cons edit rest ih =>
      have hlinks : linksFor lhs (if edit.isEffective [lhs] then [edit] else []) = linksFor lhs [edit] := by
        by_cases hreceiver : edit.receiver? = some lhs
        · rw [Edit.isEffective, hreceiver, Option.any_some, List.contains_iff_mem.mpr List.mem_cons_self, if_pos rfl]
        · split
          · rfl
          · simp [linksFor, hreceiver]
      have hsplit : linksFor lhs (edit :: rest) = linksFor lhs [edit] ++ linksFor lhs rest :=
        List.filter_append [edit] rest
      rw [applyAll_cons, ih (contains_apply.mpr (.inl hlhs)), h.apply (iff_of_true List.mem_cons_self hlhs), hlinks,
        hsplit, List.filterMap_append, List.getLast?_append, Option.or_assoc]

end Newest

/-! ## Answers of a table -/

/-- The type of an operation, from the questions that the newest links decide. -/
theorem operatorType_eq (t : TypeTable) (op : Operator) (lhs rhs : TypeId) :
    t.operatorType op lhs rhs =
      if (t.ask lhs fun e => e.rules.find? (·.op == op)).isSome then
        match (t.ask lhs fun e => e.anyResult? rhs).or (t.ask lhs fun e => e.ruleResult? op rhs) with
        | some result => .ok result
        | none => .error (.unsupportedOperand op lhs rhs)
      else
        .error (.unsupportedOperator op lhs) := by
  rw [operatorType, ask, ask, ask]
  cases t.entry? lhs with
  | none => rfl
  | some entry =>
      simp only [TypeEntry.defines, Option.bind_some, List.isSome_find?]
      rfl

theorem converts_iff {t : TypeTable} {source target : TypeId} :
    t.converts source target = true ↔
      source = target ∨ (t.intId = some source ∧ t.floatId = some target) ∨
        (t.ask source fun e => e.conversions.find? (· == target)).isSome = true := by
  rw [converts, Bool.or_eq_true, Bool.or_eq_true, beq_iff_eq, Bool.and_eq_true, beq_iff_eq, beq_iff_eq, or_assoc, ask]
  cases t.entry? source with
  | none => simp
  | some entry => simp

/-- The links that count among those that operations make, in order. -/
def effective (operations : List Operation) : List Edit :=
  empty.effectiveLinks [] (history operations)

theorem Newest.performAll {α : Type} {query : TypeEntry → Option α} {answer : Edit → Option α}
    (h : Newest query answer) (operations : List Operation) (lhs : TypeId) :
    (empty.performAll operations).ask lhs query =
      ((linksFor lhs (effective operations)).filterMap answer).getLast? := by
  have hknown : lhs ∈ [] ↔ empty.contains lhs = true := by
    rw [← mem_ids]
    rfl
  have hempty : empty.ask lhs query = none := by cases lhs <;> rfl
  rw [performAll_eq_applyAll, h.applyAll consistent_empty hknown, hempty, Option.or_none, effective]

/-- A question has an answer if and only if some link for the type has one. -/
theorem isSome_last_iff {α : Type} {answer : Edit → Option α} {lhs : TypeId} {links : List Edit} :
    ((linksFor lhs links).filterMap answer).getLast?.isSome = true ↔
      ∃ link ∈ links, link.receiver? = some lhs ∧ (answer link).isSome = true := by
  rw [List.getLast?_isSome]
  constructor
  · intro hanswers
    obtain ⟨a, hmem⟩ := List.exists_mem_of_ne_nil _ hanswers
    obtain ⟨link, hlink, hanswer⟩ := List.mem_filterMap.mp hmem
    obtain ⟨hlink, hreceiver⟩ := List.mem_filter.mp hlink
    exact ⟨link, hlink, eq_of_beq hreceiver, by rw [hanswer, Option.isSome_some]⟩
  · rintro ⟨link, hlink, hreceiver, hanswer⟩
    obtain ⟨a, ha⟩ := Option.isSome_iff_exists.mp hanswer
    have hfor : link ∈ linksFor lhs links := List.mem_filter.mpr ⟨hlink, beq_iff_eq.mpr hreceiver⟩
    exact List.ne_nil_of_mem (List.mem_filterMap.mpr ⟨link, hfor, ha⟩)

/-- Some link makes a rule for the operator, whatever its right operand. -/
def Links (links : List Edit) (op : Operator) (lhs : TypeId) : Prop :=
  ∃ rhs result, .rule lhs op rhs result ∈ links

theorem links_iff {links : List Edit} {op : Operator} {lhs : TypeId} :
    ((linksFor lhs links).filterMap (Edit.operatorRule? op)).getLast?.isSome = true ↔ Links links op lhs := by
  rw [isSome_last_iff]
  constructor
  · rintro ⟨link, hlink, hreceiver, hanswer⟩
    cases link with
    | rule type op' rhs result =>
        cases hreceiver
        rw [Edit.operatorRule?] at hanswer
        split at hanswer
        · rename_i hop
          exact ⟨rhs, result, hop ▸ hlink⟩
        · cases hanswer
    | _ => cases hanswer
  · rintro ⟨rhs, result, hlink⟩
    exact ⟨_, hlink, rfl, by simp [Edit.operatorRule?]⟩

theorem conversion_mem_iff {links : List Edit} {source target : TypeId} :
    ((linksFor source links).filterMap (Edit.conversion? target)).getLast?.isSome = true ↔
      .conversion source target ∈ links := by
  rw [isSome_last_iff]
  constructor
  · rintro ⟨link, hlink, hreceiver, hanswer⟩
    cases link with
    | conversion type target' =>
        cases hreceiver
        rw [Edit.conversion?] at hanswer
        split at hanswer
        · rename_i htarget
          exact htarget ▸ hlink
        · cases hanswer
    | _ => cases hanswer
  · intro hlink
    exact ⟨_, hlink, rfl, by simp [Edit.conversion?]⟩

/-- The answers of a table are determined by the operations that made it.  An operator is supported if some link that
counts makes a rule for it; then the last link for the operands and every operator gives the type, or else the last one
for the operands and this operator. -/
theorem queries_of_operations (operations : List Operation) :
    (∀ op lhs rhs,
      ((empty.performAll operations).operatorType op lhs rhs = .error (.unsupportedOperator op lhs) ↔
        ¬ Links (effective operations) op lhs) ∧
      (∀ result, (empty.performAll operations).operatorType op lhs rhs = .ok result ↔
        Links (effective operations) op lhs ∧
          (lastAnyRule? (effective operations) lhs rhs).or (lastRule? (effective operations) op lhs rhs) =
            some result) ∧
      ((empty.performAll operations).operatorType op lhs rhs = .error (.unsupportedOperand op lhs rhs) ↔
        Links (effective operations) op lhs ∧ lastAnyRule? (effective operations) lhs rhs = none ∧
          lastRule? (effective operations) op lhs rhs = none)) ∧
    ∀ source target, (empty.performAll operations).converts source target = true ↔
      source = target ∨ ((("int", source) ∈ added operations ∧ ("float", target) ∈ added operations) ∨
        .conversion source target ∈ effective operations) := by
  constructor
  · intro op lhs rhs
    rw [operatorType_eq, (newest_operatorRule op).performAll, (newest_anyResult rhs).performAll,
      (newest_ruleResult op rhs).performAll, ← lastAnyRule?, ← lastRule?]
    by_cases hlinks : Links (effective operations) op lhs
    · rw [if_pos (links_iff.mpr hlinks)]
      cases lastAnyRule? (effective operations) lhs rhs with
      | some result => simp [hlinks]
      | none => cases lastRule? (effective operations) op lhs rhs <;> simp [hlinks]
    · rw [if_neg (mt links_iff.mp hlinks)]
      simp [hlinks]
  · intro source target
    have hconsistent := consistent_empty.applyAll (history operations)
    have hregistered := registered_empty.applyAll (history operations)
    rw [← performAll_eq_applyAll] at hconsistent hregistered
    rw [converts_iff, (newest_conversion target).performAll, conversion_mem_iff, hconsistent.intId, hconsistent.floatId,
      ← hregistered.mem_iff, ← hregistered.mem_iff]
    rfl

-- The first rule is made before there is a type for it; the second one leads to a type that is not there yet.
example : effective [.add "a", .addRule (.pos 1) .sub (.pos 1) (.pos 1), .add "b",
    .addRules (.pos 1) [.add, .sub] (.pos 0) (.pos 2)] =
      [.rule (.pos 1) .add (.pos 0) (.pos 2), .rule (.pos 1) .sub (.pos 0) (.pos 2)] := by rfl

/-! ## Later operations -/

/-- The type that later links put in the place of the one that an operation has in a table: that of the last one for
its operands and every operator, or else that of the last one for its operands and operator, which does not count if
the table has a rule for the operands and every operator. -/
def replacement? (t : TypeTable) (links : List Edit) (op : Operator) (lhs rhs : TypeId) : Option TypeId :=
  (lastAnyRule? links lhs rhs).or
    (if (t.ask lhs fun e => e.anyResult? rhs).isSome then none else lastRule? links op lhs rhs)

/-- An operation that has a type keeps one, whatever operations follow, and keeps the same one if and only if no link
puts another in its place. -/
theorem operatorType_later {t : TypeTable} {op : Operator} {lhs rhs result : TypeId}
    (h : t.operatorType op lhs rhs = .ok result) (operations : List Operation) :
    (t.performAll operations).operatorType op lhs rhs =
        .ok ((t.replacement? (history operations) op lhs rhs).getD result) ∧
      ((t.performAll operations).operatorType op lhs rhs = .ok result ↔
        ∀ other, t.replacement? (history operations) op lhs rhs = some other → other = result) := by
  rw [operatorType_eq] at h
  split at h
  · rename_i hdefined
    have hlhs : t.contains lhs = true := by
      rw [contains]
      obtain ⟨rule, hrule⟩ := Option.isSome_iff_exists.mp hdefined
      obtain ⟨entry, hentry, -⟩ := Option.bind_eq_some_iff.mp hrule
      rw [hentry, Option.isSome_some]
    have hlater : (t.performAll operations).operatorType op lhs rhs =
        .ok ((t.replacement? (history operations) op lhs rhs).getD result) := by
      rw [performAll_eq_applyAll, operatorType_eq, (newest_operatorRule op).applyAll_of_contains hlhs,
        (newest_anyResult rhs).applyAll_of_contains hlhs, (newest_ruleResult op rhs).applyAll_of_contains hlhs,
        ← lastAnyRule?, ← lastRule?, Option.isSome_or, hdefined, Bool.or_true, if_pos rfl, replacement?]
      cases lastAnyRule? (history operations) lhs rhs with
      | some other => rfl
      | none =>
          cases hany : t.ask lhs fun e => e.anyResult? rhs with
          | some before =>
              rw [hany] at h
              cases h
              rfl
          | none =>
              rw [hany] at h
              cases lastRule? (history operations) op lhs rhs with
              | some other => rfl
              | none => exact h
    refine ⟨hlater, ?_⟩
    rw [hlater, Except.ok.injEq]
    cases t.replacement? (history operations) op lhs rhs with
    | none => simp
    | some other => simp
  · cases h

/-- Two types, of which the first can be added to itself. -/
def addable : List Operation :=
  [.add "a", .add "b", .addRule (.pos 0) .add (.pos 0) (.pos 0)]

/-- A rule for the operands and every operator does not give way to a later one for the operator. -/
theorem operatorType_later_addable :
    (empty.performAll (addable ++ [.addAnyRule (.pos 0) (.pos 0) (.pos 1)])).operatorType .add (.pos 0) (.pos 0) =
        .ok (.pos 1) ∧
      ((empty.performAll (addable ++ [.addAnyRule (.pos 0) (.pos 0) (.pos 1)])).performAll
        [.addRules (.pos 0) [.add, .sub] (.pos 0) (.pos 0), .add "c", .addAnyRule (.pos 0) (.pos 2) (.pos 2)]).operatorType
          .add (.pos 0) (.pos 0) = .ok (.pos 1) := by
  have hbefore : (empty.performAll (addable ++ [.addAnyRule (.pos 0) (.pos 0) (.pos 1)])).operatorType .add (.pos 0)
      (.pos 0) = .ok (.pos 1) := by rfl
  refine ⟨hbefore, (operatorType_later hbefore _).2.mpr ?_⟩
  intro other hother
  cases hother

/-- The type of an operation may change. -/
theorem operatorType_replaced :
    (empty.performAll addable).operatorType .add (.pos 0) (.pos 0) = .ok (.pos 0) ∧
      ((empty.performAll addable).performAll [.addRule (.pos 0) .add (.pos 0) (.pos 1)]).operatorType .add (.pos 0)
        (.pos 0) ≠ .ok (.pos 0) := by
  decide

end TypeTable

end ShaderLift
