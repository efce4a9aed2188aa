import ShaderLift.Proofs.Declarations

/-!
# Variables and the bodies that declare them

In the lifted lines the declaration of a variable stands in the innermost conditional body around its first store, and
the variable is gone where that body ends.  Lifting forgets no variable, so that lines after the body can still use it.

* `Nesting.Scoped`: nested lines use variables only in the bodies that declare them.
* `InScope`: the same, said of the instructions.
* `Nesting.Lifts.scoped_iff`: the lines of a lifted tree are scoped if and only if its instructions are.
* `lift_scoped_iff`: the same for whole functions.
* `lift_assigned_outside`: a function whose lines use a variable outside of the body that declares it.
-/

namespace ShaderLift

/-- Nested lines use only variables that are known: those from outside, and those that a line before declares in the
same body or in one around it. -/
def Nesting.Scoped : (String → Prop) → Nesting Statement Expr → Prop
  | _, nil => True
  | known, leaf statement rest =>
      (∀ name ∈ statement.uses, known name) ∧
        rest.Scoped fun name => known name ∨ statement.declared? = some name
  | known, ifThen condition body rest =>
      (∀ name ∈ condition.names, known name) ∧ body.Scoped known ∧ rest.Scoped known
  | known, ifElse condition body other rest =>
      (∀ name ∈ condition.names, known name) ∧ body.Scoped known ∧ other.Scoped known ∧ rest.Scoped known

/-! ## What the instructions say about the scopes -/

/-- Where an instruction jumps to. -/
def Instruction.target? : Instruction → Option Nat
  | jumpIfFalse target | jump target => some target
  | _ => none

/-- Whether the variables that are declared in a conditional body are only mentioned there.  A body reaches from a jump
to its target. -/
def staysInside (seeded : Scope) (body : List Instruction) : Bool :=
  (List.range body.length).all fun index =>
    match body[index]? with
    | some (.storeLocal name) =>
        isVariable seeded body index name ||
          (List.range index).all fun jump =>
            match body[jump]?.bind Instruction.target? with
            | some target => decide (target ≤ index) || (body.drop target).all fun i => !i.mentions name
            | none => true
    | _ => true

section Bodies

variable {seeded : Scope} {body : List Instruction}

/-- The instruction at the index mentions the name. -/
def MentionedAt (body : List Instruction) (index : Nat) (name : String) : Prop :=
  ∃ i, body[index]? = some i ∧ i.mentions name = true

/-- The instruction at the index jumps to the target. -/
def TargetAt (body : List Instruction) (index target : Nat) : Prop :=
  ∃ i, body[index]? = some i ∧ i.target? = some target

/-- The instruction at the index is the first store to a variable that is not there from the start. -/
def DeclaresAt (seeded : Scope) (body : List Instruction) (index : Nat) (name : String) : Prop :=
  body[index]? = some (.storeLocal name) ∧ isVariable seeded body index name = false

theorem isVariable_mono {start stop : Nat} {name : String} (hle : start ≤ stop)
    (h : isVariable seeded body start name = true) : isVariable seeded body stop name = true := by
  induction hle with
  | refl => exact h
  | @step stop hle ih =>
      cases hcode : body[stop]? with
      | some i => rw [isVariable_succ seeded hcode, ih, Bool.true_or]
      | none => rw [isVariable, List.take_add_one, hcode, Option.toList_none, List.append_nil]; exact ih

/-- A name that becomes a variable is declared by some instruction. -/
theorem exists_declaresAt {start stop : Nat} {name : String} (hle : start ≤ stop)
    (hbefore : isVariable seeded body start name = false) (hafter : isVariable seeded body stop name = true) :
    ∃ index, start ≤ index ∧ index < stop ∧ DeclaresAt seeded body index name := by
  induction hle with
  | refl => exact absurd (hbefore.symm.trans hafter) Bool.false_ne_true
  | @step stop hle ih =>
      cases hknown : isVariable seeded body stop name with
      | true =>
          obtain ⟨index, hstart, hstop, hdeclares⟩ := ih hknown
          exact ⟨index, hstart, by omega, hdeclares⟩
      | false =>
          cases hcode : body[stop]? with
          | some i =>
              rw [isVariable_succ seeded hcode, hknown, Bool.false_or, beq_iff_eq] at hafter
              subst hafter
              exact ⟨stop, hle, by omega, hcode, hknown⟩
          | none =>
              rw [isVariable, List.take_add_one, hcode, Option.toList_none, List.append_nil] at hafter
              exact absurd (hknown.symm.trans hafter) Bool.false_ne_true

theorem DeclaresAt.isVariable_of_lt {index stop : Nat} {name : String} (h : DeclaresAt seeded body index name)
    (hlt : index < stop) : isVariable seeded body stop name = true := by
  refine isVariable_mono hlt ?_
  rw [isVariable_succ seeded h.1, beq_self_eq_true, Bool.or_true]

/-- From `start` to `stop`, only known variables are mentioned and those that are declared in a body around them. -/
structure InScope (seeded : Scope) (body : List Instruction) (known : String → Prop) (start stop : Nat) : Prop where
  known : ∀ index name, start ≤ index → index < stop → MentionedAt body index name →
    isVariable seeded body start name = true → known name
  inside : ∀ declared name, start ≤ declared → declared < stop → DeclaresAt seeded body declared name →
    ∀ jump target, start ≤ jump → jump < declared → TargetAt body jump target → declared < target →
      ∀ index, target ≤ index → index < stop → ¬ MentionedAt body index name

namespace InScope

variable {known : String → Prop} {start stop : Nat}

theorem empty (seeded : Scope) (body : List Instruction) (known : String → Prop) (index : Nat) :
    InScope seeded body known index index := by
  constructor
  · intro index name hle hlt
    omega
  · intro declared name hle hlt
    omega

/-- The first of several instructions, which does not start a body. -/
theorem cons_iff {known' : String → Prop} (hlt : start < stop)
    (htarget : ∀ target, TargetAt body start target → target = start + 1)
    (hknown : ∀ name, known' name ↔ known name ∨ DeclaresAt seeded body start name) :
    InScope seeded body known start stop ↔
      (∀ name, MentionedAt body start name → isVariable seeded body start name = true → known name) ∧
        InScope seeded body known' (start + 1) stop := by
  constructor
  · intro h
    refine ⟨fun name => h.known start name (Nat.le_refl _) hlt, ?_, ?_⟩
    · intro index name hstart hstop hmentioned hvariable
      rw [hknown]
      cases hbefore : isVariable seeded body start name with
      | true => exact .inl (h.known index name (by omega) hstop hmentioned hbefore)
      | false =>
          obtain ⟨declared, hle, hlt, hdeclares⟩ := exists_declaresAt (Nat.le_succ start) hbefore hvariable
          have heq : declared = start := by omega
          exact .inr (heq ▸ hdeclares)
    · intro declared name hstart hstop hdeclares jump target hjump
      exact h.inside declared name (by omega) hstop hdeclares jump target (by omega)
  · rintro ⟨hfirst, hrest⟩
    constructor
    · intro index name hstart hstop hmentioned hvariable
      by_cases heq : index = start
      · exact hfirst name (heq ▸ hmentioned) hvariable
      · have hlater := hrest.known index name (by omega) hstop hmentioned (isVariable_mono (by omega) hvariable)
        rcases (hknown name).mp hlater with hknown | hdeclares
        · exact hknown
        · exact absurd (hdeclares.2.symm.trans hvariable) Bool.false_ne_true
    · intro declared name hstart hstop hdeclares jump target hjump hlt htargetAt hinside
      by_cases heq : jump = start
      · have hnext := htarget target (heq ▸ htargetAt)
        omega
      · exact hrest.inside declared name (by omega) hstop hdeclares jump target (by omega) hlt htargetAt hinside

/-- Instructions that start with a conditional body.  The body ends at `middle`, where its last instruction may be a
jump. -/
theorem body_iff {middle target : Nat} (hmiddle : start < middle) (hstop : middle ≤ stop)
    (hfirst : TargetAt body start target) (hreach : middle ≤ target)
    (hquiet : ∀ index name, middle ≤ index → index < target → ¬ MentionedAt body index name)
    (htargets : ∀ index target, start < index → index < middle → TargetAt body index target → target ≤ middle)
    (hknown : ∀ name, known name → isVariable seeded body start name = true) :
    InScope seeded body known start stop ↔
      InScope seeded body known (start + 1) middle ∧ InScope seeded body known middle stop := by
  -- The instruction that starts the body is no store and mentions no variable.
  obtain ⟨i, hcode, hi⟩ := hfirst
  have hmentions (name : String) : ¬ MentionedAt body start name := by
    rintro ⟨i', hcode', hi'⟩
    cases hcode.symm.trans hcode'
    cases i <;> simp_all [Instruction.mentions, Instruction.target?]
  have hstore {index : Nat} {name : String} (h : DeclaresAt seeded body index name) : MentionedAt body index name :=
    ⟨_, h.1, beq_self_eq_true name⟩
  have hsame (name : String) (h : isVariable seeded body (start + 1) name = true) :
      isVariable seeded body start name = true := by
    cases hbefore : isVariable seeded body start name with
    | true => rfl
    | false =>
        obtain ⟨declared, hle, hlt, hdeclares⟩ := exists_declaresAt (Nat.le_succ start) hbefore h
        have heq : declared = start := by omega
        exact absurd (hstore (heq ▸ hdeclares)) (hmentions name)
  constructor
  · intro h
    refine ⟨⟨?_, ?_⟩, ?_, ?_⟩
    · intro index name hle hlt hmentioned hvariable
      exact h.known index name (by omega) (by omega) hmentioned (hsame name hvariable)
    · intro declared name hle hlt hdeclares jump target hjump hbefore htarget hinside index htargetLe hindex
      exact h.inside declared name (by omega) (by omega) hdeclares jump target (by omega) hbefore htarget hinside
        index htargetLe (by omega)
    · intro index name hle hlt hmentioned hvariable
      cases hbefore : isVariable seeded body start name with
      | true => exact h.known index name (by omega) hlt hmentioned hbefore
      | false =>
          -- A variable that the body declares is not mentioned after it.
          obtain ⟨declared, hstart, hdeclared, hdeclares⟩ := exists_declaresAt (by omega) hbefore hvariable
          have hne : declared ≠ start := fun heq => hmentions name (hstore (heq ▸ hdeclares))
          by_cases hlast : index < target
          · exact absurd hmentioned (hquiet index name hle hlast)
          · exact absurd hmentioned (h.inside declared name hstart (by omega) hdeclares start target (Nat.le_refl _)
              (by omega) ⟨i, hcode, hi⟩ (by omega) index (by omega) hlt)
    · intro declared name hle hlt hdeclares jump target hjump
      exact h.inside declared name (by omega) hlt hdeclares jump target (by omega)
  · rintro ⟨hbody, hrest⟩
    constructor
    · intro index name hle hlt hmentioned hvariable
      have hne : index ≠ start := fun heq => hmentions name (heq ▸ hmentioned)
      by_cases hlate : middle ≤ index
      · exact hrest.known index name hlate hlt hmentioned (isVariable_mono (by omega) hvariable)
      · exact hbody.known index name (by omega) (by omega) hmentioned (isVariable_mono (by omega) hvariable)
    · intro declared name hle hlt hdeclares jump target' hjump hbefore htarget hinside index htargetLe hindex hmentioned
      have hne : declared ≠ start := fun heq => hmentions name (hstore (heq ▸ hdeclares))
      have hjumpTarget (heq : jump = start) : target' = target := by
        obtain ⟨i', hcode', hi'⟩ := htarget
        rw [heq, hcode] at hcode'
        cases hcode'
        exact Option.some.inj (hi'.symm.trans hi)
      by_cases hlate : middle ≤ declared
      · by_cases hjumpLate : middle ≤ jump
        · exact hrest.inside declared name hlate hlt hdeclares jump target' hjumpLate hbefore htarget hinside index
            htargetLe hindex hmentioned
        · by_cases heq : jump = start
          · have htargets := hjumpTarget heq
            exact hquiet declared name hlate (by omega) (hstore hdeclares)
          · have hle := htargets jump target' (by omega) (by omega) htarget
            omega
      · by_cases hindexLate : middle ≤ index
        · -- What the body declares is not known after it.
          have hvariable := hdeclares.isVariable_of_lt (show declared < middle by omega)
          have hbefore := hknown name (hrest.known index name hindexLate hindex hmentioned hvariable)
          have hstill := isVariable_mono (show start ≤ declared by omega) hbefore
          exact Bool.false_ne_true (hdeclares.2.symm.trans hstill)
        · by_cases heq : jump = start
          · have htargets := hjumpTarget heq
            omega
          · exact hbody.inside declared name (by omega) (by omega) hdeclares jump target' (by omega) hbefore htarget
              hinside index htargetLe (by omega) hmentioned

/-- Whole bodies, where the variables from the start are known. -/
theorem whole_iff : InScope seeded body (fun name => (seeded name).isSome = true) 0 body.length ↔
    staysInside seeded body = true := by
  rw [staysInside, List.all_eq_true]
  constructor
  · intro h index hindex
    split
    · rename_i name hcode
      rw [Bool.or_eq_true, or_iff_not_imp_left, Bool.not_eq_true, List.all_eq_true]
      intro hfirst jump hjump
      split
      · rename_i target htarget
        obtain ⟨i, hi, hgoes⟩ := Option.bind_eq_some_iff.mp htarget
        rw [Bool.or_eq_true, decide_eq_true_iff, or_iff_not_imp_left, List.all_eq_true]
        intro hinside i' hmem
        obtain ⟨offset, hoffset⟩ := List.mem_iff_getElem?.mp hmem
        rw [List.getElem?_drop] at hoffset
        have hlt := (List.getElem?_eq_some_iff.mp hoffset).1
        have hquiet := h.inside index name (Nat.zero_le _) (List.mem_range.mp hindex) ⟨hcode, hfirst⟩ jump target
          (Nat.zero_le _) (List.mem_range.mp hjump) ⟨i, hi, hgoes⟩ (by omega) (target + offset) (by omega) hlt
        rw [Bool.not_eq_true', ← Bool.not_eq_true]
        exact fun hmentions => hquiet ⟨i', hoffset, hmentions⟩
      · rfl
    · rfl
  · intro h
    constructor
    · intro index name hle hlt hmentioned hvariable
      simpa [isVariable] using hvariable
    · rintro declared name - hlt ⟨hcode, hfirst⟩ jump target - hjump ⟨i, hi, hgoes⟩ hinside index hle hindex
        ⟨i', hi', hmentions⟩
      have hchecked := h declared (List.mem_range.mpr hlt)
      simp only [hcode, hfirst, Bool.false_or, List.all_eq_true] at hchecked
      have hbody := hchecked jump (List.mem_range.mpr hjump)
      simp only [hi, Option.bind_some, hgoes, Bool.or_eq_true, decide_eq_true_iff, List.all_eq_true] at hbody
      have hquiet := hbody.resolve_left (by omega) i' (List.mem_iff_getElem?.mpr ⟨index - target, by
        rw [List.getElem?_drop, Nat.add_sub_cancel' hle]
        exact hi'⟩)
      rw [hmentions] at hquiet
      cases hquiet

end InScope

end Bodies

/-! ## Lifted trees -/

/-- A plain instruction that jumps leads to the next one. -/
theorem TargetAt.eq_of_plain {body : List Instruction} {a : Plain} {index target : Nat}
    (h : TargetAt body index target) (hcode : body[index]? = some (a.at index)) : target = index + 1 := by
  obtain ⟨i, hi, htarget⟩ := h
  have hat : a.at index = i := Option.some.inj (hcode.symm.trans hi)
  cases i <;> cases htarget
  · exact absurd hat (a.at_ne_jumpIfFalse _ _)
  · exact Plain.eq_of_at_eq_jump hat

/-- The jumps of a tree stay in it. -/
theorem CodeAt.target_le {body : List Instruction} {t : JumpTree} {index jump target : Nat}
    (hcode : CodeAt body index (t.flatten index)) (hle : index ≤ jump) (hlt : jump < index + t.size)
    (htarget : TargetAt body jump target) : target ≤ index + t.size := by
  have hat {i : Instruction} (hi : body[jump]? = some i) : i.target? = some target := by
    obtain ⟨i', hi', htarget⟩ := htarget
    cases hi.symm.trans hi'
    exact htarget
  -- A jump is the head of the tree, the one between the two bodies, or a jump of a part that ends no later.
  induction t generalizing index with
  | nil =>
      rw [Nesting.size] at hlt
      omega
  | leaf a rest ih =>
      obtain ⟨hhead, htail⟩ := hcode.leaf
      rw [Nesting.add_size_leaf] at hlt ⊢
      by_cases hfirst : jump = index
      · subst hfirst
        have hnext := htarget.eq_of_plain hhead
        omega
      · exact ih htail (by omega) hlt
  | ifThen c inner rest ihInner ihRest =>
      obtain ⟨hhead, hinner, hrest⟩ := hcode.ifThen rfl
      rw [Nesting.add_size_ifThen rfl rest] at hlt ⊢
      by_cases hfirst : jump = index
      · subst hfirst
        cases hat hhead
        omega
      · by_cases hbefore : jump < index + 1 + Nesting.size inner
        · have hinside := ihInner hinner (by omega) hbefore
          omega
        · exact ihRest hrest (by omega) hlt
  | ifElse c inner other rest ihInner ihOther ihRest =>
      obtain ⟨hhead, hinner, hjump, hother, hrest⟩ := hcode.ifElse rfl rfl
      rw [Nesting.add_size_ifElse rfl rfl rest] at hlt ⊢
      by_cases hfirst : jump = index
      · subst hfirst
        cases hat hhead
        omega
      · by_cases hbefore : jump < index + 1 + Nesting.size inner
        · have hinside := ihInner hinner (by omega) hbefore
          omega
        · by_cases hmiddle : jump = index + 1 + Nesting.size inner
          · subst hmiddle
            cases hat hjump
            omega
          · by_cases hafter : jump < index + 1 + Nesting.size inner + 1 + Nesting.size other
            · have hinside := ihOther hother (by omega) hafter
              omega
            · exact ihRest hrest (by omega) hlt

theorem Nesting.scoped_leaves (known : String → Prop) (index : Nat) (statement : Option Statement)
    (rest : PlacedNesting) :
    (leaves (statement.toList.map (Prod.mk index)) rest).statements.Scoped known ↔
      (∀ name ∈ (statement.map Statement.uses).getD [], known name) ∧
        rest.statements.Scoped fun name => known name ∨ statement.bind Statement.declared? = some name := by
  cases statement with
  | none => simp [leaves]
  | some statement => exact Iff.rfl

/-- The variable that a plain instruction declares is the one of its line. -/
theorem State.PlainStep.declaresAt_iff {c : Context} {s next : State} {i : Instruction} {index : Nat}
    {statement : Option Statement} (h : s.PlainStep c i next statement) {seeded : Scope} {body : List Instruction}
    (hcode : body[index]? = some i) (htracks : s.Tracks seeded body index) (name : String) :
    statement.bind Statement.declared? = some name ↔ DeclaresAt seeded body index name := by
  rw [DeclaresAt, hcode, ← htracks.scope, Option.some_inj, Option.isSome_eq_false_iff, Option.isNone_iff_eq_none]
  constructor
  · intro hname
    refine ⟨?_, (h.scope_iff name).2 hname⟩
    cases h <;> cases hname
    rfl
  · rintro ⟨rfl, hnone⟩
    cases h with
    | assign hstack hscope => exact absurd (hnone.symm.trans hscope) (Option.some_ne_none _).symm
    | declare hstack hscope => rfl
    | «variable» hscope hi => simp at hi
    | callable hresolve hi => simp at hi

/-- The variables of the line and of the values on the stack after an instruction are known if and only if those of the
values before and the one that is mentioned are. -/
theorem State.PlainStep.known_iff {c : Context} {s next : State} {i : Instruction} {statement : Option Statement}
    (h : s.PlainStep c i next statement) (hs : s.StackInScope) (known : String → Prop) :
    ((∀ name ∈ (statement.map Statement.uses).getD [], known name) ∧
        ∀ name ∈ stackNames next.stack, known name ∨ statement.bind Statement.declared? = some name) ↔
      (∀ name ∈ stackNames s.stack, known name) ∧
        ∀ name, i.mentions name = true → (s.scope name).isSome → known name := by
  constructor
  · rintro ⟨huses, hpending⟩
    have hall (name : String) (hscope : (s.scope name).isSome)
        (hname : name ∈ (statement.map Statement.uses).getD [] ∨ name ∈ stackNames next.stack) : known name := by
      rcases hname with hname | hname
      · exact huses name hname
      · -- What was in scope before is not what the line declares.
        refine (hpending name hname).resolve_right fun hdeclared => ?_
        rw [(h.scope_iff name).2 hdeclared] at hscope
        cases hscope
    constructor
    · intro name hname
      exact hall name (hs name hname) ((h.names_iff name).mp (.inl hname))
    · intro name hmentions hscope
      exact hall name hscope ((h.names_iff name).mp (.inr ⟨hmentions, hscope⟩))
  · rintro ⟨hpending, hmentions⟩
    have hall (name : String)
        (hname : name ∈ (statement.map Statement.uses).getD [] ∨ name ∈ stackNames next.stack) : known name := by
      rcases (h.names_iff name).mpr hname with hname | ⟨hmentions', hscope⟩
      · exact hpending name hname
      · exact hmentions name hmentions' hscope
    exact ⟨fun name hname => hall name (.inl hname), fun name hname => .inl (hall name (.inr hname))⟩

/-- Lines are scoped if and only if the instructions are, where the values that are on the stack at the start are made
from known variables. -/
theorem Nesting.Lifts.scoped_iff {c : Context} {index : Nat} {s last : State} {t : JumpTree} {events : List Event}
    {lines : PlacedNesting} (h : t.Lifts c index s events lines last) (hlast : last.stack = [])
    {seeded : Scope} {body : List Instruction} (hcode : CodeAt body index (t.flatten index))
    (htracks : s.Tracks seeded body index) (hs : s.StackInScope) {known : String → Prop}
    (hknown : ∀ name, known name → isVariable seeded body index name = true) :
    lines.statements.Scoped known ↔
      (∀ name ∈ stackNames s.stack, known name) ∧ InScope seeded body known index (index + t.size) := by
  have hnone {s : State} {known : String → Prop} (hstack : s.stack = []) : ∀ name ∈ stackNames s.stack, known name := by
    intro name hname
    rw [hstack] at hname
    cases hname
  have hcondition {type : TypeId} {known : String → Prop} (condition : Expr) :
      (∀ name ∈ condition.names, known name) ↔
        ∀ name ∈ stackNames [.operand ⟨type, condition⟩], known name := by
    simp [Value.names]
  induction h generalizing known with
  | nil => exact iff_of_true trivial ⟨hnone hlast, .empty ..⟩
  | @leaf index s next last a rest now later statement lines hplain hnow hrest ih =>
      obtain ⟨hhead, htail⟩ := hcode.leaf
      have hnext := hplain.tracks hhead htracks
      have hknown' (name : String) (hname : known name ∨ statement.bind Statement.declared? = some name) :
          isVariable seeded body (index + 1) name = true := by
        rw [← hnext.scope, (hplain.scope_iff name).1, htracks.scope]
        exact hname.imp_left (hknown name)
      have hmentioned (name : String) :
          MentionedAt body index name → isVariable seeded body index name = true → known name ↔
            (a.at index).mentions name = true → (s.scope name).isSome → known name := by
        rw [htracks.scope]
        simp [MentionedAt, hhead]
      have hrestIff : _ ↔ _ := ih hlast htail hnext (hplain.stackInScope hs) hknown'
      have hfirstIff := InScope.cons_iff (show index < index + 1 + rest.size by omega)
        (fun target htarget => htarget.eq_of_plain hhead)
        (fun name => or_congr_right (a := known name) (hplain.declaresAt_iff hhead htracks name))
      rw [scoped_leaves, hrestIff, add_size_leaf, hfirstIff, ← and_assoc, ← and_assoc, hplain.known_iff hs]
      simp only [hmentioned]
  | @ifThen index stop s inside last inner rest condition within later inside' lines hstop hstack hbody
      hinside hrest ihBody ihRest =>
      obtain ⟨hhead, hinner, hafter⟩ := hcode.ifThen hstop
      have henter := htracks.enter hhead hstack (.ifBody stop :: s.blocks)
      have hend := hbody.tracks hinner henter
      rw [← hstop] at hend
      have hlater {later : Nat} (hle : index ≤ later) (name : String) (hname : known name) :
          isVariable seeded body later name = true := isVariable_mono hle (hknown name hname)
      have hbodyIff : _ ↔ _ := ihBody hinside hinner henter (hnone rfl) (hlater (by omega))
      have hrestIff : _ ↔ _ := ihRest hlast hafter (hend.leave _) (hnone hinside) (hlater (by omega))
      have hsplit : InScope seeded body known index (stop + rest.size) ↔ _ :=
        InScope.body_iff (by omega) (by omega) ⟨_, hhead, rfl⟩ (Nat.le_refl stop) (by omega)
          (fun jump target hle hlt htarget => hstop ▸ hinner.target_le hle (hstop ▸ hlt) htarget) hknown
      rw [← hstop] at hbodyIff
      rw [add_size_ifThen hstop rest, hsplit, hstack]
      rw [and_iff_right (hnone rfl)] at hbodyIff
      rw [and_iff_right (hnone hinside)] at hrestIff
      exact and_congr (hcondition condition) (and_congr hbodyIff hrestIff)
  | @ifElse index middle stop s inside switched last inner other rest condition within without later
      inside' alternative lines hmiddle hstop hstack hbody hinside hother hswitched hrest ihBody ihOther
      ihRest =>
      obtain ⟨hhead, hinner, hjump, halternative, hafter⟩ := hcode.ifElse hmiddle hstop
      have henter := htracks.enter hhead hstack (.ifBody (middle + 1) :: s.blocks)
      have hend := hbody.tracks hinner henter
      rw [← hmiddle] at hend
      have hswitch := hend.switch hjump (.elseBody stop :: inside.blocks.tail)
      have hend' := hother.tracks halternative hswitch
      rw [← hstop] at hend'
      have hlater {later : Nat} (hle : index ≤ later) (name : String) (hname : known name) :
          isVariable seeded body later name = true := isVariable_mono hle (hknown name hname)
      have hbodyIff : _ ↔ _ := ihBody hinside hinner henter (hnone rfl) (hlater (by omega))
      have hotherIff : _ ↔ _ := ihOther hswitched halternative hswitch (hnone hinside) (hlater (by omega))
      have hrestIff : _ ↔ _ := ihRest hlast hafter (hend'.leave _) (hnone hswitched) (hlater (by omega))
      rw [← hmiddle] at hbodyIff
      rw [← hstop] at hotherIff
      -- The jump at the end of the first body is split off with the second one.
      have hquiet (index : Nat) (name : String) (hle : middle ≤ index) (hlt : index < middle + 1) :
          ¬ MentionedAt body index name := by
        rintro ⟨i, hi, hmentions⟩
        have heq : index = middle := by omega
        rw [heq, hjump] at hi
        cases hi
        cases hmentions
      have hsplit : InScope seeded body known index (stop + rest.size) ↔ _ :=
        InScope.body_iff (by omega) (by omega) ⟨_, hhead, rfl⟩ (Nat.le_succ middle) hquiet
          (fun jump target hle hlt htarget => hmiddle ▸ hinner.target_le hle (hmiddle ▸ hlt) htarget) hknown
      have hsplit' : InScope seeded body known middle (stop + rest.size) ↔ _ :=
        InScope.body_iff (by omega) (by omega) ⟨_, hjump, rfl⟩ (Nat.le_refl stop) (by omega)
          (fun jump target hle hlt htarget => hstop ▸ halternative.target_le hle (hstop ▸ hlt) htarget)
          (hlater (by omega))
      rw [add_size_ifElse hmiddle hstop rest, hsplit, hsplit', hstack]
      rw [and_iff_right (hnone rfl)] at hbodyIff
      rw [and_iff_right (hnone hinside)] at hotherIff
      rw [and_iff_right (hnone hswitched)] at hrestIff
      exact and_congr (hcondition condition) (and_congr hbodyIff (and_congr hotherIff hrestIff))

/-! ## Whole functions -/

/-- In a lifted function, a line that uses a variable comes after the only declaration of the variable, unless it is
there from the start.  All lines stand in the bodies of the declarations if and only if the instructions mention no
variable after the end of a body in which they first store it. -/
theorem lift_scoped_iff {d : Dialect} {function : StackFunction} {args : List TypeId} {bound : List Shader}
    {interface : Interface} {shader : Shader} {seeded : Scope}
    (h : (lift d function args bound interface).outcome = .ok shader)
    (hseeded : seeded = initialScope interface (args.zip function.params)) :
    ∃ nested : Nesting Statement Expr,
      Nesting.read? (shader.body.map fun line => line.statement.mark) = some nested ∧
      (declaredNames shader.body).Nodup ∧ (∀ name ∈ declaredNames shader.body, seeded name = none) ∧
      (∀ before line after, shader.body = before ++ line :: after → ∀ name ∈ line.statement.uses,
        (seeded name).isSome ∨ name ∈ declaredNames before) ∧
      (nested.Scoped (fun name => (seeded name).isSome = true) ↔ staysInside seeded function.body = true) := by
  subst hseeded
  have hlift := congrArg (Run.mk (lift d function args bound interface).events) h
  obtain ⟨last, hlines⟩ := introduces_of_lift hlift
  obtain ⟨t, within, lines, last, -, hflatten, hlifts, hlast, hbody, -⟩ := exists_lifts_of_lift hlift
  refine ⟨lines.statements, ?_, hlines.nodup, hlines.fresh, hlines.uses, ?_⟩
  · rw [hbody]
    exact hlifts.read?_lines
  · obtain ⟨hcode, -⟩ := CodeAt.of_flatten hflatten
    have hsize : 0 + t.size = function.body.length := by
      rw [← hflatten, Nesting.length_flatten, Nat.zero_add]
    have htracks := State.Tracks.start (initialScope interface (args.zip function.params)) function.body
    have hempty {P : String → Prop} : ∀ name ∈ stackNames [], P name := fun name hname => by cases hname
    rw [hlifts.scoped_iff hlast hcode htracks hempty (fun name hname => (htracks.scope name).symm.trans hname), hsize,
      and_iff_right hempty, InScope.whole_iff]

/-- A function with one variable from before a conditional and one that is declared and used in it. -/
def declaredInside : StackFunction where
  name := "f"
  params := ["x"]
  body :=
    [.loadLocal "x", .storeLocal "y", .loadLocal "x", .loadLocal "y", .binary .lt, .jumpIfFalse 10,
      .pushConst (.number (.int 1)), .storeLocal "z", .loadLocal "z", .storeLocal "y", .loadLocal "y", .ret]

set_option maxRecDepth 4000 in
theorem lift_scoped_declaredInside :
    (lift .standard declaredInside [.pos 2] [] {}).outcome.toOption.isSome ∧
      staysInside (initialScope {} (List.zip [.pos 2] declaredInside.params)) declaredInside.body = true ∧
      Nesting.Scoped (fun name => (initialScope {} (List.zip [.pos 2] declaredInside.params) name).isSome = true)
        (.leaf (.declare (.pos 2) "y" (.var "x"))
          (.ifThen (.binary .lt (.var "x") (.var "y"))
            (.leaf (.declare (.pos 2) "z" (.number (.int 1))) (.leaf (.assign "y" (.var "z")) .nil))
            (.leaf (.ret (some (.var "y"))) .nil))) := by
  have hlifted : ((lift .standard declaredInside [.pos 2] [] {}).outcome.toOption.bind fun shader =>
      Nesting.read? (shader.body.map fun line => line.statement.mark)) =
        some (.leaf (.declare (.pos 2) "y" (.var "x"))
          (.ifThen (.binary .lt (.var "x") (.var "y"))
            (.leaf (.declare (.pos 2) "z" (.number (.int 1))) (.leaf (.assign "y" (.var "z")) .nil))
            (.leaf (.ret (some (.var "y"))) .nil))) := by rfl
  have hinside : staysInside (initialScope {} (List.zip [.pos 2] declaredInside.params))
      declaredInside.body = true := by decide +kernel
  obtain ⟨shader, hshader, hlines⟩ := Run.exists_ok_of_bind hlifted
  obtain ⟨nested, hread, -, -, -, hscoped⟩ := lift_scoped_iff hshader rfl
  cases hread.symm.trans hlines
  exact ⟨by rw [hshader]; rfl, hinside, hscoped.mpr hinside⟩

/-- A function that gives a variable its value on either side of a conditional. -/
def assignedOutside : StackFunction where
  name := "f"
  params := ["x"]
  body :=
    [.loadLocal "x", .loadLocal "x", .binary .lt, .jumpIfFalse 7, .pushConst (.number (.int 1)),
      .storeLocal "y", .jump 9, .pushConst (.number (.int 2)), .storeLocal "y"]

set_option maxRecDepth 4000 in
/-- The second body assigns the variable that the first one declares. -/
theorem lift_assigned_outside :
    ∃ shader nested, (lift .standard assignedOutside [.pos 2] [] {}).outcome = .ok shader ∧
      Nesting.read? (shader.body.map fun line => line.statement.mark) = some nested ∧
      ¬ nested.Scoped fun name =>
        (initialScope {} (List.zip [.pos 2] assignedOutside.params) name).isSome = true := by
  have hlifted : ((lift .standard assignedOutside [.pos 2] [] {}).outcome.toOption.bind fun shader =>
      Nesting.read? (shader.body.map fun line => line.statement.mark)) =
        some (.ifElse (.binary .lt (.var "x") (.var "x"))
          (.leaf (.declare (.pos 2) "y" (.number (.int 1))) .nil)
          (.leaf (.assign "y" (.number (.int 2))) .nil) .nil) := by rfl
  obtain ⟨shader, hshader, hlines⟩ := Run.exists_ok_of_bind hlifted
  refine ⟨shader, _, hshader, hlines, ?_⟩
  rintro ⟨-, -, ⟨huses, -⟩, -⟩
  have hknown := huses "y" List.mem_cons_self
  revert hknown
  decide

end ShaderLift
