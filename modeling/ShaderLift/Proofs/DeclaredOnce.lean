import ShaderLift.Proofs.LineOrigins
import ShaderLift.Proofs.LiftingContext
import ShaderLift.Proofs.ReachedStates
import ShaderLift.Proofs.Typing

/-!
# Variables are declared once and keep their type

A variable is there from the start, as a parameter or a variable of the interface, or from its first store on.  In every
state that lifting reaches, also on the way to a failure, it has the type that it got then.

* `seeds`: the variables that are there from the start, with their types.
* `State.Reaches.scope_within`, `State.Reaches.scope_of_declaresAt`: variables stay, with the type of their first store.
* `Writes.declaresAt`, `filter_declares`: the lines that declare a variable.
* `lift_declares_once`: the types of variables at every point, and the lines of all stores.
-/

namespace ShaderLift

/-- The variables that are there from the start: the last parameter of a name counts, and without one the last variable
of the interface. -/
def seeds (interface : Interface) (params : List (TypeId × String)) : Scope :=
  fun name => ((params.filter (·.2 == name)).getLast?.map (·.1)).or
    ((interface.vars.filter (·.name == name)).getLast?.map (·.type))

theorem initialScope_eq_seeds (interface : Interface) (params : List (TypeId × String)) :
    initialScope interface params = seeds interface params := by
  funext name
  rw [initialScope, Scope.declareAll_apply, Scope.declareAll_interface, List.filter_map, List.getLast?_map,
    Option.map_map]
  rfl

namespace State

/-! ## Variables in the states that are reached -/

variable {c : Context} {body : List Instruction} {start s : State} {index : Nat} {seeded : Scope}

/-- The scope changes at most by the variable that a store declares. -/
theorem PlainStep.scope_cases {next : State} {i : Instruction} {statement : Option Statement}
    (h : s.PlainStep c i next statement) :
    next.scope = s.scope ∨ ∃ name value rest, i = .storeLocal name ∧ s.scope name = none ∧
      s.stack = .operand value :: rest ∧ next.scope = s.scope.declare name value.type := by
  cases h with
  | @declare name value rest hstack hscope => exact .inr ⟨name, value, rest, rfl, hscope, hstack, rfl⟩
  | _ => exact .inl rfl

theorem StepCases.scope_cases {next : State} {i : Instruction} {events : List Event}
    (h : s.StepCases c index i next events) :
    next.scope = s.scope ∨ ∃ name value rest, i = .storeLocal name ∧ s.scope name = none ∧
      s.stack = .operand value :: rest ∧ next.scope = s.scope.declare name value.type := by
  cases h with
  | plain hplain hevents => exact hplain.scope_cases
  | openIf hstack => exact .inl rfl
  | openElse hforward hblocks hstack => exact .inl rfl

/-- An instruction keeps track of what was stored before it. -/
theorem StepCases.tracks {next : State} {i : Instruction} {events : List Event}
    (h : s.StepCases c index i next events) (hcode : body[index]? = some i) (htracks : s.Tracks seeded body index) :
    next.Tracks seeded body (index + 1) := by
  cases h with
  | plain hplain hevents => exact hplain.tracks hcode htracks
  | openIf hstack => exact htracks.enter hcode hstack _
  | openElse hforward hblocks hstack => exact htracks.switch hcode _

namespace Reaches

theorem tracks (h : Reaches c body start index s) (hstart : start.Tracks seeded body 0) :
    s.Tracks seeded body index := by
  induction h with
  | start => exact hstart
  | next hs hi hclose hstep ih =>
      obtain ⟨rfl, -⟩ := close_cases hclose
      exact (step_cases hstep).tracks hi (ih.leave _)

/-- A name is no variable before its first store. -/
theorem scope_eq_none {name : String} (h : Reaches c body start index s) (hstart : start.Tracks seeded body 0)
    (hnone : seeded name = none) (hstore : .storeLocal name ∉ body.take index) : s.scope name = none := by
  have hknown := (h.tracks hstart).scope name
  rw [isVariable, hnone, Option.isSome_none, Bool.false_or, List.contains_eq_mem, decide_eq_false hstore] at hknown
  exact Option.isNone_iff_eq_none.mp (Option.isSome_eq_false_iff.mp hknown)

/-- The scope only grows, and the variables in it keep their types. -/
theorem scope_within {later : Nat} {next : State} (h : Reaches c body start index s)
    (h' : Reaches c body start later next) (hle : index ≤ later) : s.scope.Within next.scope := by
  induction h' with
  | start =>
      obtain rfl : index = 0 := by omega
      rw [h.unique .start]
      exact .refl _
  | @next later middle closed next i before events hs hi hclose hstep ih =>
      rcases Nat.eq_or_lt_of_le hle with rfl | hlt
      · rw [h.unique (.next hs hi hclose hstep)]
        exact .refl _
      · obtain ⟨rfl, -⟩ := close_cases hclose
        exact (ih (by omega)).trans (step_cases hstep).grows.scope

/-- A variable that is not there from the start has the type of the value that was on top of the stack at its first
store. -/
theorem scope_of_declaresAt {first : Nat} {name : String} (h : Reaches c body start index s)
    (hstart : start.Tracks seeded body 0) (hdeclares : DeclaresAt seeded body first name) (hlt : first < index) :
    ∃ earlier value rest, Reaches c body start first earlier ∧ earlier.stack = .operand value :: rest ∧
      s.scope name = some value.type := by
  obtain ⟨after, hafter⟩ := h.exists_of_le (show first + 1 ≤ index by omega)
  have hwithin := hafter.scope_within h hlt
  cases hafter with
  | next hs hi hclose hstep =>
      obtain ⟨rfl, -⟩ := close_cases hclose
      have hknown := (hs.tracks hstart).scope name
      rw [hdeclares.2] at hknown
      have hstored : (after.scope name).isSome = true :=
        ((Reaches.next hs hi hclose hstep).tracks hstart).scope name |>.trans
          (hdeclares.isVariable_of_lt (Nat.lt_succ_self first))
      rcases (step_cases hstep).scope_cases with hsame | ⟨stored, value, rest, hstore, -, hstack, hscope⟩
      · rw [hsame, hknown] at hstored
        cases hstored
      · cases hstore
        obtain rfl : stored = name := Instruction.storeLocal.inj (Option.some.inj (hi.symm.trans hdeclares.1))
        refine ⟨_, value, rest, hs, hstack, hwithin stored value.type ?_⟩
        rw [hscope, Scope.declare_self]

end Reaches

end State

/-! ## The lines of stores -/

section Lines

variable {seeded : Scope} {body : List Instruction} {index : Nat} {i : Instruction} {lines : List Line}

/-- A line that declares a variable is that of its first store. -/
theorem Writes.declaresAt (h : Writes seeded body index i lines) {line : Line} (hmem : line ∈ lines) {name : String}
    (hname : line.statement.declared? = some name) : DeclaresAt seeded body index name := by
  cases h with
  | declare hdeclares =>
      rw [List.mem_singleton.mp hmem] at hname
      cases hname
      exact hdeclares
  | assign h | eval | ret =>
      rw [List.mem_singleton.mp hmem] at hname
      cases hname
  | ifThen h =>
      simp only [List.mem_cons, List.not_mem_nil, or_false] at hmem
      rcases hmem with rfl | rfl <;> cases hname
  | ifElse h hne =>
      simp only [List.mem_cons, List.not_mem_nil, or_false] at hmem
      rcases hmem with rfl | rfl | rfl <;> cases hname
  | quiet h => cases hmem

/-- A store has one line, which declares the variable or assigns to it. -/
theorem Writes.storeLocal_cases {name : String} (h : Writes seeded body index (.storeLocal name) lines) :
    DeclaresAt seeded body index name ∧
        (∃ type value, lines = [⟨depthAt body index, .declare type name value⟩]) ∨
      isVariable seeded body index name = true ∧ ∃ value, lines = [⟨depthAt body index, .assign name value⟩] := by
  cases h with
  | @declare _ type value hdeclares => exact .inl ⟨hdeclares, type, value, rfl⟩
  | @assign _ value hknown => exact .inr ⟨hknown, value, rfl⟩
  | quiet h => cases h

/-- A name that is stored to and not there from the start has a first store. -/
theorem exists_declaresAt_of_mem {name : String} (hnone : seeded name = none) (hstore : .storeLocal name ∈ body) :
    ∃ first, DeclaresAt seeded body first name := by
  have hbefore : isVariable seeded body 0 name = false := by
    rw [isVariable, hnone, List.take_zero]
    rfl
  have hafter : isVariable seeded body body.length name = true := by
    rw [isVariable, List.take_length, List.contains_eq_mem, decide_eq_true hstore, Bool.or_true]
  obtain ⟨first, -, -, hdeclares⟩ := exists_declaresAt (Nat.zero_le _) hbefore hafter
  exact ⟨first, hdeclares⟩

/-- There is one first store at most. -/
theorem DeclaresAt.unique {other : Nat} {name : String} (h : DeclaresAt seeded body index name)
    (h' : DeclaresAt seeded body other name) : index = other := by
  rcases Nat.lt_trichotomy index other with hlt | heq | hlt
  · cases (h.isVariable_of_lt hlt).symm.trans h'.2
  · exact heq
  · cases (h'.isVariable_of_lt hlt).symm.trans h.2

variable {events : List Event} {owned : List (Nat × Line)}

/-- Whether a line with its instruction declares the variable. -/
def declares (name : String) (owned : Nat × Line) : Bool :=
  owned.2.statement.declared? == some name

/-- The first store of a variable has the only line that declares it. -/
theorem filter_declares (h : Attributes seeded body 0 body events owned) {name : String}
    (hdeclares : DeclaresAt seeded body index name) :
    ∃ type value, linesAt owned index = [⟨depthAt body index, .declare type name value⟩] ∧
      owned.filter (declares name) = [(index, ⟨depthAt body index, .declare type name value⟩)] := by
  have hlt := (List.getElem?_eq_some_iff.mp hdeclares.1).1
  rcases (h.written index _ (Nat.zero_le index) (by omega) hdeclares.1).storeLocal_cases with
    ⟨-, type, value, hlines⟩ | ⟨hknown, -⟩
  · refine ⟨type, value, hlines, ?_⟩
    rw [← filter_eq_of_linesAt hlines]
    apply List.filter_congr
    rintro ⟨other, line⟩ hmem
    obtain ⟨i, -, hwrites, hline⟩ := h.writes_of_mem hmem
    rw [Bool.eq_iff_iff, declares, beq_iff_eq, beq_iff_eq]
    constructor
    · intro hname
      exact (hwrites.declaresAt hline hname).unique hdeclares
    · rintro rfl
      rw [hlines] at hline
      rw [List.mem_singleton.mp hline]
      rfl
  · cases hknown.symm.trans hdeclares.2

/-- A variable that is there from the start is not declared. -/
theorem filter_declares_of_seeded (h : Attributes seeded body 0 body events owned) {name : String}
    (hseeded : (seeded name).isSome = true) : owned.filter (declares name) = [] := by
  rw [List.filter_eq_nil_iff]
  rintro ⟨other, line⟩ hmem hname
  obtain ⟨i, -, hwrites, hline⟩ := h.writes_of_mem hmem
  have hnew := (hwrites.declaresAt hline (beq_iff_eq.mp hname)).2
  rw [isVariable, hseeded, Bool.true_or] at hnew
  cases hnew

end Lines

/-! ## Whole functions -/

/-- The states between instructions in which lifting a function comes to an index. -/
def LiftReaches (d : Dialect) (function : StackFunction) (args : List TypeId) (bound : List Shader)
    (interface : Interface) (index : Nat) (s : State) : Prop :=
  State.Reaches (.ofDialect d bound) function.body { scope := initialScope interface (args.zip function.params) }
    index s

/-- Variables are declared once and keep their types.  In every state that lifting reaches, a parameter or a variable of
the interface has the type it has from the start, another name is no variable before its first store, and after it
has the type of the value stored there; the scope only grows.  If the function can be lifted, each name that is stored
to and not there from the start has one line that declares it, the line of its first store; the other stores assign,
and a variable that is there from the start is never declared. -/
theorem lift_declares_once (d : Dialect) (function : StackFunction) (args : List TypeId) (bound : List Shader)
    (interface : Interface) :
    (∀ index s, LiftReaches d function args bound interface index s → ∀ name,
      (∀ type, seeds interface (args.zip function.params) name = some type → s.scope name = some type) ∧
      (seeds interface (args.zip function.params) name = none → .storeLocal name ∉ function.body.take index →
        s.scope name = none) ∧
      ∀ first < index, DeclaresAt (seeds interface (args.zip function.params)) function.body first name →
        ∃ earlier value rest, LiftReaches d function args bound interface first earlier ∧
          earlier.stack = .operand value :: rest ∧ s.scope name = some value.type) ∧
    (∀ index later s next, index ≤ later → LiftReaches d function args bound interface index s →
      LiftReaches d function args bound interface later next →
        ∀ name type, s.scope name = some type → next.scope name = some type) ∧
    ∀ shader, (lift d function args bound interface).outcome = .ok shader →
      ∃ owned, Event.ownedLines (lift d function args bound interface).events = some owned ∧
        owned.map Prod.snd = shader.body ∧
        ∀ name,
          (seeds interface (args.zip function.params) name = none → .storeLocal name ∈ function.body →
            ∃ first depth type value, DeclaresAt (seeds interface (args.zip function.params)) function.body first name ∧
              linesAt owned first = [⟨depth, .declare type name value⟩] ∧
              owned.filter (declares name) = [(first, ⟨depth, .declare type name value⟩)]) ∧
          (∀ index, function.body[index]? = some (.storeLocal name) →
            ¬ DeclaresAt (seeds interface (args.zip function.params)) function.body index name →
              ∃ depth value, linesAt owned index = [⟨depth, .assign name value⟩]) ∧
          ((seeds interface (args.zip function.params) name).isSome = true → owned.filter (declares name) = []) := by
  unfold LiftReaches
  rw [initialScope_eq_seeds]
  have hstart := State.Tracks.start (seeds interface (args.zip function.params)) function.body
  refine ⟨?_, ?_, ?_⟩
  · intro index s hs name
    refine ⟨fun type htype => ?_, fun hnone hstore => ?_, fun first hlt hdeclares => ?_⟩
    · exact State.Reaches.scope_within .start hs (Nat.zero_le index) name type htype
    · exact hs.scope_eq_none hstart hnone hstore
    · exact hs.scope_of_declaresAt hstart hdeclares hlt
  · intro index later s next hle hs hnext
    exact hs.scope_within hnext hle
  · intro shader h
    have hlift : lift d function args bound interface =
        ⟨(lift d function args bound interface).events, .ok shader⟩ := by rw [← h]
    obtain ⟨owned, howned, hbody, hattributes⟩ := attributes_of_lift hlift
    rw [initialScope_eq_seeds] at hattributes
    refine ⟨owned, howned, hbody, fun name => ⟨?_, ?_, filter_declares_of_seeded hattributes⟩⟩
    · intro hnone hstore
      obtain ⟨first, hdeclares⟩ := exists_declaresAt_of_mem hnone hstore
      obtain ⟨type, value, hlines, hfilter⟩ := filter_declares hattributes hdeclares
      exact ⟨first, _, type, value, hdeclares, hlines, hfilter⟩
    · intro index hcode hnot
      have hlt := (List.getElem?_eq_some_iff.mp hcode).1
      rcases (hattributes.written index _ (Nat.zero_le index) (by omega) hcode).storeLocal_cases with
        ⟨hdeclares, -⟩ | ⟨-, value, hlines⟩
      · exact absurd hdeclares hnot
      · exact ⟨_, value, hlines⟩

/-- A function that stores values of two types to one variable and one of them to its parameter. -/
def restored : StackFunction where
  name := "restored"
  params := ["x"]
  body :=
    [.pushConst (.number (.int 1)), .storeLocal "y", .loadLocal "x", .storeLocal "y", .loadLocal "y",
      .storeLocal "x"]

theorem lift_declares_once_restored :
    (lift .standard restored [.pos 3] [] {}).outcome.toOption.isSome ∧
      ∃ owned, Event.ownedLines (lift .standard restored [.pos 3] [] {}).events = some owned ∧
        (∃ line, owned.filter (declares "y") = [(1, line)]) ∧
        (∃ depth value, linesAt owned 3 = [⟨depth, .assign "y" value⟩]) ∧ owned.filter (declares "x") = [] := by
  have hok : (lift .standard restored [.pos 3] [] {}).outcome.toOption.isSome := by decide +kernel
  obtain ⟨shader, hshader⟩ := Run.exists_ok_of_isSome hok
  obtain ⟨-, -, hlines⟩ := lift_declares_once .standard restored [.pos 3] [] {}
  obtain ⟨owned, howned, -, hnames⟩ := hlines shader hshader
  have hfirst : DeclaresAt (seeds {} (List.zip [.pos 3] restored.params)) restored.body 1 "y" :=
    ⟨rfl, by decide +kernel⟩
  obtain ⟨first, depth, type, value, hdeclares, -, hfilter⟩ :=
    (hnames "y").1 (by decide +kernel) (by decide +kernel)
  cases hdeclares.unique hfirst
  refine ⟨hok, owned, howned, ⟨_, hfilter⟩, (hnames "y").2.1 3 rfl ?_, (hnames "x").2.2 (by decide +kernel)⟩
  intro hsecond
  cases hsecond.unique hfirst

end ShaderLift
