import ShaderLift.Proofs.ReachedStates

/-!
# Where errors are noticed

A function that cannot be lifted is refused at its declaration, at an instruction or at its end.  The end is named for
all that goes wrong after the last instruction, with one exception: values that are left in a conditional body
which goes to the end of the function are reported at the index behind the last instruction.

* `State.liftBody_error_cases`, `State.liftBody_error_location`: where lifting a body fails.
* `lift_error_location`: what the location of an error says about the function.
* `lift_error_behind_body`: a function that is refused at an instruction which it does not have.
-/

namespace ShaderLift

namespace State

/-- A conditional body is still open after the last instruction. -/
def EndsInside (c : Context) (body : List Instruction) (start : State) : Prop :=
  ∃ last, Reaches c body start body.length last ∧ last.blocks ≠ []

variable {c : Context} {body : List Instruction} {scope : Scope}

/-- After the last instruction, all bodies are closed at once, or none of them because values are left. -/
theorem close_length_of_reaches {start last closed : State} {events : List Event}
    (hstart : start.blocks = []) (h : Reaches c body start body.length last)
    (hclose : last.close body.length = ⟨events, .ok closed⟩) :
    closed.blocks = [] ∧ closed.stack = last.stack ∧ (last.stack ≠ [] → last.blocks = []) := by
  have hordered := h.ordered hstart
  obtain ⟨rfl, -⟩ := close_cases hclose
  refine ⟨hordered.close.eq_nil, rfl, ?_⟩
  intro hleft
  cases hblocks : last.blocks with
  | nil => rfl
  | cons block outer =>
      -- The innermost body ends with the function, so closing it checks the stack.
      rw [hblocks] at hordered
      have hreach := hordered.reach block List.mem_cons_self
      have hinside := hordered.inside block List.mem_cons_self
      have hstop : block.stop = body.length := by omega
      cases hboundary : last.checkBoundary with
      | ok done => exact absurd (checkBoundary_eq_ok hboundary) hleft
      | error cause =>
          rw [close_of_not_boundary hblocks hstop hboundary] at hclose
          cases hclose

/-- Lifting a body fails at the last instruction that is reached, or after the last one of all.  Then it fails at the
end, unless a conditional body is still open. -/
theorem liftBody_error_cases {e : LiftError} (h : (liftBody c scope body).outcome = .error e) :
    (∃ stop < body.length, e.location = .instruction stop ∧
        ∀ next, ¬ Reaches c body { scope := scope } (stop + 1) next) ∨
      ∃ last, Reaches c body { scope := scope } body.length last ∧
        (last.blocks = [] ∧ e.location = .functionEnd ∨
          last.blocks ≠ [] ∧ e.location = .instruction body.length) := by
  have hstart : Reaches c body { scope := scope } 0 { scope := scope } := .start
  rcases Run.bind_eq_error h with hlift | ⟨closed, events, hlift, hend⟩
  · rcases stuck_of_liftFrom hstart (.whole body) (Nat.zero_add _) hlift with hstuck | ⟨last, hlast, hclose⟩
    · exact .inl hstuck
    · obtain ⟨hlocation, hblocks⟩ := close_eq_error hclose
      exact .inr ⟨last, hlast, .inr ⟨hblocks, hlocation⟩⟩
  · obtain ⟨last, after, hlast, hclose⟩ := exists_reaches_of_liftFrom hstart (.whole body) (Nat.zero_add _) hlift
    obtain ⟨hclosed, hstack, hempty⟩ := close_length_of_reaches rfl hlast hclose
    refine .inr ⟨last, hlast, .inl ?_⟩
    unfold checkEnd at hend
    rw [hclosed, hstack] at hend
    split at hend
    · rename_i hopen
      cases hopen
    · split at hend
      · rename_i hleft
        cases hend
        refine ⟨hempty fun hnone => ?_, rfl⟩
        rw [hnone] at hleft
        cases hleft
      · cases hend

/-- The location of an error in a body. -/
theorem liftBody_error_location {e : LiftError} (h : (liftBody c scope body).outcome = .error e) :
    e.location ≠ .declaration ∧
      (∀ index, e.location = .instruction index →
        index ≤ body.length ∧ (index = body.length ↔ EndsInside c body { scope := scope })) ∧
      ∀ last, Reaches c body { scope := scope } body.length last →
        (e.location = .functionEnd ↔ ¬ EndsInside c body { scope := scope }) := by
  rcases liftBody_error_cases h with
    ⟨stop, hlt, hlocation, hstuck⟩ | ⟨last, hlast, ⟨hblocks, hlocation⟩ | ⟨hblocks, hlocation⟩⟩
  · -- What comes after `stop` is not reached, and the end of the body is not either.
    have hunreached (last : State) : ¬ Reaches c body { scope := scope } body.length last := by
      intro hlast
      obtain ⟨next, hnext⟩ := hlast.exists_of_le hlt
      exact hstuck next hnext
    rw [hlocation]
    refine ⟨nofun, ?_, fun last hlast => absurd hlast (hunreached last)⟩
    intro index hindex
    cases hindex
    refine ⟨Nat.le_of_lt hlt, fun heq => absurd heq (Nat.ne_of_lt hlt), ?_⟩
    rintro ⟨last, hlast, -⟩
    exact absurd hlast (hunreached last)
  · have houtside : ¬ EndsInside c body { scope := scope } := by
      rintro ⟨last', hlast', hopen⟩
      rw [hlast'.unique hlast] at hopen
      exact hopen hblocks
    rw [hlocation]
    exact ⟨nofun, nofun, fun _ _ => ⟨fun _ => houtside, fun _ => rfl⟩⟩
  · have hinside : EndsInside c body { scope := scope } := ⟨last, hlast, hblocks⟩
    rw [hlocation]
    refine ⟨nofun, ?_, fun _ _ => ⟨nofun, fun hnot => absurd hinside hnot⟩⟩
    intro index hindex
    cases hindex
    exact ⟨Nat.le_refl _, fun _ => hinside, fun _ => rfl⟩

end State

/-- A function that cannot be lifted has a wrong number of argument types or a body that cannot be lifted. -/
theorem lift_eq_error {d : Dialect} {function : StackFunction} {args : List TypeId} {bound : List Shader}
    {interface : Interface} {e : LiftError} (h : (lift d function args bound interface).outcome = .error e) :
    args.length ≠ function.params.length ∧ e.location = .declaration ∨
      args.length = function.params.length ∧
        (State.liftBody (.ofDialect d bound) (initialScope interface (args.zip function.params))
          function.body).outcome = .error e := by
  unfold lift at h
  split at h
  · rename_i hlength
    cases h
    exact .inl ⟨hlength, rfl⟩
  · rename_i hlength
    rcases Run.bind_eq_error h with hbody | ⟨last, events, -, hdone⟩
    · exact .inr ⟨Decidable.not_not.mp hlength, hbody⟩
    · cases hdone

/-- The location of an error.  It is the declaration exactly if the number of argument types is wrong, and otherwise an
instruction or the end.  What goes wrong after the last instruction is reported at the end exactly if no conditional
body is open there, and else at the index behind the last instruction. -/
theorem lift_error_location {d : Dialect} {function : StackFunction} {args : List TypeId}
    {bound : List Shader} {interface : Interface} {e : LiftError}
    (h : (lift d function args bound interface).outcome = .error e) :
    (e.location = .declaration ↔ args.length ≠ function.params.length) ∧
      (∀ index, e.location = .instruction index →
        index ≤ function.body.length ∧
          (index = function.body.length ↔ State.EndsInside (.ofDialect d bound) function.body
            { scope := initialScope interface (args.zip function.params) })) ∧
      (∀ last, args.length = function.params.length →
        State.Reaches (.ofDialect d bound) function.body
          { scope := initialScope interface (args.zip function.params) } function.body.length last →
        (e.location = .functionEnd ↔ ¬ State.EndsInside (.ofDialect d bound) function.body
          { scope := initialScope interface (args.zip function.params) })) := by
  rcases lift_eq_error h with ⟨hlength, hlocation⟩ | ⟨hlength, hbody⟩
  · rw [hlocation]
    exact ⟨⟨fun _ => hlength, fun _ => rfl⟩, nofun, fun _ hlength' => absurd hlength' hlength⟩
  · obtain ⟨hdeclaration, hinstruction, hend⟩ := State.liftBody_error_location hbody
    refine ⟨⟨fun heq => absurd heq hdeclaration, fun hne => absurd hlength hne⟩, hinstruction, ?_⟩
    intro last _ hlast
    exact hend last hlast

/-- A function that leaves a value behind a conditional body. -/
def leftBehind : StackFunction where
  name := "f"
  params := ["x"]
  body :=
    [.loadLocal "x", .loadLocal "x", .binary .lt, .jumpIfFalse 6, .loadLocal "x", .storeLocal "y",
      .loadLocal "x"]

set_option maxRecDepth 4000 in
theorem lift_error_location_leftBehind :
    (lift .standard leftBehind [.pos 2] [] {}).outcome = .error ⟨.functionEnd, .leftAtEnd 1⟩ ∧
      ∃ last, State.Reaches (.ofDialect .standard []) leftBehind.body
          { scope := initialScope {} [(.pos 2, "x")] } leftBehind.body.length last ∧
        ¬ State.EndsInside (.ofDialect .standard []) leftBehind.body
          { scope := initialScope {} [(.pos 2, "x")] } := by
  have hfails : (lift .standard leftBehind [.pos 2] [] {}).outcome =
      .error ⟨.functionEnd, .leftAtEnd 1⟩ := by rfl
  refine ⟨hfails, ?_⟩
  rcases lift_eq_error hfails with ⟨hlength, -⟩ | ⟨hlength, hbody⟩
  · exact absurd rfl hlength
  · rcases State.liftBody_error_cases hbody with ⟨stop, -, hlocation, -⟩ | ⟨last, hlast, -⟩
    · cases hlocation
    · exact ⟨last, hlast, ((lift_error_location hfails).2.2 last hlength hlast).mp rfl⟩

/-- A function that leaves a value in a conditional body which goes to its end. -/
def leftInside : StackFunction where
  name := "f"
  params := ["x"]
  body := [.loadLocal "x", .loadLocal "x", .binary .lt, .jumpIfFalse 5, .loadLocal "x"]

set_option maxRecDepth 4000 in
/-- Not every instruction that is reported is one of the function. -/
theorem lift_error_behind_body :
    ∃ e, (lift .standard leftInside [.pos 2] [] {}).outcome = .error e ∧
      e.location = .instruction leftInside.body.length :=
  ⟨⟨.instruction 5, .leftAtBoundary 1⟩, rfl, rfl⟩

end ShaderLift
