import ShaderLift.Proofs.Refusals

/-!
# Every body is closed

When an instruction is lifted, the bodies around it end behind it and within the function, and an inner body ends no
later than the bodies around it.  So the ends of the open bodies, listed from the outermost body to the innermost one,
never increase; and behind the last instruction all bodies are closed.

* `State.exists_prefix_of_visited`: the state in which an instruction is visited is that after lifting what comes before.
* `State.ordered_of_liftFrom`: how bodies are nested after a run.
* `lift_cause_cases`: the causes for which functions are refused.
* `lift_closes_bodies`: what holds at every instruction and behind the last one, and the error that never occurs.
-/

namespace ShaderLift

/-- What happens in a run that goes on with another one happens in one of the two. -/
theorem Run.mem_events_bind {α β : Type} {r : Run α} {f : α → Run β} {event : Event}
    (h : event ∈ (r.bind f).events) :
    event ∈ r.events ∨ ∃ a, r = ⟨r.events, .ok a⟩ ∧ event ∈ (f a).events := by
  obtain ⟨events, outcome⟩ := r
  cases outcome with
  | error e => exact .inl h
  | ok a => exact (List.mem_append.mp h).imp_right fun hlater => ⟨a, rfl, hlater⟩

namespace Blocks

/-- The indices at which the open bodies end, from the outermost body to the innermost one. -/
def stops (blocks : Blocks) : List Nat :=
  blocks.reverse.map Block.stop

/-- The open bodies end behind the instruction at `index` and within the function, and the ends do not increase from
the outermost body to the innermost one. -/
def EndsDescend (length index : Nat) (blocks : Blocks) : Prop :=
  blocks.stops.Pairwise (· ≥ ·) ∧ ∀ stop ∈ blocks.stops, index < stop ∧ stop ≤ length

theorem Ordered.endsDescend {length index : Nat} {blocks : Blocks} (h : Ordered length (index + 1) blocks) :
    EndsDescend length index blocks := by
  constructor
  · rw [stops, List.pairwise_map, List.pairwise_reverse]
    exact h.nested
  · intro stop hstop
    obtain ⟨block, hblock, rfl⟩ := List.mem_map.mp hstop
    have hmem := List.mem_reverse.mp hblock
    exact ⟨h.reach block hmem, h.inside block hmem⟩

end Blocks

namespace State

variable {c : Context} {length index : Nat} {s : State} {xs : List Instruction}

/-! ## Visits -/

/-- Closing bodies visits no instruction. -/
theorem not_visited_close {position depth : Nat} {i : Instruction} :
    .visited position i depth ∉ (s.close index).events := by
  unfold close
  split
  · exact List.not_mem_nil
  · split
    · intro h
      obtain ⟨line, -, hline⟩ := List.mem_map.mp h
      cases hline
    · exact List.not_mem_nil

/-- Lifting an instruction reports a changed type or adds a line, but visits no other instruction. -/
theorem StepCases.not_visited {next : State} {x i : Instruction} {events : List Event} {position depth : Nat}
    (h : s.StepCases c index x next events) : .visited position i depth ∉ events := by
  cases h with
  | plain hplain hevents =>
      obtain ⟨reports, rfl, hreports⟩ := hevents
      intro hmem
      rcases List.mem_append.mp hmem with hmem | hmem
      · obtain ⟨name, declared, assigned, hevent⟩ := hreports _ hmem
        cases hevent
      · obtain ⟨statement, -, hevent⟩ := Option.map_eq_some_iff.mp (Option.mem_toList.mp hmem)
        cases hevent
  | openIf hstack => simp
  | openElse hforward hblocks hstack => simp

/-- An instruction is visited at the depth that it is lifted at. -/
theorem eq_of_visited {x i : Instruction} {position depth : Nat}
    (h : .visited position i depth ∈ (s.visit c length index x).events) :
    position = index ∧ i = x ∧ depth = s.depth := by
  unfold visit at h
  dsimp only at h
  split at h
  · rename_i hstep
    rcases List.mem_cons.mp h with hevent | hmem
    · cases hevent
      exact ⟨rfl, rfl, rfl⟩
    · exact absurd hmem (step_cases hstep).not_visited
  · cases List.mem_singleton.mp h
    exact ⟨rfl, rfl, rfl⟩

/-- An instruction that is visited is lifted in the state that lifting comes to with what stands before it. -/
theorem exists_prefix_of_visited {position depth : Nat} {i : Instruction}
    (h : .visited position i depth ∈ (liftFrom c length index s xs).events) :
    ∃ count before reached, position = index + count ∧ xs[count]? = some i ∧
      liftFrom c length index s (xs.take count) = ⟨before, .ok reached⟩ ∧ depth = reached.depth := by
  induction xs generalizing index s with
  | nil => exact absurd h not_visited_close
  | cons x xs ih =>
      -- The report comes from the visit of `x` or from the rest; in both cases the bodies that end at `x` were closed.
      rcases Run.mem_events_bind h with hmem | ⟨closed, hclose, hmem⟩
      · exact absurd hmem not_visited_close
      · rcases Run.mem_events_bind hmem with hmem | ⟨next, hvisit, hmem⟩
        · obtain ⟨rfl, rfl, rfl⟩ := eq_of_visited hmem
          exact ⟨0, _, closed, rfl, rfl, hclose, rfl⟩
        · obtain ⟨count, later, reached, rfl, hi, hrest, rfl⟩ := ih hmem
          have hprefix : liftFrom c length index s (x :: xs.take count) =
              ⟨(s.close index).events ++ ((closed.visit c length index x).events ++ later), .ok reached⟩ :=
            Run.bind_eq_ok_iff.mpr ⟨closed, _, _, hclose,
              Run.bind_eq_ok_iff.mpr ⟨next, _, _, hvisit, hrest, rfl⟩, rfl⟩
          exact ⟨count + 1, _, reached, by omega, hi, hprefix, rfl⟩

/-! ## Nesting along a run -/

/-- Bodies that are nested before a run are nested after it, and then they end behind what was lifted. -/
theorem ordered_of_liftFrom {last : State} {events : List Event} (hs : s.blocks.Ordered length index)
    (h : liftFrom c length index s xs = ⟨events, .ok last⟩) :
    last.blocks.Ordered length (index + xs.length + 1) := by
  induction xs generalizing index s events with
  | nil => exact ordered_of_close hs h
  | cons x xs ih =>
      obtain ⟨closed, _, _, hclose, hvisited, -⟩ := Run.bind_eq_ok_iff.mp h
      obtain ⟨next, _, _, hvisit, hrest, -⟩ := Run.bind_eq_ok_iff.mp hvisited
      obtain ⟨later, hstep, -⟩ := visit_eq_ok hvisit
      have hlast := ih (ordered_of_step (ordered_of_close hs hclose) hstep) hrest
      rwa [Nat.add_right_comm index 1, Nat.add_assoc index] at hlast

/-- All bodies are closed behind the last instruction. -/
theorem blocks_eq_nil_of_liftFrom {body : List Instruction} {last : State} {events : List Event}
    (hs : s.blocks = []) (h : liftFrom c body.length 0 s body = ⟨events, .ok last⟩) : last.blocks = [] := by
  have hstart : s.blocks.Ordered body.length 0 := hs ▸ .nil body.length 0
  have hlast := ordered_of_liftFrom hstart h
  rw [Nat.zero_add] at hlast
  exact hlast.eq_nil

end State

/-! ## Functions -/

section Functions

variable {d : Dialect} {function : StackFunction} {args : List TypeId} {bound : List Shader} {interface : Interface}

/-- The instructions that are visited when a function is lifted are those that are visited in its body. -/
theorem visited_of_lift {index depth : Nat} {i : Instruction}
    (h : .visited index i depth ∈ (lift d function args bound interface).events) :
    .visited index i depth ∈ (State.liftFrom (.ofDialect d bound) function.body.length 0
      { scope := initialScope interface (args.zip function.params) } function.body).events := by
  unfold lift at h
  rcases List.mem_append.mp h with hmem | hmem
  · cases List.mem_singleton.mp hmem
  · split at hmem
    · exact absurd hmem List.not_mem_nil
    · rcases Run.mem_events_bind hmem with hbody | ⟨last, -, hlast⟩
      · rcases Run.mem_events_bind hbody with hlift | ⟨last, -, hend⟩
        · exact hlift
        · unfold State.checkEnd at hend
          split at hend
          · exact absurd hend List.not_mem_nil
          · split at hend
            · exact absurd hend List.not_mem_nil
            · exact absurd hend List.not_mem_nil
      · cases List.mem_singleton.mp hlast

/-- A function is refused for the number of its argument types, for one of its instructions, or because values are left
where a body or the function ends. -/
theorem lift_cause_cases {e : LiftError} (h : (lift d function args bound interface).outcome = .error e) :
    e.cause = .argumentTypeCount function.name function.params.length args.length ∨
      (∃ i ∈ function.body, Refusal i e.cause) ∨
      ∃ count, e.cause = .leftAtBoundary count ∨ e.cause = .leftAtEnd count := by
  unfold lift at h
  split at h
  · cases h
    exact .inl rfl
  · right
    rcases Run.bind_eq_error h with hbody | ⟨last, events, -, hdone⟩
    · rcases Run.bind_eq_error hbody with hlift | ⟨last, events, hlift, hend⟩
      · rcases State.cause_of_liftFrom hlift with ⟨count, hcount⟩ | hrefusal
        · exact .inr ⟨count, .inl hcount⟩
        · exact .inl hrefusal
      · -- What is checked first at the end is whether a body is open.
        have hclosed := State.blocks_eq_nil_of_liftFrom rfl hlift
        unfold State.checkEnd at hend
        rw [hclosed] at hend
        split at hend
        · rename_i hopen
          cases hopen
        · split at hend
          · cases hend
            exact .inr ⟨_, .inr rfl⟩
          · cases hend
    · cases hdone

end Functions

/-- Whenever an instruction is visited, the open bodies end behind it and within the function, with ends that do not
increase from the outermost body to the innermost one, and so they do after the instruction.  The state in which it is
visited is the one after lifting all that stands before it, which includes closing the bodies that end at it.  When the
bodies that end with the function are closed, no body is left, so no function is refused for a body that is still
open. -/
theorem lift_closes_bodies (d : Dialect) (function : StackFunction) (args : List TypeId) (bound : List Shader)
    (interface : Interface) :
    let c := Context.ofDialect d bound
    let body := function.body
    let start : State := { scope := initialScope interface (args.zip function.params) }
    (∀ index i depth, .visited index i depth ∈ (lift d function args bound interface).events →
      ∃ before s, State.liftFrom c body.length 0 start (body.take index) = ⟨before, .ok s⟩ ∧
        body[index]? = some i ∧ depth = s.depth ∧ s.blocks.EndsDescend body.length index ∧
        ∀ next events, s.step c body.length index i = .ok (next, events) →
          next.blocks.EndsDescend body.length index) ∧
      (∀ last events, State.liftFrom c body.length 0 start body = ⟨events, .ok last⟩ → last.blocks = []) ∧
      ∀ e, (lift d function args bound interface).outcome = .error e → e.cause ≠ .openBlock := by
  intro c body start
  have hstart : start.blocks.Ordered body.length 0 := .nil body.length 0
  refine ⟨?_, fun last events h => State.blocks_eq_nil_of_liftFrom rfl h, ?_⟩
  · intro index i depth hvisited
    obtain ⟨count, before, s, hindex, hi, hprefix, hdepth⟩ :=
      State.exists_prefix_of_visited (visited_of_lift hvisited)
    obtain rfl : index = count := by omega
    -- The prefix closes the bodies that end at `index`, so what is open ends behind it.
    have hordered := State.ordered_of_liftFrom hstart hprefix
    have hlength : (body.take index).length = index :=
      List.length_take_of_le (Nat.le_of_lt (List.getElem?_eq_some_iff.mp hi).1)
    rw [hlength, Nat.zero_add] at hordered
    refine ⟨before, s, hprefix, hi, hdepth, hordered.endsDescend, ?_⟩
    intro next events hstep
    exact (State.ordered_of_step hordered hstep).endsDescend
  · intro e he
    rcases lift_cause_cases he with hcause | ⟨i, -, hrefusal⟩ | ⟨count, hcause | hcause⟩
    · simp [hcause]
    · exact hrefusal.ne_openBlock
    · simp [hcause]
    · simp [hcause]

/-- A function with two bodies that end with it, in the inner one of which a value is left. -/
def endingTogether : StackFunction where
  name := "f"
  params := ["x"]
  body :=
    [.loadLocal "x", .loadLocal "x", .binary .lt, .jumpIfFalse 7, .loadLocal "x", .storeLocal "y", .jump 12,
      .loadLocal "x", .loadLocal "x", .binary .lt, .jumpIfFalse 12, .loadLocal "x"]

set_option maxRecDepth 4000 in
theorem lift_closes_bodies_endingTogether :
    .visited 11 (.loadLocal "x") 3 ∈ (lift .standard endingTogether [.pos 2] [] {}).events ∧
      (∃ before s, State.liftFrom (.ofDialect .standard []) 12 0 { scope := initialScope {} [(.pos 2, "x")] }
          (endingTogether.body.take 11) = ⟨before, .ok s⟩ ∧ s.depth = 3 ∧ s.blocks.EndsDescend 12 11) ∧
      ∃ e, (lift .standard endingTogether [.pos 2] [] {}).outcome = .error e ∧ e.cause ≠ .openBlock := by
  obtain ⟨hvisits, -, hcauses⟩ := lift_closes_bodies .standard endingTogether [.pos 2] [] {}
  have hvisited : .visited 11 (.loadLocal "x") 3 ∈ (lift .standard endingTogether [.pos 2] [] {}).events :=
    List.mem_of_getElem? (i := 16) rfl
  have herror : (lift .standard endingTogether [.pos 2] [] {}).outcome =
      .error ⟨.instruction 12, .leftAtBoundary 1⟩ := rfl
  obtain ⟨before, s, hprefix, -, hdepth, hends, -⟩ := hvisits 11 (.loadLocal "x") 3 hvisited
  exact ⟨hvisited, ⟨before, s, hprefix, hdepth.symm, hends⟩, _, herror, hcauses _ herror⟩

end ShaderLift
