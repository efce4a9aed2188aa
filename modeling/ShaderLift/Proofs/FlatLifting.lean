import ShaderLift.Proofs.LiftedLines

/-!
# Lifting instruction by instruction

What lifting does at an instruction and between two of them, for facts that do not need the nesting of the body.

* `State.step_cases`: an instruction that can be lifted is plain, starts an `if` body or switches to an `else` body.
* `State.close_cases`: closing bodies changes nothing but the open bodies and adds nothing but closing lines.
* `State.relates_of_liftFrom`: a relation that holds of every step and every closing holds of whole runs, if it can be
  composed.
-/

namespace ShaderLift

namespace State

/-- A conditional jump that can be lifted takes the condition, which is all there is on the stack. -/
theorem branch_cases {c : Context} {length index target : Nat} {s next : State} {events : List Event}
    (h : s.branch c length index target = .ok (next, events)) :
    ∃ condition, s.stack = [.operand ⟨c.prim .bool, condition⟩] ∧
      next = { s with stack := [], blocks := next.blocks } ∧
      events = [.emitted ⟨next.blocks.depth - 1, .openIf condition⟩] := by
  simp only [branch, bind, Except.bind] at h
  split at h
  · cases h
  · rename_i taken htaken
    obtain ⟨condition, middle⟩ := taken
    obtain ⟨hstack, hmiddle⟩ := popOperand_eq_ok htaken
    dsimp only at h
    split at h
    · cases h
    · rename_i htype
      split at h
      · cases h
      · rename_i hboundary
        split at h
        · cases h
          have hempty := checkBoundary_eq_ok hboundary
          rw [hempty] at hstack hmiddle
          refine ⟨condition.expr, ?_, by rw [hmiddle], rfl⟩
          rw [hstack, ← Decidable.not_not.mp htype]
        · cases h

/-- A jump that can be lifted finds the stack empty and changes the open bodies at most. -/
theorem jump_cases {length index target : Nat} {s next : State} {events : List Event}
    (h : s.jump length index target = .ok (next, events)) :
    s.stack = [] ∧ next = { s with blocks := next.blocks } ∧
      (next.blocks = s.blocks ∨ events = [.emitted ⟨next.blocks.depth - 1, .openElse⟩]) := by
  simp only [State.jump, bind, Except.bind] at h
  split at h
  · cases h
  · rename_i hboundary
    have hempty := checkBoundary_eq_ok hboundary
    split at h
    · cases h
      exact ⟨hempty, rfl, .inl rfl⟩
    · cases h
      exact ⟨hempty, rfl, .inr rfl⟩
    · cases h

/-- The cases of lifting an instruction: the state before, the state after and the events. -/
inductive StepCases (c : Context) (index : Nat) (s : State) :
    Instruction → State → List Event → Prop
  | plain {a : Plain} {next : State} {statement : Option Statement} {events : List Event}
      (hplain : s.PlainStep c (a.at index) next statement)
      (hevents : StepEvents s.depth statement events) :
      StepCases c index s (a.at index) next events
  | openIf {target : Nat} {condition : Expr}
      (hstack : s.stack = [.operand ⟨c.prim .bool, condition⟩]) :
      StepCases c index s (.jumpIfFalse target)
        { s with stack := [], blocks := .ifBody target :: s.blocks }
        [.emitted ⟨s.depth, .openIf condition⟩]
  | openElse {target : Nat} {outer : Blocks} (hforward : index + 1 < target)
      (hblocks : s.blocks = .ifBody (index + 1) :: outer) (hstack : s.stack = []) :
      StepCases c index s (.jump target) { s with blocks := .elseBody target :: outer }
        [.emitted ⟨outer.depth, .openElse⟩]

/-- An instruction that can be lifted is plain, starts an `if` body or switches to an `else` body. -/
theorem step_cases {c : Context} {length index : Nat} {s next : State} {i : Instruction}
    {events : List Event} (h : s.step c length index i = .ok (next, events)) :
    StepCases c index s i next events := by
  obtain ⟨met, hvisit⟩ := visit_of_step h
  -- What the jumps alone tell about the open bodies decides the case.
  rcases Blocks.visit_cases hvisit with ⟨a, rfl, -⟩ | ⟨target, rfl, hblocks⟩ |
    ⟨target, outer, rfl, hforward, hinside, hblocks⟩
  · obtain ⟨statement, hplain, hevents⟩ := plainStep_of_step h
    exact .plain hplain hevents
  · obtain ⟨condition, hstack, hnext, rfl⟩ := branch_cases h
    rw [hblocks] at hnext ⊢
    rw [hnext]
    exact .openIf hstack
  · obtain ⟨hstack, hnext, hevents⟩ := jump_cases h
    rw [hblocks] at hnext hevents
    rw [hnext]
    rcases hevents with hsame | rfl
    · -- A switch to an `else` body changes the open bodies.
      rw [hinside] at hsame
      cases hsame
    · exact .openElse hforward hinside hstack

/-! ## Closing bodies -/

theorem mem_closingLines {index : Nat} {blocks : Blocks} {line : Line}
    (h : line ∈ closingLines index blocks) : line.statement = .close := by
  induction blocks with
  | nil => exact absurd h List.not_mem_nil
  | cons block outer ih =>
      rw [closingLines] at h
      split at h
      · rcases List.mem_cons.mp h with rfl | hrest
        · rfl
        · exact ih hrest
      · exact absurd h List.not_mem_nil

/-- Closing bodies changes nothing but the open bodies and adds nothing but closing lines. -/
theorem close_cases {s next : State} {index : Nat} {events : List Event}
    (h : s.close index = ⟨events, .ok next⟩) :
    next = { s with blocks := s.blocks.close index } ∧
      events = (closingLines index s.blocks).map .emitted := by
  unfold close at h
  split at h
  · rename_i hnone
    cases h
    refine ⟨?_, by rw [hnone, List.map_nil]⟩
    rw [close_eq_self_of_closingLines hnone]
  · split at h
    · cases h
      exact ⟨rfl, rfl⟩
    · cases h

/-! ## Runs -/

/-- A relation between the state before, the events and the state after that holds of every closing and of every visit,
and that can be composed, holds of every run. -/
theorem relates_of_liftFrom {c : Context} {length : Nat} {R : State → List Event → State → Prop}
    (hclose : ∀ {index s next events}, s.close index = ⟨events, .ok next⟩ → R s events next)
    (hvisit : ∀ {index s next i events}, s.StepCases c index i next events →
      s.step c length index i = .ok (next, events) →
      R s (.visited index i s.depth :: events) next)
    (htrans : ∀ {s middle last before after}, R s before middle → R middle after last →
      R s (before ++ after) last)
    {index : Nat} {s last : State} {xs : List Instruction} {events : List Event}
    (h : liftFrom c length index s xs = ⟨events, .ok last⟩) : R s events last := by
  induction xs generalizing index s events with
  | nil => exact hclose h
  | cons x xs ih =>
      obtain ⟨closed, _, _, hclosed, hvisited, rfl⟩ := Run.bind_eq_ok_iff.mp h
      obtain ⟨next, _, _, hnext, hrest, rfl⟩ := Run.bind_eq_ok_iff.mp hvisited
      obtain ⟨later, hstep, rfl⟩ := visit_eq_ok hnext
      exact htrans (hclose hclosed) (htrans (hvisit (step_cases hstep) hstep) (ih hrest))

end State

end ShaderLift
