import ShaderLift.Proofs.TreeLifting

/-!
# The nesting of the lifted lines

Every function that can be lifted is lifted along a tree of the jump grammar, and the lines of its body are the nested
statements of that tree written flat.

* `Event.marks` reads the lines off the events of a lifting, each with the index of the instruction at which it was
  added.
* `Nesting.Lifts.shows`: the events of a lifted tree add the lines and the marks of its nested statements.
* `State.walk_of_liftFrom`: where lifting goes through, the walk over the jumps alone goes through as well.
* `exists_lifts_of_lift`: the tree that a function is lifted along.
-/

namespace ShaderLift

/-! ## Reading events -/

namespace Event

/-- The marks of the lines that events add, each with the index of the instruction that was visited last. -/
def marks : Nat → List Event → List (Mark (Nat × Statement) (Nat × Expr))
  | _, [] => []
  | _, visited index _ _ :: rest => marks index rest
  | current, emitted line :: rest =>
      line.statement.mark.map (Prod.mk current) (Prod.mk current) :: marks current rest
  | current, _ :: rest => marks current rest

/-- Marks are read from one list of events after another. -/
theorem exists_marks_append (current : Nat) (before after : List Event) :
    ∃ later, marks current (before ++ after) = marks current before ++ marks later after := by
  induction before generalizing current with
  | nil => exact ⟨current, rfl⟩
  | cons event before ih =>
      cases event with
      | visited index instruction depth => exact ih index
      | emitted line =>
          obtain ⟨later, hlater⟩ := ih current
          refine ⟨later, ?_⟩
          simp only [List.cons_append, marks, hlater]
      | started function => exact ih current
      | retyped name declared assigned => exact ih current
      | finished result lines dependencies => exact ih current

/-- Without the indices, the marks of events are those of the lines that they add. -/
theorem map_marks (current : Nat) (events : List Event) :
    (marks current events).map (Mark.map Prod.snd Prod.snd) =
      (events.filterMap line?).map fun line => line.statement.mark := by
  induction events generalizing current with
  | nil => rfl
  | cons event events ih =>
      cases event with
      | visited index instruction depth => exact ih index
      | emitted line =>
          have hmark : (line.statement.mark.map (Prod.mk current) (Prod.mk current)).map Prod.snd Prod.snd =
              line.statement.mark := by
            cases line.statement.mark <;> rfl
          rw [marks, List.map_cons, hmark, ih]
          rfl
      | started function => exact ih current
      | retyped name declared assigned => exact ih current
      | finished result lines dependencies => exact ih current

/-- The events add these lines and, whichever instruction was visited before them, these marks. -/
structure Shows (events : List Event) (lines : List Line)
    (shown : List (Mark (Nat × Statement) (Nat × Expr))) : Prop where
  lines_eq : events.filterMap line? = lines
  marks_eq : ∀ current, marks current events = shown

theorem Shows.nil : Shows [] [] [] :=
  ⟨rfl, fun _ => rfl⟩

theorem Shows.append {before after : List Event} {lines lines' : List Line}
    {shown shown' : List (Mark (Nat × Statement) (Nat × Expr))} (h : Shows before lines shown)
    (h' : Shows after lines' shown') : Shows (before ++ after) (lines ++ lines') (shown ++ shown') := by
  constructor
  · rw [List.filterMap_append, h.lines_eq, h'.lines_eq]
  · intro current
    obtain ⟨later, hlater⟩ := exists_marks_append current before after
    rw [hlater, h.marks_eq, h'.marks_eq]

/-- A line that ends a body is shown as such after any instruction. -/
theorem shows_close (depth : Nat) : Shows [emitted ⟨depth, .close⟩] [⟨depth, .close⟩] [.close] :=
  ⟨rfl, fun _ => rfl⟩

theorem shows_finished (result : TypeId) (lines dependencies : Nat) :
    Shows [finished result lines dependencies] [] [] :=
  ⟨rfl, fun _ => rfl⟩

end Event

/-- The statement of a plain instruction is shown as a leaf at the index of the instruction. -/
theorem State.PlainStep.shows {c : Context} (index : Nat) {s next : State} {i : Instruction}
    {statement : Option Statement} {events : List Event} (h : s.PlainStep c i next statement)
    (hevents : StepEvents s.depth statement events) :
    Event.Shows (.visited index i s.depth :: events) (statement.toList.map (Line.mk s.depth))
      (statement.toList.map fun statement => .leaf (index, statement)) := by
  constructor
  · exact hevents.filterMap_line?
  · intro current
    obtain ⟨reports, rfl, hreports⟩ := hevents
    simp only [Event.marks]
    -- Reports of changed types add no line, so they can be dropped one by one.
    induction reports with
    | nil =>
        cases statement with
        | none => rfl
        | some statement =>
            simp only [Option.map_some, Option.toList_some, List.nil_append, Event.marks, h.mark_eq,
              Mark.map, List.map_cons, List.map_nil]
    | cons report reports ih =>
        obtain ⟨name, declared, assigned, rfl⟩ := hreports report List.mem_cons_self
        exact ih fun event hmem => hreports event (List.mem_cons_of_mem _ hmem)

/-- The events of a lifted tree add the lines and the marks of its nested statements. -/
theorem Nesting.Lifts.shows {c : Context} {index : Nat} {s last : State} {t : JumpTree}
    {events : List Event} {lines : PlacedNesting} (h : t.Lifts c index s events lines last) :
    Event.Shows events (lines.statements.lines s.depth) lines.marks := by
  induction h with
  | nil => exact .nil
  | @leaf index s next last a rest now later statement lines hplain hnow hrest ih =>
      have hdepth : next.depth = s.depth := by
        rw [State.depth, hplain.blocks_eq, State.depth]
      rw [hdepth] at ih
      have hshows := (hplain.shows index hnow).append ih
      cases statement with
      | none => exact hshows
      | some statement => exact hshows
  | @ifThen index stop s inside last body rest condition within later inner lines hstop hstack hbody
      hinside hrest ihBody ihRest =>
      -- The lines around the body have the depth of `s`, since the body leaves open what it finds open.
      have hdepth : inside.depth - 1 = s.depth := by
        rw [State.depth, hbody.blocks_eq]
        rfl
      have houtside : State.depth { inside with blocks := inside.blocks.tail } = s.depth := by
        rw [State.depth, hbody.blocks_eq]
        rfl
      rw [houtside] at ihRest
      have hopen : Event.Shows [.visited index (.jumpIfFalse stop) s.depth,
          .emitted ⟨s.depth, .openIf condition⟩] [⟨s.depth, .openIf condition⟩]
          [.openIf (index, condition)] := ⟨rfl, fun _ => rfl⟩
      rw [hdepth]
      exact hopen.append (ihBody.append ((Event.shows_close s.depth).append ihRest))
  | @ifElse index middle stop s inside switched last body other rest condition within without later inner
      alternative lines hmiddle hstop hstack hbody hinside hother hswitched hrest ihBody ihOther ihRest =>
      have hdepth : inside.depth - 1 = s.depth := by
        rw [State.depth, hbody.blocks_eq]
        rfl
      have helse : State.depth { inside with blocks := .elseBody stop :: inside.blocks.tail } =
          s.depth + 1 := by
        rw [State.depth, hbody.blocks_eq]
        rfl
      have hblocks : switched.blocks = .elseBody stop :: s.blocks := by
        rw [hother.blocks_eq, hbody.blocks_eq, List.tail_cons]
      have hdepth' : switched.depth - 1 = s.depth := by
        rw [State.depth, hblocks]
        rfl
      have houtside : State.depth { switched with blocks := switched.blocks.tail } = s.depth := by
        rw [State.depth, hblocks]
        rfl
      rw [helse] at ihOther
      rw [houtside] at ihRest
      have hopen : Event.Shows [.visited index (.jumpIfFalse (middle + 1)) s.depth,
          .emitted ⟨s.depth, .openIf condition⟩] [⟨s.depth, .openIf condition⟩]
          [.openIf (index, condition)] := ⟨rfl, fun _ => rfl⟩
      have hswitch : Event.Shows [.visited middle (.jump stop) inside.depth,
          .emitted ⟨s.depth, .openElse⟩] [⟨s.depth, .openElse⟩] [.openElse] := ⟨rfl, fun _ => rfl⟩
      rw [hdepth, hdepth']
      exact hopen.append (ihBody.append (hswitch.append
        (ihOther.append ((Event.shows_close s.depth).append ihRest))))

/-- The lines of a lifted tree can be read back as its nested statements. -/
theorem Nesting.Lifts.read?_lines {c : Context} {index : Nat} {s last : State} {t : JumpTree}
    {events : List Event} {lines : PlacedNesting} (h : t.Lifts c index s events lines last) :
    read? ((lines.statements.lines s.depth).map fun line => line.statement.mark) =
      some lines.statements := by
  rw [read?_eq_some_iff, ← h.shows.lines_eq, ← Event.map_marks 0, h.shows.marks_eq, statements, marks_map]

/-! ## The tree that a function is lifted along -/

namespace State

theorem branch_eq_ok {c : Context} {length index target : Nat} {s next : State} {events : List Event}
    (h : s.branch c length index target = .ok (next, events)) :
    s.blocks.openIf length index target = .ok next.blocks := by
  simp only [branch, bind, Except.bind] at h
  split at h
  · cases h
  · rename_i taken htaken
    obtain ⟨condition, middle⟩ := taken
    obtain ⟨-, hmiddle⟩ := popOperand_eq_ok htaken
    dsimp only at h
    split at h
    · cases h
    · split at h
      · cases h
      · split at h
        · rename_i blocks hopen
          cases h
          rw [hmiddle] at hopen
          exact hopen
        · cases h

/-- An instruction that can be lifted does to the open bodies what the walk over the jumps does. -/
theorem visit_of_step {c : Context} {length index : Nat} {s next : State} {i : Instruction}
    {events : List Event} (h : s.step c length index i = .ok (next, events)) :
    ∃ met, s.blocks.visit length index i = .ok (next.blocks, met) := by
  cases i with
  | jumpIfFalse target =>
      refine ⟨[.opened index], ?_⟩
      simp only [Blocks.visit, branch_eq_ok h]
  | jump target =>
      simp only [step, State.jump, bind, Except.bind] at h
      split at h
      · cases h
      · split at h
        · rename_i hjump
          cases h
          exact ⟨[], by simp only [Blocks.visit, hjump]⟩
        · rename_i blocks hjump
          cases h
          exact ⟨[.switched index], by simp only [Blocks.visit, hjump]⟩
        · cases h
  | _ =>
      obtain ⟨statement, hplain, -⟩ := plainStep_of_step (a := .instruction ⟨_, rfl⟩) h
      refine ⟨[], ?_⟩
      rw [hplain.blocks_eq]
      rfl

theorem close_eq_ok {s next : State} {index : Nat} {events : List Event}
    (h : s.close index = ⟨events, .ok next⟩) : next.blocks = s.blocks.close index := by
  unfold close at h
  split at h
  · rename_i hnone
    cases h
    exact (close_eq_self_of_closingLines hnone).symm
  · split at h
    · cases h
      rfl
    · cases h

/-- Where lifting goes through, the walk over the jumps alone goes through. -/
theorem walk_of_liftFrom {c : Context} {length index : Nat} {s last : State} {xs : List Instruction}
    {events : List Event} (h : liftFrom c length index s xs = ⟨events, .ok last⟩) :
    ∃ edges, s.blocks.walk length index xs = .ok (last.blocks, edges) := by
  induction xs generalizing index s events with
  | nil =>
      refine ⟨s.blocks.closings index, ?_⟩
      rw [Blocks.walk, close_eq_ok h]
  | cons x xs ih =>
      obtain ⟨closed, _, _, hclose, hvisited, rfl⟩ := Run.bind_eq_ok_iff.mp h
      obtain ⟨next, _, _, hvisit, hrest, rfl⟩ := Run.bind_eq_ok_iff.mp hvisited
      obtain ⟨later, hstep, -⟩ := visit_eq_ok hvisit
      obtain ⟨met, hmet⟩ := visit_of_step hstep
      rw [close_eq_ok hclose] at hmet
      obtain ⟨edges, hedges⟩ := ih hrest
      exact ⟨_, Blocks.walk_cons_eq_ok_iff.mpr ⟨next.blocks, met, edges, hmet, hedges, rfl⟩⟩

/-- A body ends well if no conditional body is open and no value is left. -/
theorem checkEnd_eq_ok_iff {s last : State} {events : List Event} :
    s.checkEnd = ⟨events, .ok last⟩ ↔ s.blocks = [] ∧ s.stack = [] ∧ last = s ∧ events = [] := by
  unfold checkEnd
  constructor
  · intro h
    split at h
    · cases h
    · rename_i hblocks
      split at h
      · cases h
      · rename_i hstack
        cases h
        rw [Bool.not_eq_false, List.isEmpty_iff] at hblocks hstack
        exact ⟨hblocks, hstack, rfl, rfl⟩
  · rintro ⟨hblocks, hstack, rfl, rfl⟩
    rw [hblocks, hstack]
    rfl

/-- A flattened tree that is a whole body is lifted as a tree. -/
theorem liftBody_flatten (c : Context) (scope : Scope) {t : JumpTree} (hproper : t.Proper) :
    liftBody c scope (t.flatten 0) =
      (t.lift c t.size 0 { scope := scope }).bind fun (_, last) => last.checkEnd := by
  have hreach : Blocks.ReachTo (0 + t.size) [] := fun _ hmem => absurd hmem List.not_mem_nil
  have hsize : 0 + t.size ≤ t.size := Nat.le_of_eq (Nat.zero_add _)
  rw [liftBody, Nesting.length_flatten, liftFrom_flatten hproper hreach hsize, Run.bind_assoc]
  apply Run.bind_congr
  rintro _ ⟨lines, last⟩ hlift
  -- No body is left open by a tree, so there is nothing to close at the end.
  have hblocks : last.blocks = [] := (Nesting.lifts_of_lift hlift).blocks_eq
  have hclose : last.close (0 + t.size) = .pure last := by
    rw [close, hblocks]
    rfl
  dsimp only
  rw [hclose, Run.pure_bind]

/-- A body that can be lifted is a flattened tree. -/
theorem exists_flatten_of_liftBody {c : Context} {scope : Scope} {body : List Instruction} {last : State}
    {events : List Event} (h : liftBody c scope body = ⟨events, .ok last⟩) :
    ∃ t : JumpTree, t.Proper ∧ t.flatten 0 = body := by
  obtain ⟨last', _, _, hlift, hend, -⟩ := Run.bind_eq_ok_iff.mp h
  obtain ⟨hblocks, -, -, -⟩ := checkEnd_eq_ok_iff.mp hend
  obtain ⟨edges, hwalk⟩ := walk_of_liftFrom hlift
  rw [hblocks] at hwalk
  exact Blocks.exists_flatten_of_walk hwalk

/-- A body that can be lifted is lifted along a tree. -/
theorem exists_lifts_of_liftBody {c : Context} {scope : Scope} {body : List Instruction} {last : State}
    {events : List Event} (h : liftBody c scope body = ⟨events, .ok last⟩) :
    ∃ (t : JumpTree) (lines : PlacedNesting), t.Proper ∧ t.flatten 0 = body ∧
      t.Lifts c 0 { scope := scope } events lines last ∧ last.stack = [] := by
  obtain ⟨t, hproper, rfl⟩ := exists_flatten_of_liftBody h
  rw [liftBody_flatten _ _ hproper] at h
  obtain ⟨⟨lines, last'⟩, before, _, hlift, hend, rfl⟩ := Run.bind_eq_ok_iff.mp h
  obtain ⟨-, hstack, rfl, rfl⟩ := checkEnd_eq_ok_iff.mp hend
  rw [List.append_nil]
  exact ⟨t, lines, hproper, rfl, Nesting.lifts_of_lift hlift, hstack⟩

end State

/-- When a function can be lifted, and what is made of its body. -/
theorem lift_eq_ok_iff {d : Dialect} {function : StackFunction} {args : List TypeId}
    {bound : List Shader} {interface : Interface} {events : List Event} {shader : Shader} :
    lift d function args bound interface = ⟨events, .ok shader⟩ ↔
      args.length = function.params.length ∧ ∃ within last,
        State.liftBody (.ofDialect d bound) (initialScope interface (args.zip function.params))
          function.body = ⟨within, .ok last⟩ ∧
        shader = .ofBody d function (args.zip function.params) bound interface
          (last.returns.getD (d.prim .void)) (within.filterMap Event.line?) ∧
        events = .started function.name :: (within ++ [.finished (last.returns.getD (d.prim .void))
          (within.filterMap Event.line?).length bound.length]) := by
  unfold lift
  split
  · rename_i hlength
    constructor
    · intro h
      cases h
    · rintro ⟨hlength', -⟩
      exact absurd hlength' hlength
  · rename_i hlength
    rw [Decidable.not_not] at hlength
    constructor
    · intro h
      dsimp only at h
      generalize hrun : State.liftBody _ _ _ = run at h
      obtain ⟨within, outcome⟩ := run
      cases outcome with
      | error e => cases h
      | ok last =>
          cases h
          exact ⟨hlength, within, last, rfl, rfl, rfl⟩
    · rintro ⟨-, within, last, hbody, rfl, rfl⟩
      simp only [hbody, Run.bind, Run.after, Run.lines, Run.pure, List.append_nil, List.singleton_append]

/-- A function that can be lifted is lifted along a tree.  Its lines are those of the nested statements, and the events
show which instruction each of them was lifted from. -/
theorem exists_lifts_of_lift {d : Dialect} {function : StackFunction} {args : List TypeId}
    {bound : List Shader} {interface : Interface} {events : List Event} {shader : Shader}
    (h : lift d function args bound interface = ⟨events, .ok shader⟩) :
    ∃ (t : JumpTree) (within : List Event) (lines : PlacedNesting) (last : State),
      t.Proper ∧ t.flatten 0 = function.body ∧
      t.Lifts (.ofDialect d bound) 0 { scope := initialScope interface (args.zip function.params) }
        within lines last ∧
      last.stack = [] ∧ shader.body = lines.statements.lines 1 ∧
      ∀ current, Event.marks current events = lines.marks := by
  obtain ⟨-, within, last, hbody, rfl, rfl⟩ := lift_eq_ok_iff.mp h
  obtain ⟨t, lines, hproper, hflatten, hlifts, hstack⟩ := State.exists_lifts_of_liftBody hbody
  refine ⟨t, within, lines, last, hproper, hflatten, hlifts, hstack, hlifts.shows.lines_eq, ?_⟩
  intro current
  rw [← List.append_nil lines.marks]
  show Event.marks current (_ ++ [_]) = _
  exact (hlifts.shows.append (Event.shows_finished _ _ _)).marks_eq current

end ShaderLift
