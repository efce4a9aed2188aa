import ShaderLift.Lift
import ShaderLift.Proofs.PlainStep

/-!
# Lifting along a tree

Lifting goes over a flat list of instructions and finds out where bodies end on the way.  If the list is a flattened
tree of the jump grammar, the same can be done by recursion on the tree: `Nesting.lift` lifts a tree and gives the
statements in the nesting of the tree.

* `Nesting.lifts_of_lift`: what lifting a tree consists of if it does not fail.
* `State.liftFrom_flatten`: lifting a flattened tree is lifting the tree, events and failures included.
-/

namespace ShaderLift

/-- Nested statements and conditions, each with the index of the instruction that it was lifted from. -/
abbrev PlacedNesting := Nesting (Nat × Statement) (Nat × Expr)

/-- The statements and conditions alone. -/
def Nesting.statements (t : PlacedNesting) : Nesting Statement Expr :=
  t.map Prod.snd Prod.snd

namespace Run

variable {α β : Type}

/-- How a run goes on matters only for the result it has. -/
theorem bind_congr {r : Run α} {f g : α → Run β}
    (h : ∀ events a, r = ⟨events, .ok a⟩ → f a = g a) : r.bind f = r.bind g := by
  obtain ⟨events, outcome⟩ := r
  cases outcome with
  | error e => rfl
  | ok a =>
      have heq := h events a rfl
      simp only [bind, heq]

/-- When a run that goes on with another one succeeds. -/
theorem bind_eq_ok_iff {r : Run α} {f : α → Run β} {events : List Event} {b : β} :
    r.bind f = ⟨events, .ok b⟩ ↔
      ∃ a before after, r = ⟨before, .ok a⟩ ∧ f a = ⟨after, .ok b⟩ ∧ events = before ++ after := by
  obtain ⟨before, outcome⟩ := r
  cases outcome with
  | error e =>
      simp only [bind, Run.mk.injEq, reduceCtorEq, and_false, false_and, exists_false]
  | ok a =>
      constructor
      · intro h
        simp only [bind, after, Run.mk.injEq] at h
        refine ⟨a, before, (f a).events, rfl, ?_, h.1.symm⟩
        rw [← h.2]
      · rintro ⟨a', before', later, hr, hf, rfl⟩
        cases hr
        simp only [bind, after, hf]

theorem toOption_outcome_eq_some_iff {r : Run α} {a : α} : r.outcome.toOption = some a ↔ r.outcome = .ok a := by
  cases r.outcome with
  | error e => simp [Except.toOption]
  | ok b => simp [Except.toOption]

/-- A run has a result if computing it shows that there is one. -/
theorem exists_ok_of_isSome {r : Run α} (h : r.outcome.toOption.isSome) : ∃ a, r.outcome = .ok a := by
  obtain ⟨a, ha⟩ := Option.isSome_iff_exists.mp h
  exact ⟨a, toOption_outcome_eq_some_iff.mp ha⟩

/-- The result of a run, where something about it is found by computation. -/
theorem exists_ok_of_bind {r : Run α} {f : α → Option β} {b : β} (h : r.outcome.toOption.bind f = some b) :
    ∃ a, r.outcome = .ok a ∧ f a = some b := by
  obtain ⟨a, ha, hb⟩ := Option.bind_eq_some_iff.mp h
  exact ⟨a, toOption_outcome_eq_some_iff.mp ha, hb⟩

end Run

namespace State

/-- Takes the condition of a body from the stack, which has nothing else on it. -/
def condition (c : Context) (s : State) : Except Cause (Expr × State) := do
  let (condition, s) ← s.popOperand
  if condition.type ≠ c.prim .bool then
    throw (.notACondition condition.expr condition.type)
  s.checkBoundary
  pure (condition.expr, s)

/-- Lifts a conditional jump to `stop` as the start of an `if` body; gives the condition. -/
def enterIf (c : Context) (index stop : Nat) (s : State) : Run (Expr × State) :=
  let report := Event.visited index (.jumpIfFalse stop) s.depth
  match s.condition c with
  | .ok (condition, inside) =>
      ⟨[report, .emitted ⟨s.depth, .openIf condition⟩],
        .ok (condition, { inside with blocks := .ifBody stop :: s.blocks })⟩
  | .error cause => ⟨[report], .error ⟨.instruction index, cause⟩⟩

/-- Lifts a jump to `stop` as the end of an `if` body and the start of its `else` body. -/
def switchElse (index stop : Nat) (s : State) : Run State :=
  let report := Event.visited index (.jump stop) s.depth
  match s.checkBoundary with
  | .ok () =>
      ⟨[report, .emitted ⟨s.depth - 1, .openElse⟩],
        .ok { s with blocks := .elseBody stop :: s.blocks.tail }⟩
  | .error cause => ⟨[report], .error ⟨.instruction index, cause⟩⟩

/-- Closes the innermost body, which ends at `stop`. -/
def leaveBody (stop : Nat) (s : State) : Run State :=
  match s.checkBoundary with
  | .ok () => ⟨[.emitted ⟨s.depth - 1, .close⟩], .ok { s with blocks := s.blocks.tail }⟩
  | .error cause => .fail (.instruction stop) cause

end State

/-- Lifts the instructions of a tree whose first one stands at `index`. -/
def Nesting.lift (c : Context) (length : Nat) :
    Nat → State → JumpTree → Run (PlacedNesting × State)
  | _, s, nil => .pure (nil, s)
  | index, s, leaf a rest =>
      let visit := s.visit c length index (a.at index)
      visit.bind fun next =>
        (rest.lift c length (index + 1) next).bind fun (lines, last) =>
          .pure (leaves (visit.lines.map fun line => (index, line.statement)) lines, last)
  | index, s, ifThen _ body rest =>
      let stop := index + 1 + body.size
      (s.enterIf c index stop).bind fun (condition, inside) =>
        (body.lift c length (index + 1) inside).bind fun (inner, inside) =>
          (inside.leaveBody stop).bind fun outside =>
            (rest.lift c length stop outside).bind fun (lines, last) =>
              .pure (ifThen (index, condition) inner lines, last)
  | index, s, ifElse _ body other rest =>
      let middle := index + 1 + body.size + 1
      let stop := middle + other.size
      (s.enterIf c index middle).bind fun (condition, inside) =>
        (body.lift c length (index + 1) inside).bind fun (inner, inside) =>
          (inside.switchElse (index + 1 + body.size) stop).bind fun inside =>
            (other.lift c length middle inside).bind fun (alternative, inside) =>
              (inside.leaveBody stop).bind fun outside =>
                (rest.lift c length stop outside).bind fun (lines, last) =>
                  .pure (ifElse (index, condition) inner alternative lines, last)

/-! ## Entering and leaving bodies -/

namespace State

/-- A body can be entered if a condition of type `bool` is all there is on the stack. -/
theorem condition_eq_ok {c : Context} {s inside : State} {condition : Expr}
    (h : s.condition c = .ok (condition, inside)) :
    s.stack = [.operand ⟨c.prim .bool, condition⟩] ∧ inside = { s with stack := [] } := by
  simp only [State.condition, bind, Except.bind] at h
  split at h
  · cases h
  · rename_i taken htaken
    obtain ⟨operand, middle⟩ := taken
    obtain ⟨hstack, hmiddle⟩ := popOperand_eq_ok htaken
    dsimp only at h
    split at h
    · cases h
    · rename_i htype
      split at h
      · cases h
      · rename_i hboundary
        cases h
        have hempty := checkBoundary_eq_ok hboundary
        have htype' : operand.type = c.prim .bool := Decidable.not_not.mp htype
        rw [hempty] at hstack hmiddle
        refine ⟨?_, hmiddle⟩
        rw [hstack, ← htype']

theorem enterIf_eq_ok {c : Context} {index stop : Nat} {s inside : State} {condition : Expr}
    {events : List Event} (h : s.enterIf c index stop = ⟨events, .ok (condition, inside)⟩) :
    s.stack = [.operand ⟨c.prim .bool, condition⟩] ∧
      inside = { s with stack := [], blocks := .ifBody stop :: s.blocks } ∧
      events = [.visited index (.jumpIfFalse stop) s.depth, .emitted ⟨s.depth, .openIf condition⟩] := by
  simp only [enterIf] at h
  split at h
  · rename_i condition' taken hcondition
    cases h
    obtain ⟨hstack, rfl⟩ := condition_eq_ok hcondition
    exact ⟨hstack, rfl, rfl⟩
  · cases h

theorem switchElse_eq_ok {index stop : Nat} {s inside : State} {events : List Event}
    (h : s.switchElse index stop = ⟨events, .ok inside⟩) :
    s.stack = [] ∧ inside = { s with blocks := .elseBody stop :: s.blocks.tail } ∧
      events = [.visited index (.jump stop) s.depth, .emitted ⟨s.depth - 1, .openElse⟩] := by
  simp only [switchElse] at h
  split at h
  · rename_i hboundary
    cases h
    exact ⟨checkBoundary_eq_ok hboundary, rfl, rfl⟩
  · cases h

theorem leaveBody_eq_ok {stop : Nat} {s outside : State} {events : List Event}
    (h : s.leaveBody stop = ⟨events, .ok outside⟩) :
    s.stack = [] ∧ outside = { s with blocks := s.blocks.tail } ∧
      events = [.emitted ⟨s.depth - 1, .close⟩] := by
  simp only [leaveBody] at h
  split at h
  · rename_i hboundary
    cases h
    exact ⟨checkBoundary_eq_ok hboundary, rfl, rfl⟩
  · cases h

/-- A conditional jump forward inside of all open bodies enters a body. -/
theorem visit_jumpIfFalse (c : Context) {length index stop : Nat} {s : State} (hforward : index < stop)
    (hreach : s.blocks.ReachTo stop) (hlength : stop ≤ length) :
    s.visit c length index (.jumpIfFalse stop) =
      (s.enterIf c index stop).bind fun (_, inside) => .pure inside := by
  have hopen := Blocks.openIf_eq_ok hforward hreach hlength
  have hbranch : s.branch c length index stop = match s.condition c with
      | .ok (condition, inside) => .ok ({ inside with blocks := .ifBody stop :: s.blocks },
          [.emitted ⟨s.depth, .openIf condition⟩])
      | .error cause => .error cause := by
    -- The condition is checked before the target, and the target cannot fail here.
    simp only [branch, State.condition, bind, Except.bind]
    cases htaken : s.popOperand with
    | error cause => rfl
    | ok taken =>
        obtain ⟨operand, middle⟩ := taken
        obtain ⟨-, hmiddle⟩ := popOperand_eq_ok htaken
        dsimp only
        split
        · rfl
        · have hblocks : middle.blocks = s.blocks := by rw [hmiddle]
          cases middle.checkBoundary with
          | error cause => rfl
          | ok done =>
              dsimp only
              rw [hblocks, hopen]
              rfl
  simp only [visit, step, hbranch, enterIf]
  cases s.condition c with
  | error cause => rfl
  | ok taken => rfl

/-- A jump at the end of an `if` body, forward inside of all bodies around it, switches to an `else` body. -/
theorem visit_jump (c : Context) {length index stop : Nat} {s : State} {outer : Blocks}
    (hblocks : s.blocks = .ifBody (index + 1) :: outer) (hforward : index + 1 < stop)
    (hreach : outer.ReachTo stop) (hlength : stop ≤ length) :
    s.visit c length index (.jump stop) = s.switchElse index stop := by
  have hjump := Blocks.jump_eq_beginElse hforward hreach hlength
  simp only [visit, step, State.jump, switchElse, bind, Except.bind]
  cases s.checkBoundary with
  | error cause => rfl
  | ok done =>
      dsimp only
      rw [hblocks, hjump]
      simp only [depth, hblocks]
      rfl

/-! ## Closing bodies -/

theorem closingLines_eq_nil {index : Nat} {blocks : Blocks} (hreach : blocks.ReachTo (index + 1)) :
    closingLines index blocks = [] := by
  cases blocks with
  | nil => rfl
  | cons block outer =>
      have hstop := hreach block List.mem_cons_self
      rw [closingLines, if_neg (by omega)]

theorem close_eq_pure {s : State} {index : Nat} (hreach : s.blocks.ReachTo (index + 1)) :
    s.close index = .pure s := by
  rw [close, closingLines_eq_nil hreach]

theorem closingLines_close (index : Nat) (blocks : Blocks) :
    closingLines index (blocks.close index) = [] := by
  induction blocks with
  | nil => rfl
  | cons block outer ih =>
      by_cases hstop : block.stop = index
      · rw [Blocks.close_cons_of_stop outer hstop, ih]
      · rw [Blocks.close_cons_of_ne outer hstop, closingLines, if_neg hstop]

/-- Bodies are closed with a line each. -/
theorem close_eq_self_of_closingLines {index : Nat} {blocks : Blocks}
    (h : closingLines index blocks = []) : blocks.close index = blocks := by
  cases blocks with
  | nil => rfl
  | cons block outer =>
      by_cases hstop : block.stop = index
      · rw [closingLines, if_pos hstop] at h
        cases h
      · exact Blocks.close_cons_of_ne outer hstop

/-- Closing bodies where no value is left on the stack. -/
theorem close_of_boundary {s : State} (index : Nat) (h : s.checkBoundary = .ok ()) :
    s.close index = ⟨(closingLines index s.blocks).map .emitted,
      .ok { s with blocks := s.blocks.close index }⟩ := by
  rw [close]
  split
  · rename_i hnone
    rw [close_eq_self_of_closingLines hnone, hnone]
    rfl
  · rw [h]

/-- Closing a body where a value is left on the stack. -/
theorem close_of_not_boundary {s : State} {index : Nat} {block : Block} {outer : Blocks} {cause : Cause}
    (hblocks : s.blocks = block :: outer) (hstop : block.stop = index)
    (h : s.checkBoundary = .error cause) : s.close index = .fail (.instruction index) cause := by
  rw [close, hblocks]
  simp only [closingLines, if_pos hstop, h]

/-- Bodies that end at one index are closed from the innermost outwards. -/
theorem close_eq_leaveBody {s : State} {index : Nat} {block : Block} {outer : Blocks}
    (hblocks : s.blocks = block :: outer) (hstop : block.stop = index) :
    s.close index = (s.leaveBody index).bind fun s => s.close index := by
  cases hboundary : s.checkBoundary with
  | error cause =>
      rw [close_of_not_boundary hblocks hstop hboundary, leaveBody, hboundary]
      rfl
  | ok done =>
      have houter : ({ s with blocks := outer } : State).checkBoundary = .ok () := hboundary
      rw [close_of_boundary index hboundary, leaveBody, hboundary]
      simp only [Run.bind, hblocks, List.tail_cons, close_of_boundary index houter, Run.after, depth,
        Blocks.close_cons_of_stop outer hstop, closingLines, if_pos hstop]
      rfl

/-- Closing twice is closing once. -/
theorem close_bind_close (s : State) (index : Nat) :
    ((s.close index).bind fun s => s.close index) = s.close index := by
  cases hboundary : s.checkBoundary with
  | ok done =>
      have hclosed : ({ s with blocks := s.blocks.close index } : State).checkBoundary = .ok () :=
        hboundary
      rw [close_of_boundary index hboundary]
      simp only [Run.bind, close_of_boundary index hclosed, closingLines_close, Blocks.close_close,
        Run.after, List.map_nil, List.append_nil]
  | error cause =>
      cases hblocks : s.blocks with
      | nil =>
          have hpure : s.close index = .pure s := by
            rw [close, hblocks]
            rfl
          rw [hpure, Run.pure_bind, hpure]
      | cons block outer =>
          by_cases hstop : block.stop = index
          · rw [close_of_not_boundary hblocks hstop hboundary]
            rfl
          · have hpure : s.close index = .pure s := by
              rw [close, hblocks]
              simp only [closingLines, if_neg hstop]
            rw [hpure, Run.pure_bind, hpure]

theorem liftFrom_bind_close (c : Context) (length index : Nat) (s : State) (xs : List Instruction) :
    ((liftFrom c length index s xs).bind fun s => s.close (index + xs.length)) =
      liftFrom c length index s xs := by
  induction xs generalizing index s with
  | nil => exact close_bind_close s index
  | cons x xs ih =>
      have hindex : index + (x :: xs).length = index + 1 + xs.length := by
        rw [List.length_cons]
        omega
      rw [hindex]
      simp only [liftFrom, Run.bind_assoc, ih]

/-- One piece of a body after another. -/
theorem liftFrom_append (c : Context) (length index : Nat) (s : State) (xs ys : List Instruction) :
    liftFrom c length index s (xs ++ ys) =
      (liftFrom c length index s xs).bind fun s => liftFrom c length (index + xs.length) s ys := by
  cases ys with
  | nil =>
      rw [List.append_nil]
      exact (liftFrom_bind_close c length index s xs).symm
  | cons y ys =>
      -- What comes first has closed the bodies that end at `y` already.
      have hclosed := liftFrom_bind_close c length index s xs
      rw [liftFrom_append_cons, ← hclosed, Run.bind_assoc, hclosed]
      rfl

/-- Lifting starts with closing the bodies that end where it starts. -/
theorem close_bind_liftFrom (c : Context) (length index : Nat) (s : State) (xs : List Instruction) :
    ((s.close index).bind fun s => liftFrom c length index s xs) = liftFrom c length index s xs :=
  (liftFrom_append c length index s [] xs).symm

/-- Lifting goes on inside of the body that a conditional jump enters. -/
theorem liftFrom_jumpIfFalse (c : Context) {length index stop : Nat} {s : State} (hforward : index < stop)
    (hreach : s.blocks.ReachTo stop) (hlength : stop ≤ length) (xs : List Instruction) :
    liftFrom c length index s (.jumpIfFalse stop :: xs) =
      (s.enterIf c index stop).bind fun (_, inside) => liftFrom c length (index + 1) inside xs := by
  rw [liftFrom, close_eq_pure (hreach.mono hforward), Run.pure_bind,
    visit_jumpIfFalse c hforward hreach hlength, Run.bind_assoc]
  rfl

/-- Lifting goes on inside of the `else` body that a jump switches to. -/
theorem liftFrom_jump (c : Context) {length index stop : Nat} {s : State} {outer : Blocks}
    (hblocks : s.blocks = .ifBody (index + 1) :: outer) (hforward : index + 1 < stop)
    (hreach : outer.ReachTo stop) (hlength : stop ≤ length) (xs : List Instruction) :
    liftFrom c length index s (.jump stop :: xs) =
      (s.switchElse index stop).bind fun inside => liftFrom c length (index + 1) inside xs := by
  have hopen : s.blocks.ReachTo (index + 1) := by
    rw [hblocks]
    exact (hreach.mono (Nat.le_of_lt hforward)).cons _ (Nat.le_refl _)
  rw [liftFrom, close_eq_pure hopen, Run.pure_bind, visit_jump c hblocks hforward hreach hlength]

/-- Lifting goes on outside of a body that ends where it starts. -/
theorem liftFrom_leave (c : Context) {length index : Nat} {s : State} {block : Block} {outer : Blocks}
    (hblocks : s.blocks = block :: outer) (hstop : block.stop = index) (xs : List Instruction) :
    liftFrom c length index s xs =
      (s.leaveBody index).bind fun outside => liftFrom c length index outside xs := by
  rw [← close_bind_liftFrom, close_eq_leaveBody hblocks hstop, Run.bind_assoc]
  simp only [close_bind_liftFrom]

/-! ## What a lifted tree consists of -/

/-- How a visit that succeeds comes about. -/
theorem visit_eq_ok {c : Context} {length index : Nat} {s next : State} {i : Instruction}
    {events : List Event} (h : s.visit c length index i = ⟨events, .ok next⟩) :
    ∃ later, s.step c length index i = .ok (next, later) ∧
      events = .visited index i s.depth :: later := by
  simp only [visit] at h
  split at h
  · rename_i next' later hstep
    cases h
    exact ⟨later, hstep, rfl⟩
  · cases h

end State

/-- The cases of lifting a tree without a failure: the state before, the tree, the events, the nested statements and
the state after. -/
inductive Nesting.Lifts (c : Context) :
    Nat → State → JumpTree → List Event → PlacedNesting → State → Prop
  | nil {index : Nat} {s : State} : Lifts c index s .nil [] .nil s
  | leaf {index : Nat} {s next last : State} {a : Plain} {rest : JumpTree} {now later : List Event}
      {statement : Option Statement} {lines : PlacedNesting}
      (hplain : s.PlainStep c (a.at index) next statement)
      (hnow : State.StepEvents s.depth statement now)
      (hrest : Lifts c (index + 1) next rest later lines last) :
      Lifts c index s (.leaf a rest) (.visited index (a.at index) s.depth :: (now ++ later))
        (leaves (statement.toList.map (Prod.mk index)) lines) last
  | ifThen {index stop : Nat} {s inside last : State} {body rest : JumpTree} {condition : Expr}
      {within later : List Event} {inner lines : PlacedNesting} (hstop : stop = index + 1 + body.size)
      (hstack : s.stack = [.operand ⟨c.prim .bool, condition⟩])
      (hbody : Lifts c (index + 1) { s with stack := [], blocks := .ifBody stop :: s.blocks } body
        within inner inside)
      (hinside : inside.stack = [])
      (hrest : Lifts c stop { inside with blocks := inside.blocks.tail } rest later lines last) :
      Lifts c index s (.ifThen () body rest)
        (.visited index (.jumpIfFalse stop) s.depth :: .emitted ⟨s.depth, .openIf condition⟩ ::
          (within ++ .emitted ⟨inside.depth - 1, .close⟩ :: later))
        (.ifThen (index, condition) inner lines) last
  | ifElse {index middle stop : Nat} {s inside switched last : State} {body other rest : JumpTree}
      {condition : Expr} {within without later : List Event} {inner alternative lines : PlacedNesting}
      (hmiddle : middle = index + 1 + body.size) (hstop : stop = middle + 1 + other.size)
      (hstack : s.stack = [.operand ⟨c.prim .bool, condition⟩])
      (hbody : Lifts c (index + 1) { s with stack := [], blocks := .ifBody (middle + 1) :: s.blocks }
        body within inner inside)
      (hinside : inside.stack = [])
      (hother : Lifts c (middle + 1) { inside with blocks := .elseBody stop :: inside.blocks.tail }
        other without alternative switched)
      (hswitched : switched.stack = [])
      (hrest : Lifts c stop { switched with blocks := switched.blocks.tail } rest later lines last) :
      Lifts c index s (.ifElse () body other rest)
        (.visited index (.jumpIfFalse (middle + 1)) s.depth :: .emitted ⟨s.depth, .openIf condition⟩ ::
          (within ++ .visited middle (.jump stop) inside.depth ::
            .emitted ⟨inside.depth - 1, .openElse⟩ ::
              (without ++ .emitted ⟨switched.depth - 1, .close⟩ :: later)))
        (.ifElse (index, condition) inner alternative lines) last

/-- The line of a plain instruction is the one that its events add. -/
theorem State.StepEvents.filterMap_line? {depth : Nat} {statement : Option Statement}
    {events : List Event} (h : StepEvents depth statement events) :
    events.filterMap Event.line? = statement.toList.map (Line.mk depth) := by
  obtain ⟨reports, rfl, hreports⟩ := h
  have hnone : reports.filterMap Event.line? = [] := by
    rw [List.filterMap_eq_nil_iff]
    intro event hmem
    obtain ⟨name, declared, assigned, rfl⟩ := hreports event hmem
    rfl
  rw [List.filterMap_append, hnone]
  cases statement with
  | none => rfl
  | some statement => rfl

/-- Lifting a tree without a failure is one of the cases. -/
theorem Nesting.lifts_of_lift {c : Context} {length index : Nat} {s last : State} {t : JumpTree}
    {lines : PlacedNesting} {events : List Event}
    (h : t.lift c length index s = ⟨events, .ok (lines, last)⟩) :
    t.Lifts c index s events lines last := by
  -- A run succeeds only if each of its parts does, so the runs are taken apart one by one.
  induction t generalizing index s last lines events with
  | nil =>
      cases h
      exact .nil
  | leaf a rest ih =>
      obtain ⟨next, _, _, hvisit, hafter, rfl⟩ := Run.bind_eq_ok_iff.mp h
      obtain ⟨⟨lines', last'⟩, _, _, hlift, hpure, rfl⟩ := Run.bind_eq_ok_iff.mp hafter
      obtain ⟨now, hstep, rfl⟩ := State.visit_eq_ok hvisit
      obtain ⟨statement, hplain, hnow⟩ := State.plainStep_of_step hstep
      have hlines : (s.visit c length index (a.at index)).lines =
          statement.toList.map (Line.mk s.depth) := by
        rw [hvisit]
        exact hnow.filterMap_line?
      have hlifts := Lifts.leaf hplain hnow (ih hlift)
      cases hpure
      simpa only [hlines, List.map_map, Function.comp_def, List.append_nil, List.cons_append] using hlifts
  | ifThen c' body rest ihBody ihRest =>
      obtain ⟨⟨condition, inside⟩, _, _, henter, hthen, rfl⟩ := Run.bind_eq_ok_iff.mp h
      obtain ⟨⟨inner, inside'⟩, _, _, hbody, hend, rfl⟩ := Run.bind_eq_ok_iff.mp hthen
      obtain ⟨outside, _, _, hleave, hafter, rfl⟩ := Run.bind_eq_ok_iff.mp hend
      obtain ⟨⟨lines', last'⟩, _, _, hrest, hpure, rfl⟩ := Run.bind_eq_ok_iff.mp hafter
      obtain ⟨hstack, rfl, rfl⟩ := State.enterIf_eq_ok henter
      obtain ⟨hinside, rfl, rfl⟩ := State.leaveBody_eq_ok hleave
      cases hpure
      have hlifts := Lifts.ifThen rfl hstack (ihBody hbody) hinside (ihRest hrest)
      simpa only [List.append_nil, List.cons_append, List.nil_append] using hlifts
  | ifElse c' body other rest ihBody ihOther ihRest =>
      obtain ⟨⟨condition, inside⟩, _, _, henter, hthen, rfl⟩ := Run.bind_eq_ok_iff.mp h
      obtain ⟨⟨inner, inside'⟩, _, _, hbody, hmiddle, rfl⟩ := Run.bind_eq_ok_iff.mp hthen
      obtain ⟨switched, _, _, hswitch, helse, rfl⟩ := Run.bind_eq_ok_iff.mp hmiddle
      obtain ⟨⟨alternative, switched'⟩, _, _, hother, hend, rfl⟩ := Run.bind_eq_ok_iff.mp helse
      obtain ⟨outside, _, _, hleave, hafter, rfl⟩ := Run.bind_eq_ok_iff.mp hend
      obtain ⟨⟨lines', last'⟩, _, _, hrest, hpure, rfl⟩ := Run.bind_eq_ok_iff.mp hafter
      obtain ⟨hstack, rfl, rfl⟩ := State.enterIf_eq_ok henter
      obtain ⟨hinside, rfl, rfl⟩ := State.switchElse_eq_ok hswitch
      obtain ⟨hswitched, rfl, rfl⟩ := State.leaveBody_eq_ok hleave
      cases hpure
      have hlifts := Lifts.ifElse rfl rfl hstack (ihBody hbody) hinside (ihOther hother) hswitched
        (ihRest hrest)
      simpa only [List.append_nil, List.cons_append, List.nil_append] using hlifts

/-- A tree is lifted in the bodies around it. -/
theorem Nesting.Lifts.blocks_eq {c : Context} {index : Nat} {s last : State} {t : JumpTree}
    {events : List Event} {lines : PlacedNesting} (h : t.Lifts c index s events lines last) :
    last.blocks = s.blocks := by
  induction h with
  | nil => rfl
  | leaf hplain hnow hrest ih => rw [ih, hplain.blocks_eq]
  | ifThen hstop hstack hbody hinside hrest ihBody ihRest => rw [ihRest, ihBody, List.tail_cons]
  | ifElse hmiddle hstop hstack hbody hinside hother hswitched hrest ihBody ihOther ihRest =>
      rw [ihRest, ihOther, List.tail_cons, ihBody, List.tail_cons]

/-! ## Lifting a flattened tree -/

/-- Lifting a flattened tree is lifting the tree and closing the bodies that end with it. -/
theorem State.liftFrom_flatten {c : Context} {length index : Nat} {s : State} {t : JumpTree}
    (hproper : t.Proper) (hreach : s.blocks.ReachTo (index + t.size))
    (hlength : index + t.size ≤ length) :
    liftFrom c length index s (t.flatten index) =
      (t.lift c length index s).bind fun (_, last) => last.close (index + t.size) := by
  induction t generalizing index s with
  | nil => rfl
  | leaf a rest ih =>
      have hsize := Nesting.add_size_leaf index a rest
      rw [hsize] at hreach hlength ⊢
      have hopen : s.close index = .pure s := close_eq_pure (hreach.mono (by omega))
      simp only [Nesting.flatten, liftFrom, Nesting.lift, hopen, Run.pure_bind, Run.bind_assoc]
      apply Run.bind_congr
      intro events next hvisit
      obtain ⟨later, hstep, -⟩ := visit_eq_ok hvisit
      obtain ⟨statement, hplain, -⟩ := plainStep_of_step hstep
      rw [← hplain.blocks_eq] at hreach
      exact ih hproper hreach hlength
  | ifThen c' body rest ihBody ihRest =>
      obtain ⟨hbody, hrest⟩ := hproper
      have hsize : index + Nesting.size (.ifThen c' body rest) = index + 1 + body.size + rest.size :=
        Nesting.add_size_ifThen rfl rest
      rw [hsize] at hreach hlength ⊢
      have hstop : s.blocks.ReachTo (index + 1 + body.size) := hreach.mono (by omega)
      rw [Nesting.flatten, liftFrom_jumpIfFalse c (by omega) hstop (by omega), Nesting.lift,
        Run.bind_assoc]
      apply Run.bind_congr
      rintro _ ⟨condition, inside⟩ henter
      have hinside : inside.blocks = .ifBody (index + 1 + body.size) :: s.blocks := by
        rw [(enterIf_eq_ok henter).2.1]
      have hreachInside : inside.blocks.ReachTo (index + 1 + body.size) := by
        rw [hinside]
        exact hstop.cons _ (Nat.le_refl _)
      simp only [liftFrom_append, Nesting.length_flatten, ihBody hbody hreachInside (by omega),
        Run.bind_assoc]
      apply Run.bind_congr
      rintro _ ⟨inner, inside'⟩ hlift
      have hinside' := (Nesting.lifts_of_lift hlift).blocks_eq.trans hinside
      simp only [close_bind_liftFrom]
      -- The body ends where lifting goes on, so it is left before the next instruction.
      refine (liftFrom_leave c hinside' rfl _).trans ?_
      apply Run.bind_congr
      rintro _ outside hleave
      have houtside : outside.blocks = s.blocks := by
        rw [(leaveBody_eq_ok hleave).2.1, hinside', List.tail_cons]
      rw [← houtside] at hreach
      exact ihRest hrest hreach hlength
  | ifElse c' body other rest ihBody ihOther ihRest =>
      obtain ⟨hbody, hne, hother, hrest⟩ := hproper
      have hpos := Nesting.size_pos hne
      have hsize : index + Nesting.size (.ifElse c' body other rest) =
          index + 1 + body.size + 1 + other.size + rest.size :=
        Nesting.add_size_ifElse rfl rfl rest
      rw [hsize] at hreach hlength ⊢
      have hstop : s.blocks.ReachTo (index + 1 + body.size + 1 + other.size) := hreach.mono (by omega)
      have hmiddle : s.blocks.ReachTo (index + 1 + body.size + 1) := hreach.mono (by omega)
      rw [Nesting.flatten, liftFrom_jumpIfFalse c (by omega) hmiddle (by omega), Nesting.lift,
        Run.bind_assoc]
      apply Run.bind_congr
      rintro _ ⟨condition, inside⟩ henter
      have hinside : inside.blocks = .ifBody (index + 1 + body.size + 1) :: s.blocks := by
        rw [(enterIf_eq_ok henter).2.1]
      have hreachInside : inside.blocks.ReachTo (index + 1 + body.size) := by
        rw [hinside]
        exact (hmiddle.mono (Nat.le_succ _)).cons _ (Nat.le_succ _)
      simp only [liftFrom_append, Nesting.length_flatten, ihBody hbody hreachInside (by omega),
        Run.bind_assoc]
      apply Run.bind_congr
      rintro _ ⟨inner, inside'⟩ hlift
      have hinside' := (Nesting.lifts_of_lift hlift).blocks_eq.trans hinside
      -- The jump over the alternative still belongs to the `if` body, so nothing ends before it.
      simp only [close_bind_liftFrom]
      rw [liftFrom_jump c hinside' (by omega) hstop (by omega)]
      apply Run.bind_congr
      rintro _ switched hswitch
      have hswitched : switched.blocks =
          .elseBody (index + 1 + body.size + 1 + other.size) :: s.blocks := by
        rw [(switchElse_eq_ok hswitch).2.1, hinside', List.tail_cons]
      have hreachSwitched : switched.blocks.ReachTo (index + 1 + body.size + 1 + other.size) := by
        rw [hswitched]
        exact hstop.cons _ (Nat.le_refl _)
      simp only [liftFrom_append, Nesting.length_flatten, ihOther hother hreachSwitched (by omega),
        Run.bind_assoc]
      apply Run.bind_congr
      rintro _ ⟨alternative, switched'⟩ hlift'
      have hswitched' := (Nesting.lifts_of_lift hlift').blocks_eq.trans hswitched
      simp only [close_bind_liftFrom]
      refine (liftFrom_leave c hswitched' rfl _).trans ?_
      apply Run.bind_congr
      rintro _ outside hleave
      have houtside : outside.blocks = s.blocks := by
        rw [(leaveBody_eq_ok hleave).2.1, hswitched', List.tail_cons]
      rw [← houtside] at hreach
      exact ihRest hrest hreach hlength

end ShaderLift
