import ShaderLift.Proofs.Extents
import ShaderLift.Proofs.LexicalScope

/-!
# The instructions that lines come from

Every line of a lifted function belongs to one instruction: a statement to the one it was lifted from, and the edges of
a conditional body to the conditional jump that opened it.  The edges are matched like brackets.

* `Event.ownedLines`: the lines that events add, each with its instruction, if the edges are balanced.
* `Writes`: the lines of an instruction, in order.
* `Attributes`: the events and lines of some instructions in a row, composed from those of its parts.
* `attributes_of_lift`: the events and lines of a lifted function.
-/

namespace ShaderLift

/-! ## Matching the edges of bodies -/

/-- The instruction of each mark, where `opened` are the conditional jumps whose bodies are open, innermost first.
There is no answer if an edge has no body to belong to or if a body is left open. -/
def Mark.owners {α β : Type} : List Nat → List (Mark (Nat × α) (Nat × β)) → Option (List Nat)
  | [], [] => some []
  | _ :: _, [] => none
  | opened, .leaf (index, _) :: rest => (owners opened rest).map (index :: ·)
  | opened, .openIf (index, _) :: rest => (owners (index :: opened) rest).map (index :: ·)
  | [], .openElse :: _ => none
  | opener :: outer, .openElse :: rest => (owners (opener :: outer) rest).map (opener :: ·)
  | [], .close :: _ => none
  | opener :: outer, .close :: rest => (owners outer rest).map (opener :: ·)

/-- The lines that events add, each with the instruction that it belongs to. -/
def Event.ownedLines (events : List Event) : Option (List (Nat × Line)) :=
  (Mark.owners [] (Event.marks 0 events)).map (·.zip (events.filterMap Event.line?))

/-- The lines of nested statements, each with the instruction that it belongs to. -/
def Nesting.ownedLines (depth : Nat) : PlacedNesting → List (Nat × Line)
  | nil => []
  | leaf (index, statement) rest => (index, ⟨depth, statement⟩) :: rest.ownedLines depth
  | ifThen (index, condition) body rest =>
      (index, ⟨depth, .openIf condition⟩) ::
        (body.ownedLines (depth + 1) ++ (index, ⟨depth, .close⟩) :: rest.ownedLines depth)
  | ifElse (index, condition) body other rest =>
      (index, ⟨depth, .openIf condition⟩) ::
        (body.ownedLines (depth + 1) ++ (index, ⟨depth, .openElse⟩) ::
          (other.ownedLines (depth + 1) ++ (index, ⟨depth, .close⟩) :: rest.ownedLines depth))

namespace Nesting

theorem map_snd_ownedLines (depth : Nat) (t : PlacedNesting) :
    (t.ownedLines depth).map Prod.snd = t.statements.lines depth := by
  induction t generalizing depth with
  | nil => rfl
  | leaf a rest ih => rw [ownedLines, List.map_cons, ih]; rfl
  | ifThen a body rest ihBody ihRest =>
      rw [ownedLines, List.map_cons, List.map_append, List.map_cons, ihBody, ihRest]
      rfl
  | ifElse a body other rest ihBody ihOther ihRest =>
      rw [ownedLines, List.map_cons, List.map_append, List.map_cons, List.map_append, List.map_cons, ihBody, ihOther,
        ihRest]
      rfl

/-- The edges of a nesting match, whatever is open around it. -/
theorem owners_marks_append (t : PlacedNesting) (depth : Nat) (opened : List Nat)
    (rest : List (Mark (Nat × Statement) (Nat × Expr))) :
    Mark.owners opened (t.marks ++ rest) =
      (Mark.owners opened rest).map ((t.ownedLines depth).map Prod.fst ++ ·) := by
  induction t generalizing depth opened rest with
  | nil => exact Option.map_id_apply.symm
  | leaf a after ih =>
      rw [marks, List.cons_append, Mark.owners, ih depth, Option.map_map]
      rfl
  | ifThen a body after ihBody ihAfter =>
      rw [marks, List.cons_append, List.append_assoc, Mark.owners, ihBody (depth + 1), List.cons_append, Mark.owners,
        ihAfter depth]
      simp only [Option.map_map, ownedLines, List.map_cons, List.map_append]
      congr 1
      funext owners
      simp
  | ifElse a body other after ihBody ihOther ihAfter =>
      rw [marks, List.cons_append, List.append_assoc, Mark.owners, ihBody (depth + 1), List.cons_append, Mark.owners,
        List.append_assoc, ihOther (depth + 1), List.cons_append, Mark.owners, ihAfter depth]
      simp only [Option.map_map, ownedLines, List.map_cons, List.map_append]
      congr 1
      funext owners
      simp

/-- Events that show a nesting add its lines, and each edge belongs to the conditional of the nesting. -/
theorem ownedLines_of_shows {events : List Event} {t : PlacedNesting} {depth : Nat}
    (h : Event.Shows events (t.statements.lines depth) t.marks) :
    Event.ownedLines events = some (t.ownedLines depth) := by
  have howners := t.owners_marks_append depth [] []
  rw [List.append_nil] at howners
  rw [Event.ownedLines, h.marks_eq, howners, h.lines_eq, ← map_snd_ownedLines]
  simp [Mark.owners, List.zip_map']

end Nesting

/-! ## The lines of one instruction -/

/-- The lines of the instruction at an index, in order. -/
def linesAt (owned : List (Nat × Line)) (index : Nat) : List Line :=
  (owned.filter (·.1 == index)).map Prod.snd

section LinesAt

variable {index start stop : Nat} {owned : List (Nat × Line)}

@[simp] theorem linesAt_append (before after : List (Nat × Line)) (index : Nat) :
    linesAt (before ++ after) index = linesAt before index ++ linesAt after index := by
  rw [linesAt, List.filter_append, List.map_append]
  rfl

@[simp] theorem linesAt_cons_self (line : Line) (rest : List (Nat × Line)) (index : Nat) :
    linesAt ((index, line) :: rest) index = line :: linesAt rest index := by
  rw [linesAt, List.filter_cons, if_pos (beq_self_eq_true index)]
  rfl

/-- The lines belong to instructions from `start` on and before `stop`. -/
def OwnedWithin (start stop : Nat) (owned : List (Nat × Line)) : Prop :=
  ∀ line ∈ owned, start ≤ line.1 ∧ line.1 < stop

theorem OwnedWithin.linesAt_eq_nil (h : OwnedWithin start stop owned) (hout : index < start ∨ stop ≤ index) :
    linesAt owned index = [] := by
  have hnone : owned.filter (·.1 == index) = [] := by
    rw [List.filter_eq_nil_iff]
    intro line hmem heq
    have hbounds := h line hmem
    rw [beq_iff_eq] at heq
    omega
  rw [linesAt, hnone]
  rfl

/-- Where an instruction has one line, it is the only entry for the instruction. -/
theorem filter_eq_of_linesAt {line : Line} (h : linesAt owned index = [line]) :
    owned.filter (·.1 == index) = [(index, line)] := by
  obtain ⟨⟨other, line'⟩, hfilter, hline⟩ := List.map_eq_singleton_iff.mp h
  have hmem : (other, line') ∈ owned.filter (·.1 == index) := by
    rw [hfilter]
    exact List.mem_singleton_self _
  have hother := beq_iff_eq.mp (List.mem_filter.mp hmem).2
  rw [hfilter, ← hother, ← hline]

theorem OwnedWithin.filter_ne (h : OwnedWithin start stop owned) (hlt : index < start) :
    owned.filter (·.1 != index) = owned := by
  rw [List.filter_eq_self]
  intro line hmem
  have hbounds := h line hmem
  exact bne_iff_ne.mpr (by omega)

end LinesAt

/-- Whether an instruction adds no line of its own. -/
def Instruction.isQuiet : Instruction → Bool
  | storeLocal _ | pop | ret | jumpIfFalse _ => false
  | _ => true

/-- The lines of the instruction at an index: stores, dropped values and returns have one, a conditional jump has the
edges of its bodies, and all are as deep as the instruction. -/
inductive Writes (seeded : Scope) (body : List Instruction) (index : Nat) : Instruction → List Line → Prop
  /-- The first store to a variable that is not there from the start. -/
  | declare {name : String} {type : TypeId} {value : Expr} (h : DeclaresAt seeded body index name) :
      Writes seeded body index (.storeLocal name) [⟨depthAt body index, .declare type name value⟩]
  | assign {name : String} {value : Expr} (h : isVariable seeded body index name = true) :
      Writes seeded body index (.storeLocal name) [⟨depthAt body index, .assign name value⟩]
  | eval {value : Expr} : Writes seeded body index .pop [⟨depthAt body index, .eval value⟩]
  | ret {value : Option Expr} : Writes seeded body index .ret [⟨depthAt body index, .ret value⟩]
  | ifThen {target : Nat} {condition : Expr} (h : extent? body index = some target) :
      Writes seeded body index (.jumpIfFalse target)
        [⟨depthAt body index, .openIf condition⟩, ⟨depthAt body index, .close⟩]
  | ifElse {target stop : Nat} {condition : Expr} (h : extent? body index = some stop) (hne : stop ≠ target) :
      Writes seeded body index (.jumpIfFalse target)
        [⟨depthAt body index, .openIf condition⟩, ⟨depthAt body index, .openElse⟩, ⟨depthAt body index, .close⟩]
  | quiet {i : Instruction} (h : i.isQuiet = true) : Writes seeded body index i []

/-- The line of a plain instruction. -/
theorem State.PlainStep.writes {c : Context} {s next : State} {i : Instruction} {index : Nat}
    {statement : Option Statement} (h : s.PlainStep c i next statement) {seeded : Scope} {body : List Instruction}
    (hcode : body[index]? = some i) (htracks : s.Tracks seeded body index) (hdepth : s.depth = depthAt body index) :
    Writes seeded body index i (statement.toList.map (Line.mk s.depth)) := by
  rw [hdepth]
  cases h with
  | number htype => exact .quiet rfl
  | «variable» hscope hi => rcases hi with rfl | rfl <;> exact .quiet rfl
  | callable hresolve hi => rcases hi with rfl | ⟨rfl, -⟩ <;> exact .quiet rfl
  | binary hstack htype => exact .quiet rfl
  | call hstack hsignature => exact .quiet rfl
  | @assign name value rest declared hstack hscope =>
      refine .assign ?_
      rw [← htracks.scope, hscope, Option.isSome_some]
  | @declare name value rest hstack hscope =>
      refine .declare ⟨hcode, ?_⟩
      rw [← htracks.scope, hscope, Option.isSome_none]
  | eval hstack => exact .eval
  | ret hstack hreturns => exact .ret
  | retValue hstack hreturns => exact .ret
  | skip hstack => exact .quiet rfl

/-! ## Instructions in a row -/

/-- The reports that instructions are visited, each with its depth in the whole body. -/
def visits (body : List Instruction) (start : Nat) (xs : List Instruction) : List Event :=
  (xs.zipIdx start).map fun (i, index) => .visited index i (depthAt body index)

/-- Whether an event reports that an instruction is visited. -/
def Event.isVisit (event : Event) : Bool :=
  event.level? == some .trace

/-- What happens at instructions that stand in the body from `start` on: each of them is visited once, in order, and has
the lines that it writes. -/
structure Attributes (seeded : Scope) (body : List Instruction) (start : Nat) (xs : List Instruction)
    (events : List Event) (owned : List (Nat × Line)) : Prop where
  visited : events.filter Event.isVisit = visits body start xs
  within : OwnedWithin start (start + xs.length) owned
  written : ∀ index i, start ≤ index → index < start + xs.length → body[index]? = some i →
    Writes seeded body index i (linesAt owned index)

namespace Attributes

variable {seeded : Scope} {body : List Instruction} {index start : Nat} {xs ys : List Instruction}
  {events later : List Event} {owned ownedLater : List (Nat × Line)}

theorem nil (seeded : Scope) (body : List Instruction) (start : Nat) : Attributes seeded body start [] [] [] where
  visited := rfl
  within := nofun
  written _ _ hle hlt := absurd hlt (Nat.not_lt_of_le hle)

/-- Some instructions after others. -/
theorem append {middle : Nat} (h : Attributes seeded body start xs events owned)
    (hmiddle : middle = start + xs.length) (h' : Attributes seeded body middle ys later ownedLater) :
    Attributes seeded body start (xs ++ ys) (events ++ later) (owned ++ ownedLater) where
  visited := by
    rw [List.filter_append, h.visited, h'.visited, hmiddle, visits, visits, visits, List.zipIdx_append,
      List.map_append]
  within := by
    intro line hmem
    rw [List.length_append]
    rcases List.mem_append.mp hmem with hmem | hmem
    · have hbounds := h.within line hmem
      omega
    · have hbounds := h'.within line hmem
      omega
  written := by
    intro index i hle hlt hcode
    rw [List.length_append] at hlt
    rw [linesAt_append]
    by_cases hfirst : index < start + xs.length
    · rw [h'.within.linesAt_eq_nil (.inl (by omega)), List.append_nil]
      exact h.written index i hle hfirst hcode
    · rw [h.within.linesAt_eq_nil (.inr (by omega)), List.nil_append]
      exact h'.written index i (by omega) (by omega) hcode

/-- Reports of changed types and lines do not count as visits. -/
theorem filter_isVisit {depth : Nat} {statement : Option Statement} {now : List Event}
    (h : State.StepEvents depth statement now) : now.filter Event.isVisit = [] := by
  obtain ⟨reports, rfl, hreports⟩ := h
  rw [List.filter_eq_nil_iff]
  intro event hmem
  rcases List.mem_append.mp hmem with hmem | hmem
  · obtain ⟨name, declared, assigned, rfl⟩ := hreports event hmem
    exact Bool.false_ne_true
  · obtain ⟨added, -, rfl⟩ := Option.map_eq_some_iff.mp (Option.mem_toList.mp hmem)
    exact Bool.false_ne_true

/-- One plain instruction. -/
theorem plain {c : Context} {s next : State} {i : Instruction} {statement : Option Statement} {now : List Event}
    (h : s.PlainStep c i next statement) (hnow : State.StepEvents s.depth statement now)
    (hcode : body[index]? = some i) (htracks : s.Tracks seeded body index) (hdepth : s.depth = depthAt body index) :
    Attributes seeded body index [i] (.visited index i s.depth :: now)
      (statement.toList.map fun statement => (index, ⟨s.depth, statement⟩)) where
  visited := by
    rw [List.filter_cons_of_pos rfl, filter_isVisit hnow, hdepth]
    rfl
  within := by
    intro line hmem
    obtain ⟨statement, -, rfl⟩ := List.mem_map.mp hmem
    exact ⟨Nat.le_refl index, Nat.lt_succ_self index⟩
  written := by
    intro other i' hle hlt hcode'
    obtain rfl : index = other := by
      rw [List.length_singleton] at hlt
      omega
    obtain rfl := Option.some.inj (hcode.symm.trans hcode')
    have hlines : linesAt (statement.toList.map fun statement => (index, ⟨s.depth, statement⟩)) index =
        statement.toList.map (Line.mk s.depth) := by
      cases statement with
      | none => rfl
      | some statement => exact linesAt_cons_self _ _ _
    rw [hlines]
    exact h.writes hcode htracks hdepth

/-- A conditional jump around other instructions: without its own lines, the lines are those of the others. -/
theorem around {i : Instruction} {around : List Event} {ownedAround : List (Nat × Line)}
    (h : Attributes seeded body (index + 1) xs events owned) (hcode : body[index]? = some i)
    (hvisits : around.filter Event.isVisit = .visited index i (depthAt body index) :: events.filter Event.isVisit)
    (hothers : ownedAround.filter (·.1 != index) = owned)
    (hwrites : Writes seeded body index i (linesAt ownedAround index)) :
    Attributes seeded body index (i :: xs) around ownedAround where
  visited := by
    rw [hvisits, h.visited]
    rfl
  within := by
    intro line hmem
    rw [List.length_cons]
    by_cases hown : line.1 = index
    · omega
    · have hmem' : line ∈ owned := by
        rw [← hothers, List.mem_filter]
        exact ⟨hmem, bne_iff_ne.mpr hown⟩
      have hbounds := h.within line hmem'
      omega
  written := by
    intro other i' hle hlt hcode'
    rw [List.length_cons] at hlt
    rcases Nat.eq_or_lt_of_le hle with rfl | hafter
    · obtain rfl := Option.some.inj (hcode.symm.trans hcode')
      exact hwrites
    · have hlines : linesAt ownedAround other = linesAt owned other := by
        rw [linesAt, linesAt, ← hothers, List.filter_filter]
        congr 2
        funext line
        by_cases hother : line.1 = other
        · have hne : line.1 ≠ index := by omega
          simp [hother, hother ▸ hne]
        · simp [hother]
      rw [hlines]
      exact h.written other i' hafter (by omega) hcode'

/-- A conditional without an alternative: its two edges stand around the lines of its body. -/
theorem ifThen {target depth : Nat} (h : Attributes seeded body (index + 1) xs events owned)
    (hcode : body[index]? = some (.jumpIfFalse target)) (hextent : extent? body index = some target)
    (hdepth : depthAt body index = depth) (condition : Expr) (opening closing : Line) :
    Attributes seeded body index (.jumpIfFalse target :: xs)
      (.visited index (.jumpIfFalse target) depth :: .emitted opening :: (events ++ [.emitted closing]))
      ((index, ⟨depth, .openIf condition⟩) :: (owned ++ [(index, ⟨depth, .close⟩)])) := by
  have hlater : index < index + 1 := Nat.lt_succ_self index
  subst hdepth
  refine h.around hcode ?_ ?_ ?_
  · simp [Event.isVisit, Event.level?]
  · simp [h.within.filter_ne hlater]
  · simp only [linesAt_cons_self, linesAt_append, h.within.linesAt_eq_nil (.inl hlater), List.nil_append]
    exact .ifThen hextent

/-- A conditional with an alternative: the jump over the alternative has no line of its own, and the edge between the
bodies belongs to the conditional jump. -/
theorem ifElse {target stop middle depth inside : Nat}
    (h : Attributes seeded body (index + 1) xs events owned) (hmiddle : middle = index + 1 + xs.length)
    (hjump : Attributes seeded body middle [.jump stop] [.visited middle (.jump stop) inside] [])
    (h' : Attributes seeded body (middle + 1) ys later ownedLater)
    (hcode : body[index]? = some (.jumpIfFalse target)) (hextent : extent? body index = some stop)
    (hne : stop ≠ target) (hdepth : depthAt body index = depth) (condition : Expr) (opening switching closing : Line) :
    Attributes seeded body index (.jumpIfFalse target :: (xs ++ .jump stop :: ys))
      (.visited index (.jumpIfFalse target) depth :: .emitted opening ::
        (events ++ .visited middle (.jump stop) inside :: .emitted switching :: (later ++ [.emitted closing])))
      ((index, ⟨depth, .openIf condition⟩) :: (owned ++ (index, ⟨depth, .openElse⟩) ::
        (ownedLater ++ [(index, ⟨depth, .close⟩)]))) := by
  have hlater : index < index + 1 := Nat.lt_succ_self index
  have hlater' : index < middle + 1 := by omega
  have hinside := h.append hmiddle (hjump.append rfl h')
  subst hdepth
  refine hinside.around hcode ?_ ?_ ?_
  · simp [Event.isVisit, Event.level?]
  · simp [h.within.filter_ne hlater, h'.within.filter_ne hlater']
  · simp only [linesAt_cons_self, linesAt_append, h.within.linesAt_eq_nil (.inl hlater),
      h'.within.linesAt_eq_nil (.inl hlater'), List.nil_append]
    exact .ifElse hextent hne

/-- A line of a whole body is one of those that its instruction writes. -/
theorem writes_of_mem (h : Attributes seeded body 0 body events owned) {line : Line} (hmem : (index, line) ∈ owned) :
    ∃ i, body[index]? = some i ∧ Writes seeded body index i (linesAt owned index) ∧ line ∈ linesAt owned index := by
  have hbounds := h.within _ hmem
  have hlt : index < body.length := by omega
  have hcode : body[index]? = some (body.get ⟨index, hlt⟩) := List.getElem?_eq_getElem hlt
  refine ⟨_, hcode, h.written index _ (Nat.zero_le index) hbounds.2 hcode, ?_⟩
  exact List.mem_map.mpr ⟨(index, line), List.mem_filter.mpr ⟨hmem, beq_self_eq_true index⟩, rfl⟩

end Attributes

theorem Nesting.ownedLines_leaves (depth index : Nat) (statement : Option Statement) (t : PlacedNesting) :
    (leaves (statement.toList.map (Prod.mk index)) t).ownedLines depth =
      (statement.toList.map fun statement => (index, ⟨depth, statement⟩)) ++ t.ownedLines depth := by
  cases statement <;> rfl

/-- The events and lines of a lifted tree. -/
theorem Nesting.Lifts.attributes {c : Context} {index : Nat} {s last : State} {t : JumpTree} {events : List Event}
    {lines : PlacedNesting} (h : t.Lifts c index s events lines last) {seeded : Scope} {body : List Instruction}
    (hproper : t.Proper) (hcode : CodeAt body index (t.flatten index)) (htracks : s.Tracks seeded body index)
    (hopen : OpenAround body index (index + t.size) s.depth) :
    Attributes seeded body index (t.flatten index) events (lines.ownedLines s.depth) := by
  induction h with
  | nil => exact .nil seeded body _
  | @leaf index s next last a rest now later statement lines hplain hnow hrest ih =>
      obtain ⟨hhead, htail⟩ := hcode.leaf
      have hnext : next.depth = s.depth := by
        rw [State.depth, hplain.blocks_eq, State.depth]
      have hdepth := hopen.depthAt_eq (by rw [size]; omega)
      rw [add_size_leaf] at hopen
      have hfirst := Attributes.plain hplain hnow hhead htracks hdepth.symm
      have hafter := ih hproper htail (hplain.tracks hhead htracks) (hnext ▸ hopen.next (extent?_of_plain hhead))
      rw [hnext] at hafter
      rw [ownedLines_leaves]
      exact hfirst.append rfl hafter
  | @ifThen index stop s inside last inner rest condition within later inside' lines hstop hstack hbody
      hinside hrest ihBody ihRest =>
      obtain ⟨hinner, hproperRest⟩ := hproper
      obtain ⟨hhead, hinnerCode, hafter⟩ := hcode.ifThen hstop
      have hextent := extent?_of_ifThen hinner hstop hcode
      have hsize := add_size_ifThen hstop rest
      have houtside : State.depth { inside with blocks := inside.blocks.tail } = s.depth := by
        rw [State.depth, hbody.blocks_eq]
        rfl
      have hdepth := hopen.depthAt_eq (by omega)
      have hwithin := ihBody hinner hinnerCode (htracks.enter hhead hstack _)
        ((hopen.enter hextent (by omega)).mono (Nat.le_of_eq hstop.symm))
      have hend := hbody.tracks hinnerCode (htracks.enter hhead hstack (.ifBody stop :: s.blocks))
      rw [← hstop] at hend
      have hlater := ihRest hproperRest hafter (hend.leave _)
        (houtside ▸ hsize ▸ hopen.behind_ifThen hinner hstop hcode)
      rw [houtside] at hlater
      -- The closing line belongs to the conditional jump, though it stands behind the lines of the body.
      have hfirst := hwithin.ifThen hhead hextent hdepth condition ⟨s.depth, .openIf condition⟩
        ⟨inside.depth - 1, .close⟩
      have hlength : stop = index + (.jumpIfFalse stop :: inner.flatten (index + 1)).length := by
        rw [List.length_cons, length_flatten]
        omega
      have hwhole := hfirst.append hlength hlater
      simp only [List.cons_append, List.append_assoc, List.nil_append] at hwhole
      simp only [flatten, ← hstop]
      exact hwhole
  | @ifElse index middle stop s inside switched last inner other rest condition within without later
      inside' alternative lines hmiddle hstop hstack hbody hinside hother hswitched hrest ihBody ihOther
      ihRest =>
      obtain ⟨hinner, hne, hproperOther, hproperRest⟩ := hproper
      have hpos := size_pos hne
      obtain ⟨hhead, hinnerCode, hjump, hotherCode, hafter⟩ := hcode.ifElse hmiddle hstop
      have hextent := extent?_of_ifElse hmiddle hstop hcode
      have hsize := add_size_ifElse hmiddle hstop rest
      have hdepth := hopen.depthAt_eq (by omega)
      -- The two bodies lie one level inside, and so does the jump between them.
      have hopenInside := hopen.enter hextent (by omega)
      have hopenMiddle := hopenInside.skip hinner hinnerCode hmiddle
      have hnone : extent? body middle = none := by simp only [extent?, hjump]
      have hinsideDepth : inside.depth = s.depth + 1 := by
        rw [State.depth, hbody.blocks_eq]
        rfl
      have helseDepth : State.depth { inside with blocks := .elseBody stop :: inside.blocks.tail } = s.depth + 1 := by
        rw [State.depth, hbody.blocks_eq]
        rfl
      have houtside : State.depth { switched with blocks := switched.blocks.tail } = s.depth := by
        rw [State.depth, hother.blocks_eq, hbody.blocks_eq]
        rfl
      have hwithin := ihBody hinner hinnerCode (htracks.enter hhead hstack _) (hopenInside.mono (by omega))
      have hend := hbody.tracks hinnerCode (htracks.enter hhead hstack (.ifBody (middle + 1) :: s.blocks))
      rw [← hmiddle] at hend
      have hswitch := Attributes.plain (c := c) (.skip hinside) (State.stepEvents_intro inside.depth none) hjump hend
        (hinsideDepth.trans (hopenMiddle.depthAt_eq (by omega)).symm)
      have hwithout := ihOther hproperOther hotherCode (hend.switch hjump _)
        (helseDepth ▸ (hopenMiddle.next hnone).mono (Nat.le_of_eq hstop.symm))
      rw [helseDepth] at hwithout
      have hend' := hother.tracks hotherCode (hend.switch hjump (.elseBody stop :: inside.blocks.tail))
      rw [← hstop] at hend'
      have hlater := ihRest hproperRest hafter (hend'.leave _)
        (houtside ▸ hsize ▸ hopen.behind_ifElse ⟨hinner, hne, hproperOther, trivial⟩ hmiddle hstop hcode)
      rw [houtside] at hlater
      have hfirst := hwithin.ifElse (by rw [length_flatten]; exact hmiddle) hswitch hwithout hhead hextent
        (by omega) hdepth condition ⟨s.depth, .openIf condition⟩ ⟨inside.depth - 1, .openElse⟩
        ⟨switched.depth - 1, .close⟩
      have hlength : stop = index + (.jumpIfFalse (middle + 1) :: (inner.flatten (index + 1) ++
          .jump stop :: other.flatten (middle + 1))).length := by
        simp only [List.length_cons, List.length_append, length_flatten]
        omega
      have hwhole := hfirst.append hlength hlater
      simp only [List.cons_append, List.append_assoc, List.nil_append] at hwhole
      simp only [flatten, ← hmiddle, ← hstop]
      exact hwhole

/-- The events of a lifted function visit each instruction once, in order, and every line belongs to the instruction
that writes it. -/
theorem attributes_of_lift {d : Dialect} {function : StackFunction} {args : List TypeId} {bound : List Shader}
    {interface : Interface} {events : List Event} {shader : Shader}
    (h : lift d function args bound interface = ⟨events, .ok shader⟩) :
    ∃ owned, Event.ownedLines events = some owned ∧ owned.map Prod.snd = shader.body ∧
      Attributes (initialScope interface (args.zip function.params)) function.body 0 function.body events owned := by
  obtain ⟨-, within, last, hbody, rfl, rfl⟩ := lift_eq_ok_iff.mp h
  obtain ⟨t, lines, hproper, hflatten, hlifts, -⟩ := State.exists_lifts_of_liftBody hbody
  obtain ⟨hcode, -⟩ := CodeAt.of_flatten hflatten
  have hsize : function.body.length = 0 + t.size := by
    rw [← hflatten, Nesting.length_flatten, Nat.zero_add]
  have hwithin := hlifts.attributes hproper hcode (.start _ _) (hsize ▸ .whole function.body)
  rw [hflatten] at hwithin
  refine ⟨lines.ownedLines 1, ?_, ?_, ?_, hwithin.within, hwithin.written⟩
  · have hshows := hlifts.shows.append (Event.shows_finished (last.returns.getD (d.prim .void))
      (within.filterMap Event.line?).length bound.length)
    rw [List.append_nil, List.append_nil] at hshows
    exact Nesting.ownedLines_of_shows ⟨hshows.lines_eq, hshows.marks_eq⟩
  · rw [Nesting.map_snd_ownedLines]
    exact hlifts.shows.lines_eq.symm
  · rw [List.filter_cons_of_neg Bool.false_ne_true, List.filter_append, hwithin.visited]
    exact List.append_nil _

end ShaderLift
