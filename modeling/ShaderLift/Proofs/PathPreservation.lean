import ShaderLift.Proofs.LiftedLines
import ShaderLift.Proofs.Machine

/-!
# Lifting preserves paths

A body is run twice, with the same outcomes of its conditional jumps.  The jump machine goes over the instructions and
notes the statement instructions that it visits: stores, pops, returns and conditional jumps.  Structured execution goes
over the lifted lines, read as nested conditionals, and notes for each statement and condition the instruction it was
lifted from.

* `Nesting.Lifts.runs_pathStep`: along a lifted tree the machine visits what structured execution visits.
* `lift_preserves_paths`: both visit the same instructions in the same order, whatever the outcomes are.
-/

namespace ShaderLift

/-- One step of the jump machine: `outcome` says which conditional jumps fall through.  A state is the index of the next
instruction and the statement instructions visited so far, which are also the result. -/
def pathStep (body : List Instruction) (outcome : Nat → Bool) :
    Nat × List Nat → (Nat × List Nat) ⊕ List Nat
  | (index, visited) =>
      match body[index]? with
      | none => .inr visited
      | some .ret => .inr (visited ++ [index])
      | some (.storeLocal _) => .inl (index + 1, visited ++ [index])
      | some .pop => .inl (index + 1, visited ++ [index])
      | some (.jumpIfFalse target) =>
          .inl (if outcome index then index + 1 else target, visited ++ [index])
      | some (.jump target) => .inl (target, visited)
      | some _ => .inl (index + 1, visited)

/-- What structured execution visits, and whether it ended with a return. -/
structure Trail where
  visited : List Nat
  returned : Bool

namespace Trail

/-- Nothing is visited. -/
def empty : Trail :=
  ⟨[], false⟩

/-- One trail after another, unless the first one ended with a return. -/
def andThen (first second : Trail) : Trail :=
  if first.returned then first else ⟨first.visited ++ second.visited, second.returned⟩

/-- A visit before a trail. -/
def visit (index : Nat) (trail : Trail) : Trail :=
  ⟨index :: trail.visited, trail.returned⟩

end Trail

/-- Executes nested statements: `outcome` says which conditions hold. -/
def Nesting.trail (outcome : Nat → Bool) : PlacedNesting → Trail
  | nil => .empty
  | leaf (index, .ret _) _ => ⟨[index], true⟩
  | leaf (index, _) rest => (rest.trail outcome).visit index
  | ifThen (index, _) body rest =>
      ((if outcome index then body.trail outcome else .empty).andThen (rest.trail outcome)).visit index
  | ifElse (index, _) body other rest =>
      ((if outcome index then body.trail outcome else other.trail outcome).andThen
        (rest.trail outcome)).visit index

/-- Where the machine is after a trail that ends before the instruction at `stop`. -/
def Trail.config (trail : Trail) (stop : Nat) (visited : List Nat) : (Nat × List Nat) ⊕ List Nat :=
  if trail.returned then .inr (visited ++ trail.visited) else .inl (stop, visited ++ trail.visited)

/-! ## The machine along a lifted tree -/

namespace Trail

theorem config_empty (stop : Nat) (visited : List Nat) :
    empty.config stop visited = .inl (stop, visited) := by
  simp only [config, empty, Bool.false_eq_true, if_false, List.append_nil]

theorem config_visit (trail : Trail) (index stop : Nat) (visited : List Nat) :
    (trail.visit index).config stop visited = trail.config stop (visited ++ [index]) := by
  obtain ⟨later, returned⟩ := trail
  cases returned with
  | false => simp [config, visit]
  | true => simp [config, visit]

/-- A machine that follows one trail and then another one follows both. -/
theorem runs_andThen {body : List Instruction} {outcome : Nat → Bool} {first second : Trail}
    {a : (Nat × List Nat) ⊕ List Nat} {middle stop : Nat} {visited : List Nat}
    (hfirst : Runs (pathStep body outcome) a (first.config middle visited))
    (hsecond : ∀ visited, Runs (pathStep body outcome) (.inl (middle, visited)) (second.config stop visited)) :
    Runs (pathStep body outcome) a ((first.andThen second).config stop visited) := by
  obtain ⟨before, returned⟩ := first
  cases returned with
  | true => exact hfirst
  | false =>
      have hboth := hfirst.trans (hsecond (visited ++ before))
      simpa only [andThen, config, Bool.false_eq_true, if_false, List.append_assoc] using hboth

end Trail

/-- The trail of at most one statement and what follows it. -/
def Trail.ofStatement (index : Nat) (later : Trail) : Option Statement → Trail
  | none => later
  | some (.ret _) => ⟨[index], true⟩
  | some _ => later.visit index

theorem Nesting.trail_leaves (outcome : Nat → Bool) (index : Nat) (statement : Option Statement)
    (rest : PlacedNesting) :
    (leaves (statement.toList.map (Prod.mk index)) rest).trail outcome =
      .ofStatement index (rest.trail outcome) statement := by
  cases statement with
  | none => rfl
  | some statement => cases statement <;> rfl

/-- The machine at a plain instruction: it goes on with the next instruction or stops at a return. -/
theorem State.PlainStep.runs_pathStep {c : Context} {s next : State} {a : Plain} {index stop : Nat}
    {statement : Option Statement} (h : s.PlainStep c (a.at index) next statement)
    {body : List Instruction} (hcode : body[index]? = some (a.at index)) {outcome : Nat → Bool}
    {later : Trail}
    (hlater : ∀ visited,
      Runs (pathStep body outcome) (.inl (index + 1, visited)) (later.config stop visited))
    (visited : List Nat) :
    Runs (pathStep body outcome) (.inl (index, visited))
      ((Trail.ofStatement index later statement).config stop visited) := by
  have hjump (target : Nat) : a.at index = .jump target → target = index + 1 := Plain.eq_of_at_eq_jump
  have hquiet (hstep : pathStep body outcome (index, visited) = .inl (index + 1, visited)) :
      Runs (pathStep body outcome) (.inl (index, visited)) (later.config stop visited) :=
    .step_trans hstep (hlater visited)
  have hnoted (hstep : pathStep body outcome (index, visited) = .inl (index + 1, visited ++ [index])) :
      Runs (pathStep body outcome) (.inl (index, visited)) ((later.visit index).config stop visited) := by
    rw [Trail.config_visit]
    exact .step_trans hstep (hlater (visited ++ [index]))
  have hstopped (hstep : pathStep body outcome (index, visited) = .inr (visited ++ [index])) :
      Runs (pathStep body outcome) (.inl (index, visited)) (Trail.config ⟨[index], true⟩ stop visited) :=
    .step_trans hstep (.refl _)
  generalize a.at index = i at h hcode hjump
  cases h with
  | number htype => exact hquiet (by simp only [pathStep, hcode])
  | «variable» hscope hi =>
      rcases hi with rfl | rfl
      · exact hquiet (by simp only [pathStep, hcode])
      · exact hquiet (by simp only [pathStep, hcode])
  | callable hresolve hi =>
      rcases hi with rfl | ⟨rfl, -⟩
      · exact hquiet (by simp only [pathStep, hcode])
      · exact hquiet (by simp only [pathStep, hcode])
  | binary hstack htype => exact hquiet (by simp only [pathStep, hcode])
  | call hstack hsignature => exact hquiet (by simp only [pathStep, hcode])
  | assign hstack hscope => exact hnoted (by simp only [pathStep, hcode])
  | declare hstack hscope => exact hnoted (by simp only [pathStep, hcode])
  | eval hstack => exact hnoted (by simp only [pathStep, hcode])
  | ret hstack hreturns => exact hstopped (by simp only [pathStep, hcode])
  | retValue hstack hreturns => exact hstopped (by simp only [pathStep, hcode])
  | @skip target hstack => exact hquiet (by simp only [pathStep, hcode, hjump target rfl])

/-- The machine takes the jump over an alternative, unless it has stopped before. -/
theorem Trail.runs_jump {body : List Instruction} {outcome : Nat → Bool} {trail : Trail}
    {a : (Nat × List Nat) ⊕ List Nat} {middle stop : Nat} {visited : List Nat}
    (hjump : body[middle]? = some (.jump stop))
    (h : Runs (pathStep body outcome) a (trail.config middle visited)) :
    Runs (pathStep body outcome) a (trail.config stop visited) := by
  obtain ⟨before, returned⟩ := trail
  cases returned with
  | true => exact h
  | false =>
      refine h.trans (.step_trans ?_ (.refl _))
      simp only [pathStep, hjump]
      rfl

/-- The machine halts at the end of the body, if not before. -/
theorem Trail.runs_end {body : List Instruction} {outcome : Nat → Bool} {trail : Trail}
    {a : (Nat × List Nat) ⊕ List Nat} {stop : Nat} {visited : List Nat} (hstop : body.length ≤ stop)
    (h : Runs (pathStep body outcome) a (trail.config stop visited)) :
    Runs (pathStep body outcome) a (.inr (visited ++ trail.visited)) := by
  obtain ⟨before, returned⟩ := trail
  cases returned with
  | true => exact h
  | false =>
      refine h.trans (.step_trans ?_ (.refl _))
      simp only [pathStep, List.getElem?_eq_none hstop]

/-- Along a lifted tree the machine visits what structured execution visits. -/
theorem Nesting.Lifts.runs_pathStep {c : Context} {index : Nat} {s last : State} {t : JumpTree}
    {events : List Event} {lines : PlacedNesting} (h : t.Lifts c index s events lines last)
    {body : List Instruction} (hcode : CodeAt body index (t.flatten index)) (outcome : Nat → Bool)
    (visited : List Nat) :
    Runs (pathStep body outcome) (.inl (index, visited))
      ((lines.trail outcome).config (index + t.size) visited) := by
  induction h generalizing visited with
  | nil =>
      rw [trail, Trail.config_empty]
      exact .refl _
  | @leaf index s next last a rest now later statement lines hplain hnow hrest ih =>
      obtain ⟨hhead, htail⟩ := hcode.leaf
      have hstop := Nesting.add_size_leaf index a rest
      rw [trail_leaves, hstop]
      exact hplain.runs_pathStep hhead (fun visited => ih htail visited) visited
  | @ifThen index stop s inside last inner rest condition within later inside' lines hstop hstack hbody
      hinside hrest ihBody ihRest =>
      obtain ⟨hhead, hinner, hafter⟩ := hcode.ifThen hstop
      have hsize := Nesting.add_size_ifThen hstop rest
      rw [trail, Trail.config_visit, hsize]
      -- Whichever way the machine goes, it comes to `stop` next, unless it returns before.
      refine .step_trans rfl (Trail.runs_andThen ?_ fun visited => ihRest hafter visited)
      simp only [pathStep, hhead]
      cases outcome index with
      | true =>
          rw [hstop]
          exact ihBody hinner (visited ++ [index])
      | false =>
          rw [if_neg Bool.false_ne_true, if_neg Bool.false_ne_true, Trail.config_empty]
          exact .refl _
  | @ifElse index middle stop s inside switched last inner other rest condition within without later
      inside' alternative lines hmiddle hstop hstack hbody hinside hother hswitched hrest ihBody ihOther
      ihRest =>
      obtain ⟨hhead, hinner, hjump, halternative, hafter⟩ := hcode.ifElse hmiddle hstop
      have hsize := Nesting.add_size_ifElse hmiddle hstop rest
      rw [trail, Trail.config_visit, hsize]
      refine .step_trans rfl (Trail.runs_andThen ?_ fun visited => ihRest hafter visited)
      simp only [pathStep, hhead]
      cases outcome index with
      | true =>
          -- The body ends with a jump over the alternative.
          apply Trail.runs_jump hjump
          rw [hmiddle]
          exact ihBody hinner (visited ++ [index])
      | false =>
          rw [if_neg Bool.false_ne_true, if_neg Bool.false_ne_true, hstop]
          exact ihOther halternative (visited ++ [index])

/-! ## Whole functions -/

/-- The lines of a lifted function, read as nested conditionals, are executed along the same paths as the instructions:
whatever the outcomes of the conditional jumps are, the jump machine halts, and it has visited the instructions from
which the executed statements and conditions were lifted, in their order. -/
theorem lift_preserves_paths {d : Dialect} {function : StackFunction} {args : List TypeId}
    {bound : List Shader} {interface : Interface} {shader : Shader}
    (h : (lift d function args bound interface).outcome = .ok shader) :
    ∃ lines : PlacedNesting,
      Nesting.read? (Event.marks 0 (lift d function args bound interface).events) = some lines ∧
      shader.body = lines.statements.lines 1 ∧
      ∀ outcome visited,
        Runs (pathStep function.body outcome) (.inl (0, [])) (.inr visited) ↔
          visited = (lines.trail outcome).visited := by
  obtain ⟨t, within, lines, last, hproper, hflatten, hlifts, hstack, hbody, hmarks⟩ :=
    exists_lifts_of_lift (congrArg (Run.mk _) h)
  refine ⟨lines, Nesting.read?_eq_some_iff.mpr (hmarks 0), hbody, ?_⟩
  intro outcome visited
  obtain ⟨hcode, hlength⟩ := CodeAt.of_flatten hflatten
  have hhalts := Trail.runs_end hlength (hlifts.runs_pathStep hcode outcome [])
  exact hhalts.result_iff visited

/-- A function in which a variable gets a value on either side of a conditional. -/
def choice : StackFunction where
  name := "f"
  params := ["x"]
  body :=
    [.loadLocal "x", .loadLocal "x", .binary .lt, .jumpIfFalse 7, .pushConst (.number (.int 1)),
      .storeLocal "y", .jump 9, .loadLocal "x", .storeLocal "y", .loadLocal "y", .ret]

set_option maxRecDepth 4000 in
theorem lift_preserves_paths_choice :
    (lift .standard choice [.pos 2] [] {}).outcome.toOption.isSome ∧
      Runs (pathStep choice.body fun _ => true) (.inl (0, [])) (.inr [3, 5, 10]) ∧
      Runs (pathStep choice.body fun _ => false) (.inl (0, [])) (.inr [3, 8, 10]) := by
  have hlines : Nesting.read? (Event.marks 0 (lift .standard choice [.pos 2] [] {}).events) =
      some (.ifElse (3, .binary .lt (.var "x") (.var "x"))
        (.leaf (5, .declare (.pos 2) "y" (.number (.int 1))) .nil)
        (.leaf (8, .assign "y" (.var "x")) .nil)
        (.leaf (10, .ret (some (.var "y"))) .nil)) := by rfl
  have hok : (lift .standard choice [.pos 2] [] {}).outcome.toOption.isSome := by decide +kernel
  obtain ⟨shader, hshader⟩ := Run.exists_ok_of_isSome hok
  obtain ⟨lines, hread, -, hpaths⟩ := lift_preserves_paths hshader
  cases hread.symm.trans hlines
  refine ⟨hok, ?_, ?_⟩
  · rw [hpaths]
    rfl
  · rw [hpaths]
    rfl

end ShaderLift
