import ShaderLift.Proofs.LineOrigins

/-!
# Depths and indentation

In a function that can be lifted, the depth of every instruction and of every line can be read off the list of
instructions: it is the number of conditional bodies around the instruction, counted by their extents.

* `leadingTabs_text`: the tabs at the start of a line.
* `Writes.depth_eq`: the lines of an instruction are as deep as it is.
* `lift_depths`: extents are nested, each instruction is visited once at its depth, and its lines are indented by it.
-/

namespace ShaderLift

/-- The number of tabs that a text starts with. -/
def leadingTabs (text : String) : Nat :=
  (text.toList.takeWhile (· == '\t')).length

/-- Before its statement, a line has one tab for each level. -/
theorem leadingTabs_text (types : TypeTable) (line : Line) :
    leadingTabs (line.text types) = line.depth + leadingTabs (line.statement.text types) := by
  have htabs : ∀ c ∈ List.replicate line.depth '\t', (c == '\t') = true := by
    intro c hmem
    rw [List.eq_of_mem_replicate hmem, beq_self_eq_true]
  rw [leadingTabs, Line.text, indentation, String.toList_append, String.toList_ofList,
    List.takeWhile_append_of_pos htabs, List.length_append, List.length_replicate, leadingTabs]

/-- The edges of bodies start with no tab of their own. -/
theorem leadingTabs_edge (types : TypeTable) {statement : Statement} (h : ∀ a, statement.mark ≠ .leaf a) :
    leadingTabs (statement.text types) = 0 := by
  cases statement with
  | openIf condition =>
      rw [leadingTabs, Statement.text, String.append_assoc, String.toList_append]
      rfl
  | openElse => simp [leadingTabs, Statement.text]
  | close => simp [leadingTabs, Statement.text]
  | _ => exact absurd rfl (h _)

/-- The lines of an instruction are as deep as it is. -/
theorem Writes.depth_eq {seeded : Scope} {body : List Instruction} {index : Nat} {i : Instruction} {lines : List Line}
    (h : Writes seeded body index i lines) {line : Line} (hmem : line ∈ lines) : line.depth = depthAt body index := by
  cases h with
  | declare h | assign h => rw [List.mem_singleton.mp hmem]
  | eval | ret => rw [List.mem_singleton.mp hmem]
  | ifThen h =>
      simp only [List.mem_cons, List.not_mem_nil, or_false] at hmem
      rcases hmem with rfl | rfl <;> rfl
  | ifElse h hne =>
      simp only [List.mem_cons, List.not_mem_nil, or_false] at hmem
      rcases hmem with rfl | rfl | rfl <;> rfl
  | quiet h => cases hmem

/-- The depths of a function that can be lifted.  The bodies of two conditional jumps are nested or disjoint.  Each
instruction is visited once, in order and at its depth.  The edges of bodies are balanced, each of them belongs to the
conditional jump that opened the body, and every line starts with one tab for each level of the instruction that it
belongs to: for stores, dropped values and returns that is one line each, for a conditional jump two or three. -/
theorem lift_depths {d : Dialect} {function : StackFunction} {args : List TypeId} {bound : List Shader}
    {interface : Interface} {shader : Shader} (h : (lift d function args bound interface).outcome = .ok shader) :
    (∀ outer inner outerStop innerStop, outer < inner → extent? function.body outer = some outerStop →
        extent? function.body inner = some innerStop → outerStop ≤ inner ∨ innerStop ≤ outerStop) ∧
      (lift d function args bound interface).events.filter (·.level? == some .trace) =
        (function.body.zipIdx.map fun (i, index) => .visited index i (depthAt function.body index)) ∧
      ∃ owned, Event.ownedLines (lift d function args bound interface).events = some owned ∧
        owned.map Prod.snd = shader.body ∧
        (∀ index i, function.body[index]? = some i →
          Writes (initialScope interface (args.zip function.params)) function.body index i (linesAt owned index)) ∧
        ∀ index line, (index, line) ∈ owned → index < function.body.length ∧
          line.text d.types =
            String.ofList (List.replicate (depthAt function.body index) '\t') ++ line.statement.text d.types ∧
          leadingTabs (line.text d.types) =
            depthAt function.body index + leadingTabs (line.statement.text d.types) ∧
          ((∀ a, line.statement.mark ≠ .leaf a) → leadingTabs (line.text d.types) = depthAt function.body index) := by
  have hlift : lift d function args bound interface =
      ⟨(lift d function args bound interface).events, .ok shader⟩ := by rw [← h]
  obtain ⟨owned, howned, hbody, hattributes⟩ := attributes_of_lift hlift
  refine ⟨?_, hattributes.visited, owned, howned, hbody, ?_, ?_⟩
  · obtain ⟨t, -, -, -, hproper, hflatten, -⟩ := exists_lifts_of_lift hlift
    obtain ⟨hcode, hsize⟩ := CodeAt.of_flatten hflatten
    intro outer inner outerStop innerStop hlt houter hinner
    by_cases hinside : inner < outerStop
    · have hlength := lt_length_of_extent? houter
      exact .inr (hcode.nested hproper (Nat.zero_le outer) (by omega) houter hinner hlt hinside)
    · exact .inl (Nat.le_of_not_lt hinside)
  · intro index i hcode
    have hlt := (List.getElem?_eq_some_iff.mp hcode).1
    exact hattributes.written index i (Nat.zero_le index) (by omega) hcode
  · intro index line hmem
    obtain ⟨i, hcode, hwrites, hline⟩ := hattributes.writes_of_mem hmem
    have hlt := (List.getElem?_eq_some_iff.mp hcode).1
    have hdepth := hwrites.depth_eq hline
    rw [leadingTabs_text, ← hdepth]
    exact ⟨hlt, rfl, rfl, fun hedge => by rw [leadingTabs_edge d.types hedge, Nat.add_zero]⟩

/-- A function with a conditional in each body of another one: the first has no instructions in its body, and the second
ends where the outer one ends. -/
def branching : StackFunction where
  name := "branching"
  params := ["x"]
  body :=
    [.loadLocal "x", .loadLocal "x", .binary .lt, .jumpIfFalse 9,
      .loadLocal "x", .loadLocal "x", .binary .lt, .jumpIfFalse 8, .jump 15,
      .loadLocal "x", .loadLocal "x", .binary .lt, .jumpIfFalse 15, .pushConst (.number (.int 1)), .storeLocal "y",
      .loadLocal "x", .ret]

set_option maxRecDepth 4000 in
theorem lift_depths_branching :
    (lift .standard branching [.pos 2] [] {}).outcome.toOption.isSome ∧
      (List.range 17).map (depthAt branching.body) = [1, 1, 1, 1, 2, 2, 2, 2, 2, 2, 2, 2, 2, 3, 3, 1, 1] ∧
      (lift .standard branching [.pos 2] [] {}).events.filter (·.level? == some .trace) =
        (branching.body.zipIdx.map fun (i, index) => .visited index i (depthAt branching.body index)) ∧
      ∃ owned, Event.ownedLines (lift .standard branching [.pos 2] [] {}).events = some owned ∧
        ∀ index i, branching.body[index]? = some i →
          Writes (initialScope {} (List.zip [.pos 2] branching.params)) branching.body index i
            (linesAt owned index) := by
  have hok : (lift .standard branching [.pos 2] [] {}).outcome.toOption.isSome := by decide +kernel
  obtain ⟨shader, hshader⟩ := Run.exists_ok_of_isSome hok
  obtain ⟨-, hvisits, owned, howned, -, hwrites, -⟩ := lift_depths hshader
  exact ⟨hok, by decide +kernel, hvisits, owned, howned, hwrites⟩

end ShaderLift
