import ShaderLift.Proofs.TreeLifting

/-!
# Machines that run bodies

A machine takes steps until it halts with a result.  `Runs step a b` says that it comes from `a` to `b`, each of them a
state or a result; results are unique, since a step is a function.

`CodeAt body index xs` says that the instructions `xs` stand in a body at an index, which is how the parts of a flattened
tree are found by a machine that jumps.
-/

namespace ShaderLift

/-- The machine comes from one state or result to another in some number of steps. -/
inductive Runs {σ ρ : Type} (step : σ → σ ⊕ ρ) : σ ⊕ ρ → σ ⊕ ρ → Prop
  | refl (a : σ ⊕ ρ) : Runs step a a
  | next {s : σ} {b : σ ⊕ ρ} (h : Runs step (step s) b) : Runs step (.inl s) b

namespace Runs

variable {σ ρ : Type} {step : σ → σ ⊕ ρ}

theorem trans {a b c : σ ⊕ ρ} (h : Runs step a b) (h' : Runs step b c) : Runs step a c := by
  induction h with
  | refl a => exact h'
  | next h ih => exact .next (ih h')

/-- One step and what follows. -/
theorem step_trans {s : σ} {a b : σ ⊕ ρ} (hstep : step s = a) (h : Runs step a b) :
    Runs step (.inl s) b := by
  rw [← hstep] at h
  exact .next h

/-- A machine has one result at most. -/
theorem unique {a : σ ⊕ ρ} {r r' : ρ} (h : Runs step a (.inr r)) (h' : Runs step a (.inr r')) :
    r = r' := by
  -- The two runs take the same steps, up to the result of the first one.
  generalize hb : (Sum.inr r : σ ⊕ ρ) = b at h
  induction h with
  | refl a =>
      subst hb
      cases h'
      rfl
  | next h ih =>
      cases h' with
      | next h' => exact ih h' hb

/-- The result of a machine, once it is known, is the only one. -/
theorem result_iff {a : σ ⊕ ρ} {r : ρ} (h : Runs step a (.inr r)) (r' : ρ) :
    Runs step a (.inr r') ↔ r' = r := by
  constructor
  · intro h'
    exact unique h' h
  · rintro rfl
    exact h

end Runs

/-- Among plain instructions, only the one that leads to the next instruction is a jump. -/
theorem Plain.eq_of_at_eq_jump {a : Plain} {index target : Nat} (h : a.at index = .jump target) :
    target = index + 1 := by
  cases a with
  | skip => exact (Instruction.jump.inj h).symm
  | instruction i =>
      have hjump := i.property
      rw [show i.val = .jump target from h] at hjump
      cases hjump

/-- The instructions stand in the body from the index on. -/
def CodeAt (body : List Instruction) (index : Nat) (xs : List Instruction) : Prop :=
  ∃ after, body.drop index = xs ++ after

namespace CodeAt

variable {body : List Instruction} {index : Nat} {x : Instruction} {xs ys : List Instruction}

theorem head (h : CodeAt body index (x :: xs)) : body[index]? = some x := by
  obtain ⟨after, hafter⟩ := h
  rw [← Nat.add_zero index, ← List.getElem?_drop, hafter]
  rfl

theorem tail (h : CodeAt body index (x :: xs)) : CodeAt body (index + 1) xs := by
  obtain ⟨after, hafter⟩ := h
  have hdrop := congrArg (List.drop 1) hafter
  rw [List.drop_drop] at hdrop
  exact ⟨after, hdrop⟩

theorem left (h : CodeAt body index (xs ++ ys)) : CodeAt body index xs := by
  obtain ⟨after, hafter⟩ := h
  exact ⟨ys ++ after, by rw [hafter, List.append_assoc]⟩

theorem right (h : CodeAt body index (xs ++ ys)) : CodeAt body (index + xs.length) ys := by
  obtain ⟨after, hafter⟩ := h
  have hdrop := congrArg (List.drop xs.length) hafter
  rw [List.drop_drop, List.append_assoc, List.drop_left] at hdrop
  exact ⟨after, hdrop⟩

theorem whole (body : List Instruction) : CodeAt body 0 body :=
  ⟨[], by rw [List.drop_zero, List.append_nil]⟩

/-- A tree that is a whole body stands in it from the first instruction to the end. -/
theorem of_flatten {t : JumpTree} (h : t.flatten 0 = body) :
    CodeAt body 0 (t.flatten 0) ∧ body.length ≤ 0 + t.size := by
  have hlength : body.length = t.size := by
    rw [← h, Nesting.length_flatten]
  refine ⟨?_, by omega⟩
  rw [h]
  exact whole body

/-- The instruction and the rest of a tree that starts with a plain instruction. -/
theorem leaf {a : Plain} {rest : JumpTree} (h : CodeAt body index (Nesting.flatten index (.leaf a rest))) :
    body[index]? = some (a.at index) ∧ CodeAt body (index + 1) (rest.flatten (index + 1)) :=
  ⟨h.head, h.tail⟩

/-- Where the parts of a conditional without an alternative stand. -/
theorem ifThen {stop : Nat} {inner rest : JumpTree} (hstop : stop = index + 1 + inner.size)
    (h : CodeAt body index (Nesting.flatten index (.ifThen () inner rest))) :
    body[index]? = some (.jumpIfFalse stop) ∧ CodeAt body (index + 1) (inner.flatten (index + 1)) ∧
      CodeAt body stop (rest.flatten stop) := by
  subst hstop
  have hright := h.tail.right
  rw [Nesting.length_flatten] at hright
  exact ⟨h.head, h.tail.left, hright⟩

/-- Where the parts of a conditional with an alternative stand. -/
theorem ifElse {middle stop : Nat} {inner other rest : JumpTree} (hmiddle : middle = index + 1 + inner.size)
    (hstop : stop = middle + 1 + other.size)
    (h : CodeAt body index (Nesting.flatten index (.ifElse () inner other rest))) :
    body[index]? = some (.jumpIfFalse (middle + 1)) ∧
      CodeAt body (index + 1) (inner.flatten (index + 1)) ∧ body[middle]? = some (.jump stop) ∧
      CodeAt body (middle + 1) (other.flatten (middle + 1)) ∧ CodeAt body stop (rest.flatten stop) := by
  subst hstop hmiddle
  have hswitch := h.tail.right
  rw [Nesting.length_flatten] at hswitch
  have hright := hswitch.tail.right
  rw [Nesting.length_flatten] at hright
  exact ⟨h.head, h.tail.left, hswitch.head, hswitch.tail.left, hright⟩

end CodeAt

end ShaderLift
