import ShaderLift.Proofs.FlatLifting
import ShaderLift.Proofs.Machine

/-!
# The states that lifting reaches

`State.Reaches` lists the states between instructions, also of runs that fail later.  In each of them the open bodies
are nested in the function: an inner body ends no later than the bodies around it, and none ends before the
instruction that comes next or after the function.

* `Blocks.Ordered`: how open bodies are nested, with what closing and a jump make of it.
* `State.ordered_of_close`, `State.ordered_of_step`: this nesting before and after an instruction.
* `State.Reaches.ordered`: this nesting in every state that is reached.
* `State.Reaches.unique`: lifting reaches one state at each instruction.
* `State.exists_reaches_of_liftFrom`, `State.stuck_of_liftFrom`: where runs end that come to their end, and the others.
-/

namespace ShaderLift

/-- A run that goes on with another one fails in one of the two. -/
theorem Run.bind_eq_error {α β : Type} {r : Run α} {f : α → Run β} {e : LiftError}
    (h : (r.bind f).outcome = .error e) :
    r.outcome = .error e ∨ ∃ a events, r = ⟨events, .ok a⟩ ∧ (f a).outcome = .error e := by
  obtain ⟨events, outcome⟩ := r
  cases outcome with
  | error e' =>
      cases h
      exact .inl rfl
  | ok a => exact .inr ⟨a, events, rfl, h⟩

namespace Blocks

/-! ## Nested bodies -/

/-- The open bodies end at `first` or later and within the function, an inner body no later than those around it. -/
structure Ordered (length first : Nat) (blocks : Blocks) : Prop where
  nested : blocks.Pairwise fun inner outer => inner.stop ≤ outer.stop
  reach : blocks.ReachTo first
  inside : ∀ block ∈ blocks, block.stop ≤ length

/-- A conditional jump that opens a body leads forward and no further than the body around it. -/
theorem le_limit_of_openIf {length index target : Nat} {blocks next : Blocks}
    (h : blocks.openIf length index target = .ok next) :
    index < target ∧ target ≤ limit length blocks ∧ next = .ifBody target :: blocks := by
  unfold openIf at h
  split at h
  · cases h
  · split at h
    · cases h
    · cases h
      exact ⟨by omega, by omega, rfl⟩

/-- A jump that switches to an `else` body leads no further than the body around it. -/
theorem le_limit_of_jump {length index target : Nat} {outer next : Blocks}
    (h : jump length index target (.ifBody (index + 1) :: outer) = .ok (.beginElse next)) :
    index + 1 < target ∧ target ≤ limit length outer ∧ next = .elseBody target :: outer := by
  unfold jump at h
  by_cases hnext : target = index + 1
  · rw [if_pos hnext] at h
    cases h
  · rw [if_neg hnext] at h
    by_cases hback : target ≤ index
    · rw [if_pos hback] at h
      cases h
    · rw [if_neg hback] at h
      dsimp only at h
      rw [if_pos rfl] at h
      by_cases hescape : limit length outer < target
      · rw [if_pos hescape] at h
        cases h
      · rw [if_neg hescape] at h
        cases h
        exact ⟨by omega, by omega, rfl⟩

namespace Ordered

variable {length first index : Nat} {blocks next : Blocks} {block : Block}

theorem nil (length first : Nat) : Ordered length first [] where
  nested := .nil
  reach := fun _ hmem => absurd hmem List.not_mem_nil
  inside := fun _ hmem => absurd hmem List.not_mem_nil

theorem of_cons (h : Ordered length first (block :: blocks)) : Ordered length first blocks where
  nested := (List.pairwise_cons.mp h.nested).2
  reach := fun other hmem => h.reach other (List.mem_cons_of_mem _ hmem)
  inside := fun other hmem => h.inside other (List.mem_cons_of_mem _ hmem)

/-- The innermost body ends no later than any other one. -/
theorem limit_le (h : Ordered length first blocks) {outer : Block} (hmem : outer ∈ blocks) :
    limit length blocks ≤ outer.stop := by
  cases blocks with
  | nil => exact absurd hmem List.not_mem_nil
  | cons inner blocks =>
      rcases List.mem_cons.mp hmem with rfl | hmem
      · exact Nat.le_refl _
      · exact (List.pairwise_cons.mp h.nested).1 outer hmem

theorem limit_le_length (h : Ordered length first blocks) : limit length blocks ≤ length := by
  cases blocks with
  | nil => exact Nat.le_refl _
  | cons inner blocks => exact h.inside inner List.mem_cons_self

/-- A body that ends in the innermost one may be opened. -/
theorem cons (h : Ordered length first blocks) (hreach : first ≤ block.stop)
    (hlimit : block.stop ≤ limit length blocks) : Ordered length first (block :: blocks) where
  nested := by
    refine List.pairwise_cons.mpr ⟨fun outer hmem => ?_, h.nested⟩
    have hle := h.limit_le hmem
    omega
  reach := h.reach.cons block hreach
  inside := by
    intro other hmem
    rcases List.mem_cons.mp hmem with rfl | hmem
    · have hle := h.limit_le_length
      omega
    · exact h.inside other hmem

/-- Once the bodies that end at `index` are closed, the others end later. -/
theorem close (h : Ordered length index blocks) : Ordered length (index + 1) (blocks.close index) := by
  induction blocks with
  | nil => exact nil length (index + 1)
  | cons block outer ih =>
      by_cases hstop : block.stop = index
      · rw [close_cons_of_stop outer hstop]
        exact ih h.of_cons
      · rw [close_cons_of_ne outer hstop]
        refine ⟨h.nested, fun other hmem => ?_, h.inside⟩
        have hreach := h.reach block List.mem_cons_self
        have hle : block.stop ≤ other.stop := h.limit_le hmem
        omega

/-- An instruction opens bodies that end after it. -/
theorem visit (h : Ordered length (index + 1) blocks) {i : Instruction} {met : List Edge}
    (hvisit : blocks.visit length index i = .ok (next, met)) : Ordered length (index + 1) next := by
  rcases visit_cases hvisit with ⟨a, rfl, rfl⟩ | ⟨target, rfl, rfl⟩ | ⟨target, outer, rfl, -, rfl, rfl⟩
  · exact h
  · unfold Blocks.visit at hvisit
    dsimp only at hvisit
    split at hvisit
    · rename_i hopen
      obtain ⟨hforward, hlimit, rfl⟩ := le_limit_of_openIf hopen
      exact h.cons hforward hlimit
    · cases hvisit
  · unfold Blocks.visit at hvisit
    dsimp only at hvisit
    split at hvisit
    · cases hvisit
    · rename_i hjump
      obtain ⟨hforward, hlimit, rfl⟩ := le_limit_of_jump hjump
      exact h.of_cons.cons (Nat.le_of_lt hforward) hlimit
    · cases hvisit

/-- No body is open after the function. -/
theorem eq_nil (h : Ordered length (length + 1) blocks) : blocks = [] := by
  cases blocks with
  | nil => rfl
  | cons block outer =>
      have hreach := h.reach block List.mem_cons_self
      have hinside := h.inside block List.mem_cons_self
      omega

end Ordered

end Blocks

namespace State

section Nested

variable {c : Context} {length index : Nat} {s next : State} {events : List Event}

/-- Once the bodies that end at `index` are closed, the others are nested behind it. -/
theorem ordered_of_close (hs : s.blocks.Ordered length index) (h : s.close index = ⟨events, .ok next⟩) :
    next.blocks.Ordered length (index + 1) := by
  rw [close_eq_ok h]
  exact hs.close

/-- An instruction keeps the bodies nested. -/
theorem ordered_of_step {i : Instruction} (hs : s.blocks.Ordered length (index + 1))
    (h : s.step c length index i = .ok (next, events)) : next.blocks.Ordered length (index + 1) := by
  obtain ⟨met, hvisit⟩ := visit_of_step h
  exact hs.visit hvisit

end Nested

/-! ## Reached states -/

/-- The states that lifting reaches: in `s` the instructions before `index` were lifted, and the bodies that end at
`index` are not closed yet. -/
inductive Reaches (c : Context) (body : List Instruction) (start : State) : Nat → State → Prop
  | start : Reaches c body start 0 start
  | next {index : Nat} {s closed next : State} {i : Instruction} {before events : List Event}
      (hs : Reaches c body start index s) (hi : body[index]? = some i)
      (hclose : s.close index = ⟨before, .ok closed⟩)
      (hstep : closed.step c body.length index i = .ok (next, events)) :
      Reaches c body start (index + 1) next

namespace Reaches

variable {c : Context} {body : List Instruction} {start s : State} {index : Nat}

/-- In every state that is reached, the open bodies are nested in the function. -/
theorem ordered (h : Reaches c body start index s) (hstart : start.blocks = []) :
    s.blocks.Ordered body.length index := by
  induction h with
  | start =>
      rw [hstart]
      exact .nil body.length 0
  | next hs hi hclose hstep ih =>
      exact ordered_of_step (ordered_of_close ih hclose) hstep

/-- Lifting reaches one state at each instruction. -/
theorem unique {s' : State} (h : Reaches c body start index s) (h' : Reaches c body start index s') :
    s = s' := by
  induction h generalizing s' with
  | start =>
      cases h'
      rfl
  | next hs hi hclose hstep ih =>
      cases h' with
      | next hs' hi' hclose' hstep' =>
          cases ih hs'
          cases hclose.symm.trans hclose'
          cases hi.symm.trans hi'
          cases hstep.symm.trans hstep'
          rfl

/-- What comes before a state that is reached is reached. -/
theorem exists_of_le {earlier : Nat} (h : Reaches c body start index s) (hle : earlier ≤ index) :
    ∃ s', Reaches c body start earlier s' := by
  induction h with
  | start =>
      cases Nat.le_zero.mp hle
      exact ⟨_, .start⟩
  | @next index _ _ next i _ _ hs hi hclose hstep ih =>
      rcases Nat.lt_or_ge index earlier with hlt | hge
      · have heq : earlier = index + 1 := by omega
        rw [heq]
        exact ⟨next, .next hs hi hclose hstep⟩
      · exact ih hge

end Reaches

/-! ## Where runs end -/

/-- Bodies are not closed if one of them ends where values are left on the stack. -/
theorem close_eq_error {s : State} {index : Nat} {e : LiftError} (h : (s.close index).outcome = .error e) :
    e.location = .instruction index ∧ s.blocks ≠ [] := by
  unfold close at h
  split at h
  · cases h
  · rename_i hlines
    split at h
    · cases h
    · cases h
      refine ⟨rfl, fun hblocks => hlines ?_⟩
      rw [hblocks]
      rfl

theorem visit_eq_error {c : Context} {length index : Nat} {s : State} {i : Instruction} {e : LiftError}
    (h : (s.visit c length index i).outcome = .error e) :
    ∃ cause, s.step c length index i = .error cause ∧ e = ⟨.instruction index, cause⟩ := by
  unfold visit at h
  dsimp only at h
  split at h
  · cases h
  · rename_i cause hstep
    cases h
    exact ⟨cause, hstep, rfl⟩

section Runs

variable {c : Context} {body xs : List Instruction} {start s : State} {index : Nat}

/-- A run that comes to its end closes the bodies that are open in the state after the last instruction. -/
theorem exists_reaches_of_liftFrom {last : State} {events : List Event} (hs : Reaches c body start index s)
    (hcode : CodeAt body index xs) (hend : index + xs.length = body.length)
    (h : liftFrom c body.length index s xs = ⟨events, .ok last⟩) :
    ∃ s' after, Reaches c body start body.length s' ∧ s'.close body.length = ⟨after, .ok last⟩ := by
  induction xs generalizing index s events with
  | nil =>
      rw [List.length_nil, Nat.add_zero] at hend
      subst hend
      exact ⟨s, events, hs, h⟩
  | cons i xs ih =>
      obtain ⟨closed, _, _, hclose, hvisited, rfl⟩ := Run.bind_eq_ok_iff.mp h
      obtain ⟨next, _, _, hvisit, hrest, rfl⟩ := Run.bind_eq_ok_iff.mp hvisited
      obtain ⟨later, hstep, -⟩ := visit_eq_ok hvisit
      rw [List.length_cons] at hend
      exact ih (.next hs hcode.head hclose hstep) hcode.tail (by omega) hrest

/-- A run that fails stops at the last instruction that is reached, or else at the closing after all of them. -/
theorem stuck_of_liftFrom {e : LiftError} (hs : Reaches c body start index s)
    (hcode : CodeAt body index xs) (hend : index + xs.length = body.length)
    (h : (liftFrom c body.length index s xs).outcome = .error e) :
    (∃ stop < body.length, e.location = .instruction stop ∧
        ∀ next, ¬ Reaches c body start (stop + 1) next) ∨
      ∃ last, Reaches c body start body.length last ∧ (last.close body.length).outcome = .error e := by
  induction xs generalizing index s with
  | nil =>
      rw [List.length_nil, Nat.add_zero] at hend
      subst hend
      exact .inr ⟨s, hs, h⟩
  | cons i xs ih =>
      rw [List.length_cons] at hend
      have hi := hcode.head
      have hlt : index < body.length := by omega
      rcases Run.bind_eq_error h with hclose | ⟨closed, before, hclose, hvisited⟩
      · refine .inl ⟨index, hlt, (close_eq_error hclose).1, ?_⟩
        -- A state further on would come from the only state here, whose closing fails.
        intro next hnext
        cases hnext with
        | next hs' hi' hclose' hstep' =>
            cases hs.unique hs'
            rw [hclose'] at hclose
            cases hclose
      · rcases Run.bind_eq_error hvisited with hvisit | ⟨next, now, hvisit, hrest⟩
        · obtain ⟨cause, hstep, rfl⟩ := visit_eq_error hvisit
          refine .inl ⟨index, hlt, rfl, ?_⟩
          intro next hnext
          cases hnext with
          | next hs' hi' hclose' hstep' =>
              cases hs.unique hs'
              cases hi.symm.trans hi'
              cases hclose.symm.trans hclose'
              cases hstep.symm.trans hstep'
        · obtain ⟨later, hstep, -⟩ := visit_eq_ok hvisit
          exact ih (.next hs hi hclose hstep) hcode.tail (by omega) hrest

end Runs

end State

end ShaderLift
