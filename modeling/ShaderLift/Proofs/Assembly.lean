import ShaderLift.Assembler
import ShaderLift.Proofs.JumpGrammar

/-!
# Assembling by edits

The calls on an assembler as data, so that statements can be made about all of their sequences.  The labels of edits are
arbitrary: those that the assembler has made, those that it makes later and those that it never makes.

* `Assembler.apply`, `Assembler.ofEdits`: the assembler that edits make.
* `Assembler.JumpsAt`: the instructions to patch are jumps of the code.
* `Assembler.jumpsAt_ofEdits`, `Assembler.jumpsAt_of_patch`: no edit and no patch changes that.
-/

namespace ShaderLift

/-- Exactly the jumps can be given another target, and they stay jumps. -/
theorem Instruction.exists_retarget? {i : Instruction} (h : i.isJump = true) (target : Nat) :
    ∃ next, i.retarget? target = some next ∧ next.isJump = true := by
  cases i with
  | jumpIfFalse old => exact ⟨_, rfl, rfl⟩
  | jump old => exact ⟨_, rfl, rfl⟩
  | _ => cases h

namespace Assembler

/-! ## Edits -/

/-- One call on an assembler. -/
inductive Edit where
  | param (name : String)
  | push (instruction : Instruction)
  | label
  | bind (label : Label)
  | jump (label : Label)
  | jumpIfFalse (label : Label)
deriving DecidableEq, Repr

/-- Performs an edit. -/
def apply (a : Assembler) : Edit → Assembler
  | .param name => a.param name
  | .push instruction => a.push instruction
  | .label => a.label.1
  | .bind label => a.bind label
  | .jump label => a.jump label
  | .jumpIfFalse label => a.jumpIfFalse label

/-- The assembler made by edits, starting from the one without instructions. -/
def ofEdits (name : String) (edits : List Edit) : Assembler :=
  edits.foldl apply { name := name }

/-- Making a label is the only edit that changes how many labels there are. -/
theorem size_bindings_apply (a : Assembler) (edit : Edit) :
    (a.apply edit).bindings.size = a.bindings.size + if edit = .label then 1 else 0 := by
  cases edit with
  | label => simp [apply, label]
  | bind label =>
      simp only [apply, bind]
      split <;> simp
  | _ => rfl

/-! ## The jumps to patch -/

/-- Each of the instructions to patch is a jump of the code. -/
def JumpsAt (code : Array Instruction) (fixups : List (Nat × Label)) : Prop :=
  ∀ fixup ∈ fixups, ∃ i, code[fixup.1]? = some i ∧ i.isJump = true

variable {a : Assembler} {code : Array Instruction} {fixups : List (Nat × Label)}

theorem JumpsAt.tail {fixup : Nat × Label} (h : JumpsAt code (fixup :: fixups)) : JumpsAt code fixups :=
  fun other hmem => h other (List.mem_cons_of_mem _ hmem)

/-- More code leaves the jumps where they are. -/
theorem JumpsAt.push (h : JumpsAt code fixups) (i : Instruction) : JumpsAt (code.push i) fixups := by
  intro fixup hmem
  obtain ⟨jump, hget, hjump⟩ := h fixup hmem
  have hlt : fixup.1 < code.size := (Array.getElem?_eq_some_iff.mp hget).1
  exact ⟨jump, by rw [Array.getElem?_push_lt hlt, ← Array.getElem?_eq_getElem hlt, hget], hjump⟩

/-- A jump that is added may be patched. -/
theorem JumpsAt.push_jump (h : JumpsAt code fixups) {i : Instruction} (hjump : i.isJump = true) (label : Label) :
    JumpsAt (code.push i) (fixups ++ [(code.size, label)]) := by
  intro fixup hmem
  rcases List.mem_append.mp hmem with hold | hnew
  · exact h.push i fixup hold
  · rw [List.mem_singleton.mp hnew]
    exact ⟨i, Array.getElem?_push_size, hjump⟩

/-- No edit makes an instruction one to patch that is not a jump. -/
theorem jumpsAt_apply (h : JumpsAt a.code a.fixups.toList) (edit : Edit) :
    JumpsAt (a.apply edit).code (a.apply edit).fixups.toList := by
  cases edit with
  | push i => exact h.push i
  | bind label =>
      simp only [apply, bind]
      split <;> exact h
  | jump label =>
      simp only [apply, Assembler.jump, Array.toList_push]
      exact h.push_jump rfl label
  | jumpIfFalse label =>
      simp only [apply, Assembler.jumpIfFalse, Array.toList_push]
      exact h.push_jump rfl label
  | _ => exact h

/-- After any edits, the instructions to patch are jumps. -/
theorem jumpsAt_ofEdits (name : String) (edits : List Edit) :
    JumpsAt (ofEdits name edits).code (ofEdits name edits).fixups.toList := by
  have hrun (a : Assembler) (h : JumpsAt a.code a.fixups.toList) :
      JumpsAt (edits.foldl apply a).code (edits.foldl apply a).fixups.toList := by
    induction edits generalizing a with
    | nil => exact h
    | cons edit edits ih => exact ih (a.apply edit) (jumpsAt_apply h edit)
  exact hrun { name := name } nofun

/-! ## Patching -/

/-- A jump is patched if its label has a target, and else refused for its label. -/
theorem patch_of_isJump {index : Nat} {i : Instruction} (hget : code[index]? = some i) (hjump : i.isJump = true)
    (label : Label) :
    (∃ e, a.target index label = .error e ∧ a.patch code (index, label) = .error e) ∨
      ∃ target next, a.target index label = .ok target ∧ i.retarget? target = some next ∧ next.isJump = true ∧
        a.patch code (index, label) = .ok (code.setIfInBounds index next) := by
  cases htarget : a.target index label with
  | error e =>
      refine .inl ⟨e, rfl, ?_⟩
      simp only [patch, htarget]
      rfl
  | ok target =>
      obtain ⟨next, hretarget, hnext⟩ := i.exists_retarget? hjump target
      refine .inr ⟨target, next, rfl, hretarget, hnext, ?_⟩
      simp only [patch, htarget, hget, Option.bind_some, Bind.bind, Except.bind, hretarget]
      rfl

/-- A jump in the place of another instruction leaves all jumps jumps. -/
theorem JumpsAt.set (h : JumpsAt code fixups) (index : Nat) {i : Instruction} (hjump : i.isJump = true) :
    JumpsAt (code.setIfInBounds index i) fixups := by
  intro fixup hmem
  obtain ⟨old, hget, hold⟩ := h fixup hmem
  have hlt : fixup.1 < code.size := (Array.getElem?_eq_some_iff.mp hget).1
  by_cases hindex : index = fixup.1
  · rw [hindex, Array.getElem?_setIfInBounds_self_of_lt hlt]
    exact ⟨i, rfl, hjump⟩
  · rw [Array.getElem?_setIfInBounds_ne hindex]
    exact ⟨old, hget, hold⟩

/-- Patching is refused only for a label that has no target. -/
theorem exists_target_of_foldlM_patch {e : AssemblyError} (h : JumpsAt code fixups)
    (herror : fixups.foldlM a.patch code = .error e) :
    ∃ fixup ∈ fixups, a.target fixup.1 fixup.2 = .error e := by
  induction fixups generalizing code with
  | nil => cases herror
  | cons fixup fixups ih =>
      obtain ⟨index, label⟩ := fixup
      obtain ⟨i, hget, hjump⟩ := h (index, label) List.mem_cons_self
      rw [List.foldlM_cons] at herror
      rcases patch_of_isJump hget hjump label with
        ⟨e', htarget, hpatch⟩ | ⟨target, next, -, -, hnext, hpatch⟩
      · rw [hpatch] at herror
        cases herror
        exact ⟨(index, label), List.mem_cons_self, htarget⟩
      · rw [hpatch] at herror
        obtain ⟨fixup, hmem, htarget⟩ := ih (h.tail.set index hnext) herror
        exact ⟨fixup, List.mem_cons_of_mem _ hmem, htarget⟩

/-- A function is refused for a label or not at all. -/
theorem finish_ne_notAJump (h : JumpsAt a.code a.fixups.toList) (index : Nat) :
    a.finish ≠ .error (.notAJump index) := by
  intro hfinish
  unfold finish at hfinish
  split at hfinish
  · cases hfinish
  · cases hpatched : a.fixups.toList.foldlM a.patch a.code with
    | ok code =>
        rw [hpatched] at hfinish
        cases hfinish
    | error e =>
        rw [hpatched] at hfinish
        cases hfinish
        obtain ⟨fixup, -, htarget⟩ := exists_target_of_foldlM_patch h hpatched
        unfold target at htarget
        split at htarget <;> cases htarget

end Assembler

end ShaderLift
