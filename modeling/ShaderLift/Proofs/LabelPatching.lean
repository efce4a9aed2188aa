import Mathlib.Data.List.Induction
import ShaderLift.Proofs.Assembly
import ShaderLift.Proofs.Nesting

/-!
# Patching of labels

What finishing an assembler gives, read from the edits that made it.  A label is known once it has been made; a jump
to it leads to where it was bound last, and labels may be bound, moved and jumped to in any order.

* `Assembler.BindsKnown`, `Assembler.Placed`, `Assembler.BoundAt`: how edits use labels.
* `Assembler.Records`, `Assembler.records_ofEdits`: what an assembler keeps of its edits.
* `Assembler.foldlM_patch_jumpsFrom`: patching goes through all jumps or stops at the first without a target.
* `Assembler.finish_ofEdits`: the finished function, or the reason why there is none.
-/

namespace ShaderLift

namespace Assembler

/-! ## Reading edits -/

namespace Edit

/-- The parameter that an edit adds. -/
def param? : Edit → Option String
  | param name => some name
  | _ => none

/-- The instruction that an edit adds, with the given targets of labels. -/
def instruction? (target : Label → Nat) : Edit → Option Instruction
  | push instruction => some instruction
  | jump named => some (.jump (target named))
  | jumpIfFalse named => some (.jumpIfFalse (target named))
  | _ => none

/-- Whether an edit adds an instruction. -/
def isInstruction : Edit → Bool
  | push _ | jump _ | jumpIfFalse _ => true
  | _ => false

/-- The label that an edit jumps to. -/
def jumpLabel? : Edit → Option Label
  | jump named | jumpIfFalse named => some named
  | _ => none

end Edit

variable {name : String} {edits : List Edit} {edit : Edit} {label : Label} {a : Assembler}

/-- The number of labels that edits make; the labels are numbered in order. -/
def labelCount (edits : List Edit) : Nat :=
  edits.count .label

/-- The number of instructions that edits add. -/
def codeLength (edits : List Edit) : Nat :=
  edits.countP Edit.isInstruction

/-- No edit binds a label before it is made. -/
def BindsKnown (edits : List Edit) : Prop :=
  ∀ before label after, edits = before ++ .bind label :: after → label.number < labelCount before

/-- The label is made and bound, in whatever order. -/
def Placed (edits : List Edit) (label : Label) : Prop :=
  label.number < labelCount edits ∧ .bind label ∈ edits

/-- There are `index` instructions before the last edit that binds the label. -/
def BoundAt (edits : List Edit) (label : Label) (index : Nat) : Prop :=
  ∃ before after, edits = before ++ .bind label :: after ∧ .bind label ∉ after ∧ codeLength before = index

/-- Every label that is jumped to is made and bound. -/
def JumpsPlaced (edits : List Edit) (jumps : List Edit) : Prop :=
  ∀ edit ∈ jumps, ∀ label, edit.jumpLabel? = some label → Placed edits label

/-- Why edits do not make a function. -/
inductive Refused (edits : List Edit) : AssemblyError → Prop
  /-- The first edit that binds a label before it is made. -/
  | strayBind {before after : List Edit} {label : Label} (hedits : edits = before ++ .bind label :: after)
      (hbefore : BindsKnown before) (hlabel : labelCount before ≤ label.number) : Refused edits (.foreignLabel label)
  /-- The first jump without a target names a label that is made but never bound. -/
  | unbound {before after : List Edit} {jump : Edit} {label : Label} (hbinds : BindsKnown edits)
      (hedits : edits = before ++ jump :: after) (hjump : jump.jumpLabel? = some label)
      (hbefore : JumpsPlaced edits before) (hmade : label.number < labelCount edits) (hbind : .bind label ∉ edits) :
      Refused edits (.unboundLabel label (codeLength before))
  /-- The first jump without a target names a label that is never made. -/
  | foreignJump {before after : List Edit} {jump : Edit} {label : Label} (hbinds : BindsKnown edits)
      (hedits : edits = before ++ jump :: after) (hjump : jump.jumpLabel? = some label)
      (hbefore : JumpsPlaced edits before) (hmade : labelCount edits ≤ label.number) :
      Refused edits (.foreignLabel label)

theorem isSome_instruction? (target : Label → Nat) (edit : Edit) :
    (edit.instruction? target).isSome = edit.isInstruction := by
  cases edit <;> rfl

theorem length_filterMap_instruction? (target : Label → Nat) (edits : List Edit) :
    (edits.filterMap (Edit.instruction? target)).length = codeLength edits := by
  rw [List.length_filterMap_eq_countP, codeLength]
  exact List.countP_congr fun edit _ => by rw [isSome_instruction?]

/-- Only jumps to labels depend on targets. -/
theorem instruction?_of_jumpLabel?_eq_none (h : edit.jumpLabel? = none) (target target' : Label → Nat) :
    edit.instruction? target = edit.instruction? target' := by
  cases edit with
  | jump _ => cases h
  | jumpIfFalse _ => cases h
  | _ => rfl

/-- An edit that jumps to a label adds a jump, which is patched by giving it the target of the label. -/
theorem exists_instruction?_of_jumpLabel? (h : edit.jumpLabel? = some label) (target : Label → Nat) :
    ∃ placeholder jump, edit.instruction? (fun _ => 0) = some placeholder ∧ placeholder.isJump = true ∧
      edit.instruction? target = some jump ∧ placeholder.retarget? (target label) = some jump := by
  cases edit with
  | jump _ =>
      cases h
      exact ⟨_, _, rfl, rfl, rfl, rfl⟩
  | jumpIfFalse _ =>
      cases h
      exact ⟨_, _, rfl, rfl, rfl, rfl⟩
  | _ => cases h

/-! ## One more edit -/

/-- An edit of a longer history is one of the shorter history or the one that was added. -/
theorem concat_eq_append_cons {last : Edit} {before after : List Edit}
    (h : edits ++ [last] = before ++ edit :: after) :
    (∃ between, edits = before ++ edit :: between ∧ after = between ++ [last]) ∨
      before = edits ∧ edit = last ∧ after = [] := by
  rcases append_eq_append_cons h with hearlier | ⟨between, rfl, hlast⟩
  · exact .inl hearlier
  · cases between with
    | nil =>
        cases hlast
        exact .inr ⟨List.append_nil edits, rfl, rfl⟩
    | cons first between => cases between <;> cases hlast

theorem labelCount_concat (edits : List Edit) (last : Edit) :
    labelCount (edits ++ [last]) = labelCount edits + if last = .label then 1 else 0 := by
  rw [labelCount, labelCount, List.count_append, List.count_singleton]
  simp only [beq_iff_eq]

theorem codeLength_append (first second : List Edit) :
    codeLength (first ++ second) = codeLength first + codeLength second := by
  rw [codeLength, codeLength, codeLength, List.countP_append]

theorem bindsKnown_nil : BindsKnown [] := by
  intro before label after h
  simp at h

theorem bindsKnown_concat_iff {last : Edit} :
    BindsKnown (edits ++ [last]) ↔
      BindsKnown edits ∧ ∀ label, last = .bind label → label.number < labelCount edits := by
  constructor
  · intro h
    refine ⟨?_, ?_⟩
    · intro before label after hedits
      exact h before label (after ++ [last]) (by rw [hedits]; simp)
    · rintro label rfl
      exact h edits label [] rfl
  · rintro ⟨hedits, hlast⟩ before label after h
    rcases concat_eq_append_cons h with ⟨between, hbefore, -⟩ | ⟨rfl, hbind, -⟩
    · exact hedits before label between hbefore
    · exact hlast label hbind.symm

theorem boundAt_concat_iff {last : Edit} {index : Nat} :
    BoundAt (edits ++ [last]) label index ↔
      if last = .bind label then codeLength edits = index else BoundAt edits label index := by
  split
  case isTrue hlast =>
    subst hlast
    constructor
    · rintro ⟨before, after, hedits, hafter, hindex⟩
      rcases concat_eq_append_cons hedits with ⟨between, -, rfl⟩ | ⟨rfl, -, -⟩
      · exact absurd (List.mem_append_right between (List.mem_singleton_self _)) hafter
      · exact hindex
    · intro hindex
      exact ⟨edits, [], rfl, List.not_mem_nil, hindex⟩
  case isFalse hlast =>
    constructor
    · rintro ⟨before, after, hedits, hafter, hindex⟩
      rcases concat_eq_append_cons hedits with ⟨between, hbefore, rfl⟩ | ⟨-, hbind, -⟩
      · exact ⟨before, between, hbefore, fun hmem => hafter (List.mem_append_left _ hmem), hindex⟩
      · exact absurd hbind.symm hlast
    · rintro ⟨before, after, rfl, hafter, hindex⟩
      refine ⟨before, after ++ [last], by simp, ?_, hindex⟩
      intro hmem
      rcases List.mem_append.mp hmem with hmem | hmem
      · exact hafter hmem
      · exact hlast (List.mem_singleton.mp hmem).symm

theorem BoundAt.mem {index : Nat} (h : BoundAt edits label index) : .bind label ∈ edits := by
  obtain ⟨before, after, rfl, -, -⟩ := h
  exact List.mem_append_right _ List.mem_cons_self

theorem BoundAt.le_codeLength {index : Nat} (h : BoundAt edits label index) : index ≤ codeLength edits := by
  obtain ⟨before, after, rfl, -, rfl⟩ := h
  rw [codeLength_append]
  omega

/-- The last of the edits that bind a label. -/
theorem exists_boundAt (h : .bind label ∈ edits) : ∃ index, BoundAt edits label index := by
  induction edits using List.reverseRecOn with
  | nil => exact absurd h List.not_mem_nil
  | append_singleton edits last ih =>
      by_cases hlast : last = .bind label
      · exact ⟨codeLength edits, boundAt_concat_iff.mpr (by rw [if_pos hlast])⟩
      · rcases List.mem_append.mp h with hmem | hmem
        · obtain ⟨index, hindex⟩ := ih hmem
          exact ⟨index, boundAt_concat_iff.mpr (by rw [if_neg hlast]; exact hindex)⟩
        · exact absurd (List.mem_singleton.mp hmem).symm hlast

/-! ## What an edit changes -/

theorem filterMap_concat {α : Type} (f : Edit → Option α) (edits : List Edit) (last : Edit) :
    (edits ++ [last]).filterMap f = edits.filterMap f ++ (f last).toList := by
  cases h : f last <;> simp [h]

theorem name_apply (a : Assembler) (edit : Edit) : (a.apply edit).name = a.name := by
  cases edit with
  | bind label =>
      simp only [apply, bind]
      split <;> rfl
  | _ => rfl

theorem params_apply (a : Assembler) (edit : Edit) :
    (a.apply edit).params.toList = a.params.toList ++ edit.param?.toList := by
  cases edit with
  | bind label =>
      simp only [apply, bind]
      split <;> exact (List.append_nil _).symm
  | param name => exact Array.toList_push
  | _ => exact (List.append_nil _).symm

/-- A jump to a label is added as one that still has to get its target. -/
theorem code_apply (a : Assembler) (edit : Edit) :
    (a.apply edit).code.toList = a.code.toList ++ (edit.instruction? fun _ => 0).toList := by
  cases edit with
  | param name => exact (List.append_nil _).symm
  | label => exact (List.append_nil _).symm
  | bind label =>
      simp only [apply, bind]
      split <;> exact (List.append_nil _).symm
  | _ => exact Array.toList_push

theorem fixups_apply (a : Assembler) (edit : Edit) :
    (a.apply edit).fixups.toList = a.fixups.toList ++ (edit.jumpLabel?.map (a.size, ·)).toList := by
  cases edit with
  | bind label =>
      simp only [apply, bind]
      split <;> exact (List.append_nil _).symm
  | jump label => exact Array.toList_push
  | jumpIfFalse label => exact Array.toList_push
  | _ => exact (List.append_nil _).symm

/-- The first binding of an unknown label is kept. -/
theorem stray_apply_eq_some_iff :
    (a.apply edit).stray = some label ↔
      a.stray = some label ∨ a.stray = none ∧ edit = .bind label ∧ a.bindings.size ≤ label.number := by
  cases edit with
  | bind bound =>
      simp only [apply, bind]
      split
      case isTrue hlt =>
        constructor
        · exact .inl
        · rintro (h | ⟨-, heq, hle⟩)
          · exact h
          · cases heq
            omega
      case isFalse hle =>
        cases hstray : a.stray with
        | some first => simp
        | none =>
            simp only [Option.none_or, Option.some.injEq, reduceCtorEq, false_or, true_and, Edit.bind.injEq]
            constructor
            · rintro rfl
              exact ⟨rfl, by omega⟩
            · exact fun h => h.1
  | _ =>
      constructor
      · exact .inl
      · rintro (h | ⟨-, heq, -⟩)
        · exact h
        · cases heq

theorem stray_apply_eq_none_iff :
    (a.apply edit).stray = none ↔
      a.stray = none ∧ ∀ label, edit = .bind label → label.number < a.bindings.size := by
  rw [Option.eq_none_iff_forall_ne_some]
  simp only [ne_eq, stray_apply_eq_some_iff, not_or, not_and, Nat.not_le, forall_and,
    ← Option.eq_none_iff_forall_ne_some]
  exact and_congr_right fun hnone => by simp only [hnone, true_imp_iff]

/-- Binding a known label moves it to the end of the code; no other edit moves a label. -/
theorem bindings_apply {index : Nat} (h : (a.apply edit).stray = none) :
    (a.apply edit).bindings[label.number]? = some (some index) ↔
      if edit = .bind label then a.size = index else a.bindings[label.number]? = some (some index) := by
  cases edit with
  | label =>
      rw [if_neg (by simp)]
      simp only [apply, Assembler.label, Array.getElem?_push]
      split
      case isTrue hsize => simp [hsize]
      case isFalse => rfl
  | bind bound =>
      have hlt := (stray_apply_eq_none_iff.mp h).2 bound rfl
      simp only [apply, bind, if_pos hlt, Array.getElem?_modify, Edit.bind.injEq]
      by_cases hbound : bound = label
      · subst hbound
        simp [hlt]
      · have hnumber : bound.number ≠ label.number := fun heq => hbound (congrArg Label.mk heq)
        rw [if_neg hnumber, if_neg hbound]
  | _ =>
      rw [if_neg (by simp)]
      rfl

/-! ## What an assembler keeps -/

/-- The jumps to labels that edits add from `index` on: the indices of the instructions, and the labels. -/
def jumpsFrom (index : Nat) : List Edit → List (Nat × Label)
  | [] => []
  | edit :: rest => (edit.jumpLabel?.map (index, ·)).toList ++ jumpsFrom (index + codeLength [edit]) rest

theorem jumpsFrom_concat (index : Nat) (edits : List Edit) (last : Edit) :
    jumpsFrom index (edits ++ [last]) =
      jumpsFrom index edits ++ (last.jumpLabel?.map (index + codeLength edits, ·)).toList := by
  induction edits generalizing index with
  | nil => simp [jumpsFrom, codeLength]
  | cons edit edits ih =>
      have hlength := codeLength_append [edit] edits
      rw [List.singleton_append] at hlength
      rw [List.cons_append, jumpsFrom, ih, jumpsFrom, List.append_assoc, hlength, Nat.add_assoc]

/-- What an assembler keeps of the edits that made it. -/
structure Records (name : String) (edits : List Edit) (a : Assembler) : Prop where
  name_eq : a.name = name
  params_eq : a.params.toList = edits.filterMap Edit.param?
  code_eq : a.code.toList = edits.filterMap (Edit.instruction? fun _ => 0)
  labels_eq : a.bindings.size = labelCount edits
  fixups_eq : a.fixups.toList = jumpsFrom 0 edits
  bindsKnown : a.stray = none → BindsKnown edits
  strayBind : ∀ label, a.stray = some label →
    ∃ before after, edits = before ++ .bind label :: after ∧ BindsKnown before ∧ labelCount before ≤ label.number
  boundAt_iff : a.stray = none →
    ∀ label index, a.bindings[label.number]? = some (some index) ↔ BoundAt edits label index

namespace Records

theorem size_eq (h : Records name edits a) : a.size = codeLength edits := by
  rw [size, ← Array.length_toList, h.code_eq, length_filterMap_instruction?]

theorem start (name : String) : Records name [] { name := name } where
  name_eq := rfl
  params_eq := rfl
  code_eq := rfl
  labels_eq := rfl
  fixups_eq := rfl
  bindsKnown _ := bindsKnown_nil
  strayBind label h := by cases h
  boundAt_iff _ label index := by
    constructor
    · intro h
      simp at h
    · intro h
      exact absurd h.mem List.not_mem_nil

theorem apply (h : Records name edits a) (edit : Edit) : Records name (edits ++ [edit]) (a.apply edit) where
  name_eq := by
    rw [name_apply, h.name_eq]
  params_eq := by
    rw [params_apply, h.params_eq, filterMap_concat]
  code_eq := by
    rw [code_apply, h.code_eq, filterMap_concat]
  labels_eq := by
    rw [size_bindings_apply, h.labels_eq, labelCount_concat]
  fixups_eq := by
    rw [fixups_apply, h.fixups_eq, jumpsFrom_concat, h.size_eq, Nat.zero_add]
  bindsKnown hnone := by
    obtain ⟨hstray, hbind⟩ := stray_apply_eq_none_iff.mp hnone
    rw [h.labels_eq] at hbind
    exact bindsKnown_concat_iff.mpr ⟨h.bindsKnown hstray, hbind⟩
  strayBind label hsome := by
    rcases stray_apply_eq_some_iff.mp hsome with hstray | ⟨hstray, rfl, hlabel⟩
    · obtain ⟨before, after, rfl, hbefore, hlabel⟩ := h.strayBind label hstray
      exact ⟨before, after ++ [edit], by simp, hbefore, hlabel⟩
    · rw [h.labels_eq] at hlabel
      exact ⟨edits, [], rfl, h.bindsKnown hstray, hlabel⟩
  boundAt_iff hnone label index := by
    rw [bindings_apply hnone, boundAt_concat_iff, h.size_eq,
      h.boundAt_iff (stray_apply_eq_none_iff.mp hnone).1 label index]

end Records

/-- After any edits, an assembler keeps what it needs of them. -/
theorem records_ofEdits (name : String) (edits : List Edit) : Records name edits (ofEdits name edits) := by
  induction edits using List.reverseRecOn with
  | nil => exact .start name
  | append_singleton edits edit ih =>
      rw [ofEdits, List.foldl_append]
      exact ih.apply edit

/-! ## Patching in order -/

/-- Where an assembler has bound a label. -/
def targetOf (a : Assembler) (label : Label) : Nat :=
  (a.bindings[label.number]?.join).getD 0

theorem target_eq_ok_iff {index target : Nat} :
    a.target index label = .ok target ↔ a.bindings[label.number]? = some (some target) := by
  unfold Assembler.target
  split <;> simp_all

theorem targetOf_eq {target : Nat} (h : a.bindings[label.number]? = some (some target)) :
    a.targetOf label = target := by
  rw [targetOf, h]
  rfl

/-- All labels that the edits jump to have targets. -/
def Resolves (a : Assembler) (edits : List Edit) : Prop :=
  ∀ edit ∈ edits, ∀ label, edit.jumpLabel? = some label → ∃ target, a.bindings[label.number]? = some (some target)

/-- The first jump whose label has no target gives the error. -/
def StopsWith (a : Assembler) (edits : List Edit) (e : AssemblyError) : Prop :=
  ∃ before jump label after, edits = before ++ jump :: after ∧ jump.jumpLabel? = some label ∧
    a.Resolves before ∧ a.target (codeLength before) label = .error e

theorem Resolves.concat {before : List Edit} (h : a.Resolves before)
    (hedit : ∀ label, edit.jumpLabel? = some label → ∃ target, a.bindings[label.number]? = some (some target)) :
    a.Resolves (before ++ [edit]) := by
  intro other hmem
  rcases List.mem_append.mp hmem with hmem | hmem
  · exact h other hmem
  · rwa [List.mem_singleton.mp hmem]

/-- The code in which the jumps of the first edits are patched and those of the others are not. -/
def partlyPatched (a : Assembler) (patched others : List Edit) : List Instruction :=
  patched.filterMap (Edit.instruction? a.targetOf) ++ others.filterMap (Edit.instruction? fun _ => 0)

theorem partlyPatched_concat (a : Assembler) (patched others : List Edit) (edit : Edit) :
    a.partlyPatched (patched ++ [edit]) others =
      patched.filterMap (Edit.instruction? a.targetOf) ++ (edit.instruction? a.targetOf).toList
        ++ others.filterMap (Edit.instruction? fun _ => 0) := by
  rw [partlyPatched, filterMap_concat]

theorem partlyPatched_cons (a : Assembler) (patched others : List Edit) (edit : Edit) :
    a.partlyPatched patched (edit :: others) =
      patched.filterMap (Edit.instruction? a.targetOf) ++ (edit.instruction? fun _ => 0).toList
        ++ others.filterMap (Edit.instruction? fun _ => 0) := by
  rw [partlyPatched, List.append_assoc]
  cases h : edit.instruction? fun _ => 0 <;> simp [h]

/-- One step of patching: the next jump to a label gets its target, or there is none and patching stops. -/
theorem patch_partlyPatched {patched : List Edit} (h : edit.jumpLabel? = some label) (others : List Edit) :
    (∃ e, a.target (codeLength patched) label = .error e ∧
        a.patch (a.partlyPatched patched (edit :: others)).toArray (codeLength patched, label) = .error e) ∨
      (∃ target, a.bindings[label.number]? = some (some target)) ∧
        a.patch (a.partlyPatched patched (edit :: others)).toArray (codeLength patched, label) =
          .ok (a.partlyPatched (patched ++ [edit]) others).toArray := by
  obtain ⟨placeholder, jump, hplaceholder, hisJump, hjump, hretarget⟩ :=
    exists_instruction?_of_jumpLabel? h a.targetOf
  have hlength := length_filterMap_instruction? a.targetOf patched
  rw [partlyPatched_cons, partlyPatched_concat, hplaceholder, hjump]
  simp only [Option.toList_some, List.append_assoc, List.singleton_append]
  have hget : (patched.filterMap (Edit.instruction? a.targetOf) ++
      placeholder :: others.filterMap (Edit.instruction? fun _ => 0)).toArray[codeLength patched]? =
        some placeholder := by
    rw [List.getElem?_toArray, ← hlength, List.getElem?_append_right (Nat.le_refl _), Nat.sub_self]
    rfl
  rcases patch_of_isJump hget hisJump label with ⟨e, htarget, hpatch⟩ | ⟨target, next, htarget, hnext, -, hpatch⟩
  · exact .inl ⟨e, htarget, hpatch⟩
  · have hbinding := target_eq_ok_iff.mp htarget
    rw [← targetOf_eq hbinding, hretarget] at hnext
    cases hnext
    refine .inr ⟨⟨target, hbinding⟩, ?_⟩
    rw [hpatch, ← hlength, List.setIfInBounds_toArray, List.set_append_right _ _ (Nat.le_refl _), Nat.sub_self]
    rfl

/-- Patching goes through all jumps or stops at the first that has no target. -/
theorem foldlM_patch_jumpsFrom {patched : List Edit} (h : a.Resolves patched) (others : List Edit) :
    (a.Resolves (patched ++ others) ∧
        (jumpsFrom (codeLength patched) others).foldlM a.patch (a.partlyPatched patched others).toArray =
          .ok ((patched ++ others).filterMap (Edit.instruction? a.targetOf)).toArray) ∨
      ∃ e, a.StopsWith (patched ++ others) e ∧
        (jumpsFrom (codeLength patched) others).foldlM a.patch (a.partlyPatched patched others).toArray =
          .error e := by
  induction others generalizing patched with
  | nil =>
      simp only [List.append_nil, jumpsFrom, List.foldlM_nil, partlyPatched, List.filterMap_nil]
      exact .inl ⟨h, rfl⟩
  | cons edit others ih =>
      have hsplit : patched ++ edit :: others = patched ++ [edit] ++ others := by simp
      rw [hsplit, jumpsFrom, ← codeLength_append]
      cases hlabel : edit.jumpLabel? with
      | none =>
          have hcode : a.partlyPatched patched (edit :: others) = a.partlyPatched (patched ++ [edit]) others := by
            rw [partlyPatched_cons, partlyPatched_concat,
              instruction?_of_jumpLabel?_eq_none hlabel a.targetOf fun _ => 0]
          rw [hcode]
          refine ih (h.concat ?_)
          intro label hsome
          rw [hlabel] at hsome
          cases hsome
      | some label =>
          simp only [Option.map_some, Option.toList_some, List.singleton_append, List.foldlM_cons]
          rcases patch_partlyPatched hlabel others with ⟨e, htarget, hpatch⟩ | ⟨htarget, hpatch⟩
          · rw [hpatch]
            exact .inr ⟨e, ⟨patched, edit, label, others, hsplit.symm, hlabel, h, htarget⟩, rfl⟩
          · rw [hpatch]
            refine ih (h.concat ?_)
            intro other hother
            cases hlabel.symm.trans hother
            exact htarget

/-! ## Finishing -/

/-- An assembler has bound the labels that its edits have placed, unless an unknown label was bound. -/
theorem Records.placed_iff (h : Records name edits a) (hstray : a.stray = none) :
    Placed edits label ↔ ∃ target, a.bindings[label.number]? = some (some target) := by
  constructor
  · rintro ⟨-, hmem⟩
    obtain ⟨index, hindex⟩ := exists_boundAt hmem
    exact ⟨index, (h.boundAt_iff hstray label index).mpr hindex⟩
  · rintro ⟨target, htarget⟩
    refine ⟨?_, ((h.boundAt_iff hstray label target).mp htarget).mem⟩
    rw [← h.labels_eq]
    exact (Array.getElem?_eq_some_iff.mp htarget).1

theorem Records.resolves_iff (h : Records name edits a) (hstray : a.stray = none) (jumps : List Edit) :
    a.Resolves jumps ↔ JumpsPlaced edits jumps := by
  unfold Resolves JumpsPlaced
  simp only [h.placed_iff hstray]

/-- The error of a label without a target says whether the label was made. -/
theorem Records.refused_of_stopsWith (h : Records name edits a) (hstray : a.stray = none) {e : AssemblyError}
    (hstops : a.StopsWith edits e) : Refused edits e := by
  obtain ⟨before, jump, label, after, hedits, hjump, hbefore, htarget⟩ := hstops
  have hbinds := h.bindsKnown hstray
  have hplaced := (h.resolves_iff hstray before).mp hbefore
  unfold Assembler.target at htarget
  split at htarget
  case h_1 => cases htarget
  case h_2 hnone =>
    cases htarget
    refine .unbound hbinds hedits hjump hplaced ?_ ?_
    · rw [← h.labels_eq]
      exact (Array.getElem?_eq_some_iff.mp hnone).1
    · intro hmem
      obtain ⟨index, hindex⟩ := exists_boundAt hmem
      have hsome := (h.boundAt_iff hstray label index).mpr hindex
      rw [hnone] at hsome
      cases hsome
  case h_3 hnone =>
    cases htarget
    refine .foreignJump hbinds hedits hjump hplaced ?_
    rw [← h.labels_eq]
    exact Array.getElem?_eq_none_iff.mp hnone

/-- What is refused binds a label too early or jumps to one that is not placed. -/
theorem Refused.not_placed {e : AssemblyError} (h : Refused edits e) :
    ¬ (BindsKnown edits ∧ JumpsPlaced edits edits) := by
  rintro ⟨hbinds, hjumps⟩
  cases h with
  | strayBind hedits hbefore hlabel =>
      have := hbinds _ _ _ hedits
      omega
  | unbound _ hedits hjump _ _ hbind =>
      refine hbind (hjumps _ ?_ _ hjump).2
      rw [hedits]
      exact List.mem_append_right _ List.mem_cons_self
  | @foreignJump before after jump label _ hedits hjump _ hmade =>
      have hplaced : Placed edits label := by
        refine hjumps jump ?_ label hjump
        rw [hedits]
        exact List.mem_append_right _ List.mem_cons_self
      have := hplaced.1
      omega

/-- Finishing gives the patched function or a reason why there is none. -/
theorem Records.finish_cases (h : Records name edits a) :
    (a.stray = none ∧ BindsKnown edits ∧ JumpsPlaced edits edits ∧
        a.finish = .ok {
          name := name
          params := edits.filterMap Edit.param?
          body := edits.filterMap (Edit.instruction? a.targetOf) }) ∨
      ∃ e, Refused edits e ∧ a.finish = .error e := by
  cases hstray : a.stray with
  | some label =>
      obtain ⟨before, after, hedits, hbefore, hlabel⟩ := h.strayBind label hstray
      refine .inr ⟨_, .strayBind hedits hbefore hlabel, ?_⟩
      simp only [finish, hstray]
  | none =>
      have hcode : a.code = (a.partlyPatched [] edits).toArray := by
        rw [← Array.toList_inj, h.code_eq]
        rfl
      have hstart : a.Resolves [] := fun edit hmem => absurd hmem List.not_mem_nil
      simp only [finish, hstray, h.fixups_eq, hcode]
      rcases foldlM_patch_jumpsFrom hstart edits with ⟨hresolves, hpatched⟩ | ⟨e, hstops, hpatched⟩
      · refine .inl ⟨trivial, h.bindsKnown hstray, (h.resolves_iff hstray edits).mp hresolves, ?_⟩
        rw [show codeLength [] = 0 from rfl] at hpatched
        rw [hpatched, h.name_eq, h.params_eq]
        rfl
      · refine .inr ⟨e, h.refused_of_stopsWith hstray hstops, ?_⟩
        rw [show codeLength [] = 0 from rfl] at hpatched
        rw [hpatched]
        rfl

/-- Labels are numbered as they are made.  After any edits, the assembler can be finished exactly if no label was bound
before it was made and every label that is jumped to has been made and bound.  The function has the name, the
parameters and the instructions in the order of the edits, and each jump to a label leads to where the label was bound
last.  Otherwise the error is that of the first binding of an unknown label or, if there is none, of the first jump to
a label that is not bound. -/
theorem finish_ofEdits (name : String) (edits : List Edit) :
    (ofEdits name edits).label.2 = ⟨labelCount edits⟩ ∧
      ((∃ f, (ofEdits name edits).finish = .ok f) ↔ BindsKnown edits ∧ JumpsPlaced edits edits) ∧
      (∀ f, (ofEdits name edits).finish = .ok f →
        ∃ target : Label → Nat,
          f = ⟨name, edits.filterMap Edit.param?, edits.filterMap (Edit.instruction? target)⟩ ∧
          ∀ edit ∈ edits, ∀ label, edit.jumpLabel? = some label →
            BoundAt edits label (target label) ∧ target label ≤ f.body.length) ∧
      ∀ e, (ofEdits name edits).finish = .error e → Refused edits e := by
  have h := records_ofEdits name edits
  refine ⟨congrArg Label.mk h.labels_eq, ?_⟩
  rcases h.finish_cases with ⟨hstray, hbinds, hjumps, hfinish⟩ | ⟨e, hrefused, hfinish⟩
  · rw [hfinish]
    refine ⟨⟨fun _ => ⟨hbinds, hjumps⟩, fun _ => ⟨_, rfl⟩⟩, ?_, ?_⟩
    · intro f hf
      cases hf
      refine ⟨_, rfl, ?_⟩
      intro edit hmem label hlabel
      obtain ⟨target, htarget⟩ := (h.placed_iff hstray).mp (hjumps edit hmem label hlabel)
      have hbound := (h.boundAt_iff hstray label target).mp htarget
      rw [targetOf_eq htarget, length_filterMap_instruction?]
      exact ⟨hbound, hbound.le_codeLength⟩
    · intro e herror
      cases herror
  · rw [hfinish]
    refine ⟨⟨?_, fun hplaced => absurd hplaced hrefused.not_placed⟩, ?_, ?_⟩
    · rintro ⟨f, hf⟩
      cases hf
    · intro f hf
      cases hf
    · intro e' he
      cases he
      exact hrefused

/-- A label that is bound twice, with jumps before, between and after, and a pushed jump that keeps its target. -/
example : (ofEdits "f"
    [.jump ⟨0⟩, .label, .bind ⟨0⟩, .push (.jump 7), .jumpIfFalse ⟨0⟩, .bind ⟨0⟩, .param "x", .jump ⟨0⟩]).finish =
      .ok ⟨"f", ["x"], [.jump 3, .jump 7, .jumpIfFalse 3, .jump 3]⟩ := by
  rfl

end Assembler

end ShaderLift
