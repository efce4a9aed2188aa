import ShaderLift.Proofs.Machine

/-!
# The extents of conditional bodies

How far the bodies of a conditional jump reach and how deep an instruction lies in bodies, read off the list of
instructions without going over it.  In a flattened tree, the extents are those of the tree's conditionals.

* `extent?`, `depthAt`: the extent of a conditional jump and the depth of an instruction.
* `extent?_of_ifThen`, `extent?_of_ifElse`: extents in a flattened tree.
* `CodeAt.extent_le`, `CodeAt.nested`: bodies end with the tree around them, and two of them are nested or disjoint.
* `openBefore`: the jumps before an index that are open around another one, counted; the depth of a part of a tree
  follows from what is open before it.
-/

namespace ShaderLift

/-- Where the bodies of the conditional jump at an index end: where the jump right before its target leads to if there
is one, and else at the target. -/
def extent? (body : List Instruction) (index : Nat) : Option Nat :=
  match body[index]? with
  | some (.jumpIfFalse target) =>
      match body[target - 1]? with
      | some (.jump stop) => some stop
      | _ => some target
  | _ => none

/-- The number of conditional jumps before `start` whose bodies go on behind `index`. -/
def openBefore (body : List Instruction) (start index : Nat) : Nat :=
  (List.range start).countP fun opener => (extent? body opener).any fun stop => decide (index < stop)

/-- The depth of the instruction at an index: one, and one more for each conditional jump before it whose bodies go on
behind it. -/
def depthAt (body : List Instruction) (index : Nat) : Nat :=
  1 + openBefore body index index

theorem lt_length_of_extent? {body : List Instruction} {index stop : Nat} (h : extent? body index = some stop) :
    index < body.length := by
  refine Nat.lt_of_not_le fun hle => ?_
  rw [extent?, List.getElem?_eq_none hle] at h
  cases h

/-! ## Counting -/

section Counting

variable {body : List Instruction} {start index : Nat}

theorem openBefore_succ (body : List Instruction) (start index : Nat) :
    openBefore body (start + 1) index =
      openBefore body start index + if (extent? body start).any (fun stop => decide (index < stop)) then 1 else 0 := by
  rw [openBefore, List.range_succ, List.countP_append, List.countP_singleton]
  rfl

/-- An instruction that opens no body is not counted. -/
theorem openBefore_succ_of_none (h : extent? body start = none) (index : Nat) :
    openBefore body (start + 1) index = openBefore body start index := by
  rw [openBefore_succ, h]
  rfl

/-- A conditional jump is counted inside of its bodies. -/
theorem openBefore_succ_of_lt {stop : Nat} (h : extent? body start = some stop) (hlt : index < stop) :
    openBefore body (start + 1) index = openBefore body start index + 1 := by
  rw [openBefore_succ, h, Option.any_some, decide_eq_true hlt, if_pos rfl]

/-- Bodies that end before an index are not counted there. -/
theorem openBefore_eq_of_extent_le {stop : Nat} (hle : start ≤ stop)
    (h : ∀ opener extent, start ≤ opener → opener < stop → extent? body opener = some extent → extent ≤ index) :
    openBefore body stop index = openBefore body start index := by
  induction hle with
  | refl => rfl
  | @step stop hle ih =>
      have hlast : (extent? body stop).any (fun extent => decide (index < extent)) = false := by
        cases hextent : extent? body stop with
        | none => rfl
        | some extent =>
            have := h stop extent hle (Nat.lt_succ_self stop) hextent
            rw [Option.any_some, decide_eq_false (by omega)]
      rw [openBefore_succ, hlast, ih fun opener extent hstart hlt => h opener extent hstart (Nat.lt_succ_of_lt hlt)]
      rfl

end Counting

/-! ## Extents in a flattened tree -/

namespace CodeAt

variable {body : List Instruction} {index : Nat} {xs : List Instruction}

theorem getElem? (h : CodeAt body index xs) {offset : Nat} (hlt : offset < xs.length) :
    body[index + offset]? = xs[offset]? := by
  obtain ⟨after, hafter⟩ := h
  rw [← List.getElem?_drop, hafter, List.getElem?_append_left hlt]

/-- The last of the instructions. -/
theorem getLast? (h : CodeAt body index xs) (hne : xs ≠ []) :
    body[index + xs.length - 1]? = xs.getLast? := by
  have hpos : 0 < xs.length := List.length_pos_iff.mpr hne
  rw [List.getLast?_eq_getElem?, Nat.add_sub_assoc hpos]
  exact h.getElem? (by omega)

end CodeAt

section Trees

variable {body : List Instruction} {index : Nat}

theorem extent?_of_plain {a : Plain} (h : body[index]? = some (a.at index)) : extent? body index = none := by
  unfold extent?
  split
  · rename_i target hjump
    exact absurd (Option.some.inj (h.symm.trans hjump)) (a.at_ne_jumpIfFalse index target)
  · rfl

/-- A body without an alternative ends at the target of the conditional jump: a jump at the end of the body leads
nowhere else. -/
theorem extent?_of_ifThen {stop : Nat} {inner rest : JumpTree} (hproper : inner.Proper)
    (hstop : stop = index + 1 + inner.size)
    (h : CodeAt body index (Nesting.flatten index (.ifThen () inner rest))) : extent? body index = some stop := by
  obtain ⟨hhead, hinner, -⟩ := h.ifThen hstop
  unfold extent?
  simp only [hhead]
  split
  · rename_i target hjump
    by_cases hnil : inner.flatten (index + 1) = []
    · -- The body is empty, so the conditional jump itself stands before its target.
      have hsize : inner.size = 0 := by rw [← Nesting.length_flatten inner (index + 1), hnil]; rfl
      have hindex : stop - 1 = index := by omega
      rw [hindex, hhead] at hjump
      cases hjump
    · have hlast := hinner.getLast? hnil
      rw [Nesting.length_flatten, ← hstop, hjump] at hlast
      rw [Nesting.eq_of_getLast?_flatten hproper hlast.symm, hstop]
  · rfl

/-- A body with an alternative ends with the alternative. -/
theorem extent?_of_ifElse {middle stop : Nat} {inner other rest : JumpTree} (hmiddle : middle = index + 1 + inner.size)
    (hstop : stop = middle + 1 + other.size)
    (h : CodeAt body index (Nesting.flatten index (.ifElse () inner other rest))) : extent? body index = some stop := by
  obtain ⟨hhead, -, hjump, -⟩ := h.ifElse hmiddle hstop
  simp only [extent?, hhead, Nat.add_sub_cancel, hjump]

/-- The conditional jumps of a conditional without an alternative: its own, those of its body and those behind it. -/
theorem CodeAt.opener_ifThen {stop opener extent : Nat} {inner rest : JumpTree} (hproper : inner.Proper)
    (hstop : stop = index + 1 + inner.size)
    (h : CodeAt body index (Nesting.flatten index (.ifThen () inner rest))) (hle : index ≤ opener)
    (hextent : extent? body opener = some extent) :
    opener = index ∧ extent = stop ∨ index + 1 ≤ opener ∧ opener < index + 1 + inner.size ∨ stop ≤ opener := by
  rcases Nat.eq_or_lt_of_le hle with rfl | hinside
  · exact .inl ⟨rfl, Option.some.inj (hextent.symm.trans (extent?_of_ifThen hproper hstop h))⟩
  · omega

/-- The conditional jumps of a conditional with an alternative: its own, those of the two bodies and those behind
it. -/
theorem CodeAt.opener_ifElse {middle stop opener extent : Nat} {inner other rest : JumpTree}
    (hmiddle : middle = index + 1 + inner.size) (hstop : stop = middle + 1 + other.size)
    (h : CodeAt body index (Nesting.flatten index (.ifElse () inner other rest))) (hle : index ≤ opener)
    (hextent : extent? body opener = some extent) :
    opener = index ∧ extent = stop ∨ index + 1 ≤ opener ∧ opener < index + 1 + inner.size ∨
      middle + 1 ≤ opener ∧ opener < middle + 1 + other.size ∨ stop ≤ opener := by
  rcases Nat.eq_or_lt_of_le hle with rfl | hinside
  · exact .inl ⟨rfl, Option.some.inj (hextent.symm.trans (extent?_of_ifElse hmiddle hstop h))⟩
  · -- The jump over the alternative opens no body of its own.
    have hne : opener ≠ middle := by
      rintro rfl
      obtain ⟨-, -, hjump, -⟩ := h.ifElse hmiddle hstop
      simp only [extent?, hjump] at hextent
      cases hextent
    omega

/-- Bodies go forward and end no later than the tree around them. -/
theorem CodeAt.extent_le {t : JumpTree} (hproper : t.Proper) (h : CodeAt body index (t.flatten index))
    {opener stop : Nat} (hle : index ≤ opener) (hlt : opener < index + t.size)
    (hextent : extent? body opener = some stop) : opener < stop ∧ stop ≤ index + t.size := by
  induction t generalizing index with
  | nil => exact absurd hlt (Nat.not_lt_of_le hle)
  | leaf a rest ih =>
      obtain ⟨hhead, htail⟩ := h.leaf
      rw [Nesting.add_size_leaf] at hlt ⊢
      rcases Nat.eq_or_lt_of_le hle with rfl | hafter
      · cases (extent?_of_plain hhead).symm.trans hextent
      · exact ih hproper htail hafter hlt
  | ifThen condition inner rest ihInner ihRest =>
      obtain ⟨hinner, hrest⟩ := hproper
      obtain ⟨-, hinside, hafter⟩ := h.ifThen rfl
      rw [Nesting.size] at hlt ⊢
      rcases h.opener_ifThen hinner rfl hle hextent with ⟨rfl, rfl⟩ | ⟨hstart, hstop⟩ | hstart
      · omega
      · have hbounds := ihInner hinner hinside hstart hstop
        omega
      · have hbounds := ihRest hrest hafter hstart (by omega)
        omega
  | ifElse condition inner other rest ihInner ihOther ihRest =>
      obtain ⟨hinner, -, hother, hrest⟩ := hproper
      obtain ⟨-, hinside, -, halternative, hafter⟩ := h.ifElse rfl rfl
      rw [Nesting.size] at hlt ⊢
      rcases h.opener_ifElse rfl rfl hle hextent with
        ⟨rfl, rfl⟩ | ⟨hstart, hstop⟩ | ⟨hstart, hstop⟩ | hstart
      · omega
      · have hbounds := ihInner hinner hinside hstart hstop
        omega
      · have hbounds := ihOther hother halternative hstart hstop
        omega
      · have hbounds := ihRest hrest hafter hstart (by omega)
        omega

/-- Bodies that start inside of others end inside of them. -/
theorem CodeAt.nested {t : JumpTree} (hproper : t.Proper) (h : CodeAt body index (t.flatten index))
    {outer inner outerStop innerStop : Nat} (hle : index ≤ outer) (hlt : outer < index + t.size)
    (houter : extent? body outer = some outerStop) (hinner : extent? body inner = some innerStop)
    (hafter : outer < inner) (hinside : inner < outerStop) : innerStop ≤ outerStop := by
  induction t generalizing index with
  | nil => exact absurd hlt (Nat.not_lt_of_le hle)
  | leaf a rest ih =>
      obtain ⟨hhead, htail⟩ := h.leaf
      rw [Nesting.add_size_leaf] at hlt
      rcases Nat.eq_or_lt_of_le hle with rfl | hle
      · cases (extent?_of_plain hhead).symm.trans houter
      · exact ih hproper htail hle hlt
  | ifThen condition first rest ihFirst ihRest =>
      obtain ⟨hfirst, hrest⟩ := hproper
      obtain ⟨-, hfirstCode, hrestCode⟩ := h.ifThen rfl
      rw [Nesting.size] at hlt
      rcases h.opener_ifThen hfirst rfl hle houter with ⟨rfl, rfl⟩ | ⟨hstart, hstop⟩ | hstart
      · exact (hfirstCode.extent_le hfirst hafter hinside hinner).2
      · exact ihFirst hfirst hfirstCode hstart hstop
      · exact ihRest hrest hrestCode hstart (by omega)
  | ifElse condition first second rest ihFirst ihSecond ihRest =>
      obtain ⟨hfirst, -, hsecond, hrest⟩ := hproper
      obtain ⟨-, hfirstCode, -, hsecondCode, hrestCode⟩ := h.ifElse rfl rfl
      rw [Nesting.size] at hlt
      rcases h.opener_ifElse rfl rfl hle houter with
        ⟨rfl, rfl⟩ | ⟨hstart, hstop⟩ | ⟨hstart, hstop⟩ | hstart
      · -- The inner conditional stands in one of the two bodies.
        rcases h.opener_ifElse rfl rfl (Nat.le_of_lt hafter) hinner with
          ⟨rfl, -⟩ | ⟨hstart, hstop⟩ | ⟨hstart, hstop⟩ | hstart
        · omega
        · have hbounds := hfirstCode.extent_le hfirst hstart hstop hinner
          omega
        · exact (hsecondCode.extent_le hsecond hstart hstop hinner).2
        · omega
      · exact ihFirst hfirst hfirstCode hstart hstop
      · exact ihSecond hsecond hsecondCode hstart hstop
      · exact ihRest hrest hrestCode hstart (by omega)

end Trees

/-! ## The depth of the parts of a tree -/

/-- From `start` to `stop`, the conditional jumps before `start` make up the same depth. -/
def OpenAround (body : List Instruction) (start stop depth : Nat) : Prop :=
  ∀ index, start ≤ index → index < stop → 1 + openBefore body start index = depth

namespace OpenAround

variable {body : List Instruction} {index stop depth : Nat}

theorem depthAt_eq (h : OpenAround body index stop depth) (hlt : index < stop) : depthAt body index = depth :=
  h index (Nat.le_refl index) hlt

theorem whole (body : List Instruction) : OpenAround body 0 body.length 1 :=
  fun _ _ _ => rfl

theorem mono {stop' : Nat} (h : OpenAround body index stop depth) (hle : stop' ≤ stop) :
    OpenAround body index stop' depth :=
  fun later hstart hlt => h later hstart (Nat.lt_of_lt_of_le hlt hle)

/-- An instruction that opens no body changes nothing for the ones after it. -/
theorem next (h : OpenAround body index stop depth) (hnone : extent? body index = none) :
    OpenAround body (index + 1) stop depth := by
  intro later hle hlt
  rw [openBefore_succ_of_none hnone]
  exact h later (by omega) hlt

/-- In the bodies of a conditional jump the depth is one greater. -/
theorem enter {extent : Nat} (h : OpenAround body index stop depth) (hextent : extent? body index = some extent)
    (hle : extent ≤ stop) : OpenAround body (index + 1) extent (depth + 1) := by
  intro later hstart hlt
  have hdepth := h later (by omega) (by omega)
  rw [openBefore_succ_of_lt hextent hlt]
  omega

/-- Behind a part of a tree, the depth is that before it. -/
theorem skip {t : JumpTree} {after : Nat} (h : OpenAround body index stop depth) (hproper : t.Proper)
    (hcode : CodeAt body index (t.flatten index)) (hafter : after = index + t.size) :
    OpenAround body after stop depth := by
  intro later hstart hlt
  rw [openBefore_eq_of_extent_le (show index ≤ after by omega)]
  · exact h later (by omega) hlt
  · intro opener extent hle hopener hextent
    have hbounds := hcode.extent_le hproper hle (by omega) hextent
    omega

/-- Behind a conditional, the depth is that before it: the part of the tree that ends with it is skipped. -/
theorem behind_ifThen {after : Nat} {inner rest : JumpTree} (h : OpenAround body index stop depth)
    (hproper : inner.Proper) (hafter : after = index + 1 + inner.size)
    (hcode : CodeAt body index (Nesting.flatten index (.ifThen () inner rest))) :
    OpenAround body after stop depth := by
  have hcut : CodeAt body index (Nesting.flatten index (.ifThen () inner .nil)) := by
    simp only [Nesting.flatten, List.append_nil]
    simp only [Nesting.flatten, ← List.cons_append] at hcode
    exact hcode.left
  refine h.skip (t := .ifThen () inner .nil) ⟨hproper, trivial⟩ hcut ?_
  rw [Nesting.size, Nesting.size]
  omega

theorem behind_ifElse {middle after : Nat} {inner other rest : JumpTree} (h : OpenAround body index stop depth)
    (hproper : Nesting.Proper (.ifElse () inner other .nil)) (hmiddle : middle = index + 1 + inner.size)
    (hafter : after = middle + 1 + other.size)
    (hcode : CodeAt body index (Nesting.flatten index (.ifElse () inner other rest))) :
    OpenAround body after stop depth := by
  have hcut : CodeAt body index (Nesting.flatten index (.ifElse () inner other .nil)) := by
    simp only [Nesting.flatten, List.append_nil]
    simp only [Nesting.flatten, ← List.cons_append, ← List.append_assoc] at hcode
    exact hcode.left
  refine h.skip hproper hcut ?_
  rw [Nesting.size, Nesting.size]
  omega

end OpenAround

end ShaderLift
