import ShaderLift.Line

/-!
# Nested conditionals

A nesting is a sequence of leaves in which parts stand under conditions, with or without an alternative.  Written
flat, it is a list of marks in which the bodies are delimited like the blocks of a lifted function.

* `Nesting.marks` is the flat form of a nesting, and `Nesting.read?` reads a list of marks back.
* `Nesting.read?_eq_some_iff` says that reading accepts exactly the flat forms, so a list of marks can be read in
  one way at most.
* `Nesting.lines` is the flat form of nested statements as indented lines, and `Statement.mark` says how a line takes
  part in the nesting.
-/

namespace ShaderLift

/-- An entry of two lists in a row stands in the first or in the second. -/
theorem append_eq_append_cons {α : Type} {first second before after : List α} {a : α}
    (h : first ++ second = before ++ a :: after) :
    (∃ between, first = before ++ a :: between ∧ after = between ++ second) ∨
      ∃ between, before = first ++ between ∧ second = between ++ a :: after := by
  rcases List.append_eq_append_iff.mp h with ⟨between, hbefore, hsecond⟩ | ⟨between, hfirst, hafter⟩
  · exact .inr ⟨between, hbefore, hsecond⟩
  · cases between with
    | nil =>
        rw [List.append_nil] at hfirst
        exact .inr ⟨[], by rw [hfirst, List.append_nil], hafter.symm⟩
    | cons b between =>
        obtain ⟨rfl, rfl⟩ := List.cons.inj hafter
        exact .inl ⟨between, hfirst, rfl⟩

/-- A sequence of leaves and conditionals, nested to any depth. -/
inductive Nesting (α β : Type) where
  | nil
  | leaf (a : α) (rest : Nesting α β)
  | ifThen (condition : β) (body rest : Nesting α β)
  | ifElse (condition : β) (body other rest : Nesting α β)
deriving DecidableEq, Repr

/-- One entry of a nesting written flat. -/
inductive Mark (α β : Type) where
  | leaf (a : α)
  /-- The start of a body under a condition. -/
  | openIf (condition : β)
  /-- The end of such a body and the start of its alternative. -/
  | openElse
  /-- The end of a body or of an alternative. -/
  | close
deriving DecidableEq, Repr

/-- The same mark with other leaves and conditions. -/
def Mark.map {α β γ δ : Type} (f : α → γ) (g : β → δ) : Mark α β → Mark γ δ
  | leaf a => leaf (f a)
  | openIf condition => openIf (g condition)
  | openElse => openElse
  | close => close

namespace Nesting

variable {α β γ δ : Type}

/-- One nesting after another. -/
def append : Nesting α β → Nesting α β → Nesting α β
  | nil, after => after
  | leaf a rest, after => leaf a (rest.append after)
  | ifThen c body rest, after => ifThen c body (rest.append after)
  | ifElse c body other rest, after => ifElse c body other (rest.append after)

/-- A sequence of leaves in front of a nesting. -/
def leaves (as : List α) (t : Nesting α β) : Nesting α β :=
  as.foldr leaf t

/-- The same nesting with other leaves and conditions. -/
def map (f : α → γ) (g : β → δ) : Nesting α β → Nesting γ δ
  | nil => nil
  | leaf a rest => leaf (f a) (rest.map f g)
  | ifThen c body rest => ifThen (g c) (body.map f g) (rest.map f g)
  | ifElse c body other rest => ifElse (g c) (body.map f g) (other.map f g) (rest.map f g)

/-- Whether no alternative is empty. -/
def Proper : Nesting α β → Prop
  | nil => True
  | leaf _ rest => rest.Proper
  | ifThen _ body rest => body.Proper ∧ rest.Proper
  | ifElse _ body other rest => body.Proper ∧ other ≠ nil ∧ other.Proper ∧ rest.Proper

/-- The flat form of a nesting. -/
def marks : Nesting α β → List (Mark α β)
  | nil => []
  | leaf a rest => .leaf a :: rest.marks
  | ifThen c body rest => .openIf c :: (body.marks ++ .close :: rest.marks)
  | ifElse c body other rest =>
      .openIf c :: (body.marks ++ .openElse :: (other.marks ++ .close :: rest.marks))

@[simp] theorem append_nil (t : Nesting α β) : t.append nil = t := by
  induction t with
  | nil => rfl
  | leaf a rest ih => rw [append, ih]
  | ifThen c body rest _ ih => rw [append, ih]
  | ifElse c body other rest _ _ ih => rw [append, ih]

/-- Changing leaves and conditions changes the flat form mark by mark. -/
theorem marks_map (f : α → γ) (g : β → δ) (t : Nesting α β) :
    (t.map f g).marks = t.marks.map (Mark.map f g) := by
  induction t with
  | nil => rfl
  | leaf a rest ih => simp [map, marks, Mark.map, ih]
  | ifThen c body rest ihBody ihRest => simp [map, marks, Mark.map, ihBody, ihRest]
  | ifElse c body other rest ihBody ihOther ihRest =>
      simp [map, marks, Mark.map, ihBody, ihOther, ihRest]

/-! ## Reading -/

/-- What may follow a body in a flat form, up to the end of the body around it. -/
inductive Tail (α β : Type) where
  /-- The body is closed, and `rest` follows. -/
  | closed (rest : Nesting α β)
  /-- The body has the alternative `other`, and `rest` follows that. -/
  | otherwise (other rest : Nesting α β)

/-- Reads marks that may start inside of bodies: gives the rest of the innermost body and what follows it, one
tail for each body around. -/
def readOpen? : List (Mark α β) → Option (Nesting α β × List (Tail α β))
  | [] => some (nil, [])
  | .leaf a :: marks =>
      match readOpen? marks with
      | some (body, tails) => some (leaf a body, tails)
      | none => none
  | .openIf c :: marks =>
      match readOpen? marks with
      | some (body, .closed rest :: tails) => some (ifThen c body rest, tails)
      | some (body, .otherwise other rest :: tails) => some (ifElse c body other rest, tails)
      | _ => none
  | .openElse :: marks =>
      match readOpen? marks with
      | some (other, .closed rest :: tails) => some (nil, .otherwise other rest :: tails)
      | _ => none
  | .close :: marks =>
      match readOpen? marks with
      | some (rest, tails) => some (nil, .closed rest :: tails)
      | none => none

/-- Reads the flat form of a nesting. -/
def read? (marks : List (Mark α β)) : Option (Nesting α β) :=
  match readOpen? marks with
  | some (t, []) => some t
  | _ => none

/-- A flat form in front of marks that can be read is read into the innermost body. -/
theorem readOpen?_marks_append (t : Nesting α β) {marks : List (Mark α β)} {body : Nesting α β}
    {tails : List (Tail α β)} (h : readOpen? marks = some (body, tails)) :
    readOpen? (t.marks ++ marks) = some (t.append body, tails) := by
  induction t generalizing marks body tails with
  | nil => exact h
  | leaf a rest ih =>
      have hrest := ih h
      simp only [Nesting.marks, List.cons_append, readOpen?, hrest, append]
  | ifThen c inner rest ihInner ihRest =>
      -- Marks are read from the end on, so what follows the conditional is read before its body.
      have hrest := ihRest h
      have hclose : readOpen? (.close :: (rest.marks ++ marks)) =
          some (nil, .closed (rest.append body) :: tails) := by
        simp only [readOpen?, hrest]
      have hinner := ihInner hclose
      simp only [Nesting.marks, List.cons_append, List.append_assoc, readOpen?, hinner, append,
        append_nil]
  | ifElse c inner other rest ihInner ihOther ihRest =>
      have hrest := ihRest h
      have hclose : readOpen? (.close :: (rest.marks ++ marks)) =
          some (nil, .closed (rest.append body) :: tails) := by
        simp only [readOpen?, hrest]
      have hother := ihOther hclose
      have helse : readOpen? (.openElse :: (other.marks ++ .close :: (rest.marks ++ marks))) =
          some (nil, .otherwise other (rest.append body) :: tails) := by
        simp only [readOpen?, hother, append_nil]
      have hinner := ihInner helse
      simp only [Nesting.marks, List.cons_append, List.append_assoc, readOpen?, hinner, append,
        append_nil]

/-- The flat form of what follows the bodies around a position. -/
def tailMarks : List (Tail α β) → List (Mark α β)
  | [] => []
  | .closed rest :: tails => .close :: (rest.marks ++ tailMarks tails)
  | .otherwise other rest :: tails =>
      .openElse :: (other.marks ++ .close :: (rest.marks ++ tailMarks tails))

/-- Reading loses nothing: the marks are the flat form of what was read. -/
theorem eq_marks_append_tailMarks {marks : List (Mark α β)} {body : Nesting α β}
    {tails : List (Tail α β)} (h : readOpen? marks = some (body, tails)) :
    marks = body.marks ++ tailMarks tails := by
  -- The cases are those of reading; where it fails there is nothing to show.
  fun_induction readOpen? marks generalizing body tails with
  | case1 =>
      cases h
      rfl
  | case2 a marks body' tails' hread ih =>
      cases h
      rw [Nesting.marks, List.cons_append, ← ih hread]
  | case3 => cases h
  | case4 c marks body' rest tails' hread ih =>
      cases h
      rw [ih hread]
      simp only [Nesting.marks, tailMarks, List.cons_append, List.append_assoc]
  | case5 c marks body' other rest tails' hread ih =>
      cases h
      rw [ih hread]
      simp only [Nesting.marks, tailMarks, List.cons_append, List.append_assoc]
  | case6 => cases h
  | case7 marks other rest tails' hread ih =>
      cases h
      rw [ih hread]
      simp only [Nesting.marks, tailMarks, List.nil_append]
  | case8 => cases h
  | case9 marks rest tails' hread ih =>
      cases h
      rw [ih hread]
      simp only [Nesting.marks, tailMarks, List.nil_append]
  | case10 => cases h

/-- Reading accepts exactly the flat forms of nestings. -/
theorem read?_eq_some_iff {marks : List (Mark α β)} {t : Nesting α β} :
    read? marks = some t ↔ marks = t.marks := by
  constructor
  · intro h
    unfold read? at h
    split at h
    · rename_i t' hread
      cases h
      rw [eq_marks_append_tailMarks hread]
      simp only [tailMarks, List.append_nil]
    · cases h
  · rintro rfl
    have hnil : readOpen? ([] : List (Mark α β)) = some (nil, []) := rfl
    have hread := readOpen?_marks_append t hnil
    rw [List.append_nil, append_nil] at hread
    simp only [read?, hread]

/-! ## Lines -/

/-- The lines of nested statements, with the outermost ones at the given depth. -/
def lines (depth : Nat) : Nesting Statement Expr → List Line
  | nil => []
  | leaf statement rest => ⟨depth, statement⟩ :: rest.lines depth
  | ifThen c body rest =>
      ⟨depth, .openIf c⟩ :: (body.lines (depth + 1) ++ ⟨depth, .close⟩ :: rest.lines depth)
  | ifElse c body other rest =>
      ⟨depth, .openIf c⟩ :: (body.lines (depth + 1) ++ ⟨depth, .openElse⟩ ::
        (other.lines (depth + 1) ++ ⟨depth, .close⟩ :: rest.lines depth))

end Nesting

/-- How a line takes part in the nesting: it delimits a body or stands in one. -/
def Statement.mark : Statement → Mark Statement Expr
  | openIf condition => .openIf condition
  | openElse => .openElse
  | close => .close
  | statement => .leaf statement

end ShaderLift
