import ShaderLift.Block
import ShaderLift.Instruction.Basic
import ShaderLift.Proofs.Nesting

/-!
# The grammar of structured jumps

Which lists of instructions have jumps that fit the nesting of bodies.  `Blocks.walk` goes over a list as lifting
does, closing bodies where they end and opening or switching them at jumps, and looks at nothing but the jumps.
On the other side stand trees of instructions and conditionals, which are flattened to lists with absolute targets.

* `Nesting.walk_flatten`: the walk over a flattened tree goes through and meets the edges of the tree in order.
* `Blocks.exists_flatten_of_walk`: a list over which the walk goes through is a flattened tree.
* `Nesting.flatten_injective`: different trees flatten to different lists.
* `Blocks.walk_ok_iff_flatten`: the three facts together.
-/

namespace ShaderLift

/-- Whether an instruction is a jump, conditional or not. -/
def Instruction.isJump : Instruction → Bool
  | jumpIfFalse _ => true
  | jump _ => true
  | _ => false

/-- An instruction that has no part in the nesting of bodies. -/
inductive Plain where
  /-- An instruction that is not a jump. -/
  | instruction (i : { i : Instruction // i.isJump = false })
  /-- A jump to the instruction that comes next anyway. -/
  | skip
deriving DecidableEq

/-- The instruction as it stands at an index. -/
def Plain.at (index : Nat) : Plain → Instruction
  | instruction i => i.val
  | skip => .jump (index + 1)

theorem Plain.at_ne_jumpIfFalse (a : Plain) (index target : Nat) : a.at index ≠ .jumpIfFalse target := by
  cases a with
  | skip => exact Instruction.noConfusion
  | instruction i =>
      intro h
      have hjump := i.property
      rw [show i.val = .jumpIfFalse target from h] at hjump
      cases hjump

/-- Only the instruction after it is skipped to, so a plain instruction is known from how it stands. -/
theorem Plain.at_injective {a b : Plain} {index : Nat} (h : a.at index = b.at index) : a = b := by
  cases a with
  | skip =>
      cases b with
      | skip => rfl
      | instruction i =>
          have hjump := i.property
          rw [← show _ = i.val from h] at hjump
          cases hjump
  | instruction i =>
      cases b with
      | skip =>
          have hjump := i.property
          rw [show i.val = _ from h] at hjump
          cases hjump
      | instruction j => rw [Subtype.ext h]

/-- A tree of the jump grammar: a sequence of plain instructions and conditionals. -/
abbrev JumpTree := Nesting Plain Unit

/-- Where a body starts or ends, with the index at which that is noticed. -/
inductive Edge where
  /-- A conditional jump starts an `if` body. -/
  | opened (index : Nat)
  /-- A jump ends an `if` body and starts its `else` body. -/
  | switched (index : Nat)
  /-- A body ends before the instruction at the index. -/
  | closed (index : Nat)
deriving DecidableEq, Repr

namespace Nesting

/-- The number of instructions of a flattened tree. -/
def size : JumpTree → Nat
  | nil => 0
  | leaf _ rest => rest.size + 1
  | ifThen _ body rest => body.size + rest.size + 1
  | ifElse _ body other rest => body.size + other.size + rest.size + 2

/-- The instructions of a tree whose first instruction stands at `index`.  A conditional jump leads to the first
instruction after its body; the jump that ends a body with an alternative leads to the first one after that. -/
def flatten (index : Nat) : JumpTree → List Instruction
  | nil => []
  | leaf a rest => a.at index :: rest.flatten (index + 1)
  | ifThen _ body rest =>
      let stop := index + 1 + body.size
      .jumpIfFalse stop :: (body.flatten (index + 1) ++ rest.flatten stop)
  | ifElse _ body other rest =>
      let middle := index + 1 + body.size + 1
      let stop := middle + other.size
      .jumpIfFalse middle :: (body.flatten (index + 1) ++ .jump stop ::
        (other.flatten middle ++ rest.flatten stop))

/-- The edges of the bodies of a tree, in the order of its instructions. -/
def edges (index : Nat) : JumpTree → List Edge
  | nil => []
  | leaf _ rest => rest.edges (index + 1)
  | ifThen _ body rest =>
      let stop := index + 1 + body.size
      .opened index :: (body.edges (index + 1) ++ .closed stop :: rest.edges stop)
  | ifElse _ body other rest =>
      let middle := index + 1 + body.size + 1
      let stop := middle + other.size
      .opened index :: (body.edges (index + 1) ++ .switched (index + 1 + body.size) ::
        (other.edges middle ++ .closed stop :: rest.edges stop))

@[simp] theorem length_flatten (t : JumpTree) (index : Nat) :
    (t.flatten index).length = t.size := by
  induction t generalizing index with
  | nil => rfl
  | leaf a rest ih => simp only [flatten, List.length_cons, ih, size]
  | ifThen c body rest ihBody ihRest =>
      simp only [flatten, List.length_cons, List.length_append, ihBody, ihRest, size]
  | ifElse c body other rest ihBody ihOther ihRest =>
      simp only [flatten, List.length_cons, List.length_append, ihBody, ihOther, ihRest, size]
      omega

/-! Where a tree ends, from where its parts end. -/

theorem add_size_leaf (index : Nat) (a : Plain) (rest : JumpTree) :
    index + size (.leaf a rest) = index + 1 + rest.size := by
  rw [size]
  omega

theorem add_size_ifThen {index stop : Nat} {body : JumpTree} (hstop : stop = index + 1 + body.size)
    (rest : JumpTree) : index + size (.ifThen () body rest) = stop + rest.size := by
  rw [size]
  omega

theorem add_size_ifElse {index middle stop : Nat} {body other : JumpTree}
    (hmiddle : middle = index + 1 + body.size) (hstop : stop = middle + 1 + other.size)
    (rest : JumpTree) : index + size (.ifElse () body other rest) = stop + rest.size := by
  rw [size]
  omega

/-- Only the empty tree has no instructions. -/
theorem eq_nil_of_size {t : JumpTree} (h : t.size = 0) : t = nil := by
  cases t with
  | nil => rfl
  | leaf a rest => rw [size] at h; omega
  | ifThen c body rest => rw [size] at h; omega
  | ifElse c body other rest => rw [size] at h; omega

theorem size_pos {t : JumpTree} (h : t ≠ nil) : 0 < t.size :=
  Nat.pos_of_ne_zero fun hsize => h (eq_nil_of_size hsize)

end Nesting

namespace Blocks

/-- The edges of the bodies that end at `index`. -/
def closings (index : Nat) (blocks : Blocks) : List Edge :=
  (blocks.takeWhile (·.stop == index)).map fun _ => .closed index

/-- What an instruction does to the open bodies. -/
def visit (length index : Nat) (blocks : Blocks) : Instruction → Except FlowError (Blocks × List Edge)
  | .jumpIfFalse target =>
      match blocks.openIf length index target with
      | .ok next => .ok (next, [.opened index])
      | .error error => .error error
  | .jump target =>
      match blocks.jump length index target with
      | .ok .nothing => .ok (blocks, [])
      | .ok (.beginElse next) => .ok (next, [.switched index])
      | .error error => .error error
  | _ => .ok (blocks, [])

/-- Goes over the instructions from `index` on: bodies are closed before each instruction and at the end.  Gives the
bodies that are open in the end and the edges that were met. -/
def walk (length : Nat) : Nat → Blocks → List Instruction → Except FlowError (Blocks × List Edge)
  | index, blocks, [] => .ok (blocks.close index, blocks.closings index)
  | index, blocks, instruction :: rest =>
      match visit length index (blocks.close index) instruction with
      | .error error => .error error
      | .ok (next, edges) =>
          match walk length (index + 1) next rest with
          | .error error => .error error
          | .ok (last, later) => .ok (last, blocks.closings index ++ edges ++ later)

/-! ## Where bodies end -/

/-- Every open body reaches at least to `stop`. -/
def ReachTo (stop : Nat) (blocks : Blocks) : Prop :=
  ∀ block ∈ blocks, stop ≤ block.stop

theorem ReachTo.mono {stop stop' : Nat} {blocks : Blocks} (h : blocks.ReachTo stop)
    (hle : stop' ≤ stop) : blocks.ReachTo stop' :=
  fun block hmem => Nat.le_trans hle (h block hmem)

theorem ReachTo.cons {stop : Nat} {blocks : Blocks} (h : blocks.ReachTo stop) (block : Block)
    (hstop : stop ≤ block.stop) : ReachTo stop (block :: blocks) := by
  intro other hmem
  rcases List.mem_cons.mp hmem with rfl | hmem
  · exact hstop
  · exact h other hmem

/-- The innermost of bodies that reach to `stop` does too, and so does the function around them. -/
theorem ReachTo.le_limit {stop length : Nat} {blocks : Blocks} (h : blocks.ReachTo stop)
    (hlength : stop ≤ length) : stop ≤ limit length blocks := by
  cases blocks with
  | nil => exact hlength
  | cons block outer => exact h block List.mem_cons_self

/-- Nothing is closed before all bodies end. -/
theorem close_eq_self {index : Nat} {blocks : Blocks} (h : blocks.ReachTo (index + 1)) :
    blocks.close index = blocks := by
  cases blocks with
  | nil => rfl
  | cons block outer =>
      have hstop := h block List.mem_cons_self
      have hne : (block.stop == index) = false := by
        rw [beq_eq_false_iff_ne]
        omega
      rw [close, List.dropWhile_cons_of_neg]
      rw [hne]
      exact Bool.false_ne_true

theorem closings_eq_nil {index : Nat} {blocks : Blocks} (h : blocks.ReachTo (index + 1)) :
    blocks.closings index = [] := by
  cases blocks with
  | nil => rfl
  | cons block outer =>
      have hstop := h block List.mem_cons_self
      have hne : (block.stop == index) = false := by
        rw [beq_eq_false_iff_ne]
        omega
      rw [closings, List.takeWhile_cons_of_neg]
      · rfl
      · rw [hne]
        exact Bool.false_ne_true

/-- The innermost body is closed if it ends here. -/
theorem close_cons_of_stop {index : Nat} {block : Block} (outer : Blocks)
    (h : block.stop = index) : close index (block :: outer) = outer.close index := by
  rw [close, List.dropWhile_cons_of_pos]
  · rfl
  · rw [h]
    exact beq_self_eq_true index

theorem closings_cons_of_stop {index : Nat} {block : Block} (outer : Blocks)
    (h : block.stop = index) :
    closings index (block :: outer) = .closed index :: outer.closings index := by
  rw [closings, List.takeWhile_cons_of_pos]
  · rfl
  · rw [h]
    exact beq_self_eq_true index

theorem close_cons_of_ne {index : Nat} {block : Block} (outer : Blocks)
    (h : block.stop ≠ index) : close index (block :: outer) = block :: outer := by
  rw [close, List.dropWhile_cons_of_neg]
  simpa using h

/-- Closing twice is closing once. -/
theorem close_close (index : Nat) (blocks : Blocks) :
    (blocks.close index).close index = blocks.close index := by
  induction blocks with
  | nil => rfl
  | cons block outer ih =>
      by_cases h : block.stop = index
      · rw [close_cons_of_stop outer h, ih]
      · rw [close_cons_of_ne outer h, close_cons_of_ne outer h]

theorem closings_close (index : Nat) (blocks : Blocks) :
    (blocks.close index).closings index = [] := by
  induction blocks with
  | nil => rfl
  | cons block outer ih =>
      by_cases h : block.stop = index
      · rw [close_cons_of_stop outer h, ih]
      · rw [close_cons_of_ne outer h, closings, List.takeWhile_cons_of_neg]
        · rfl
        · simpa using h

/-- A conditional jump that leads forward inside of all bodies opens a body. -/
theorem openIf_eq_ok {length index target : Nat} {blocks : Blocks} (hforward : index < target)
    (h : blocks.ReachTo target) (hlength : target ≤ length) :
    blocks.openIf length index target = .ok (.ifBody target :: blocks) := by
  have hlimit := h.le_limit hlength
  rw [openIf, if_neg (by omega), if_neg (by omega)]

/-- A jump at the end of an `if` body that leads forward inside of all outer bodies switches to an `else` body. -/
theorem jump_eq_beginElse {length index target : Nat} {outer : Blocks}
    (hforward : index + 1 < target) (h : outer.ReachTo target) (hlength : target ≤ length) :
    jump length index target (.ifBody (index + 1) :: outer) =
      .ok (.beginElse (.elseBody target :: outer)) := by
  have hlimit := h.le_limit hlength
  rw [jump, if_neg (by omega), if_neg (by omega)]
  simp only [if_pos]
  rw [if_neg (by omega)]

/-! ## Flattened trees are walked through -/

/-- When the walk over a nonempty list goes through. -/
theorem walk_cons_eq_ok_iff {length index : Nat} {blocks last : Blocks} {edges : List Edge}
    {x : Instruction} {xs : List Instruction} :
    walk length index blocks (x :: xs) = .ok (last, edges) ↔
      ∃ next met later, visit length index (blocks.close index) x = .ok (next, met) ∧
        walk length (index + 1) next xs = .ok (last, later) ∧
        edges = blocks.closings index ++ met ++ later := by
  rw [walk]
  constructor
  · intro h
    split at h
    · cases h
    · rename_i next met hvisit
      split at h
      · cases h
      · rename_i last' later hwalk
        cases h
        exact ⟨next, met, later, hvisit, hwalk, rfl⟩
  · rintro ⟨next, met, later, hvisit, hwalk, rfl⟩
    simp only [hvisit, hwalk]

/-- A walk starts with closing the bodies that end where it starts. -/
theorem walk_eq_ok_iff_close {length index : Nat} {blocks last : Blocks} {edges : List Edge}
    {xs : List Instruction} :
    walk length index blocks xs = .ok (last, edges) ↔
      ∃ later, walk length index (blocks.close index) xs = .ok (last, later) ∧
        edges = blocks.closings index ++ later := by
  cases xs with
  | nil =>
      simp only [walk, close_close, closings_close, Except.ok.injEq, Prod.mk.injEq]
      constructor
      · rintro ⟨rfl, rfl⟩
        exact ⟨[], ⟨rfl, rfl⟩, (List.append_nil _).symm⟩
      · rintro ⟨later, ⟨rfl, rfl⟩, rfl⟩
        exact ⟨rfl, (List.append_nil _).symm⟩
  | cons x xs =>
      simp only [walk_cons_eq_ok_iff, close_close, closings_close, List.nil_append]
      constructor
      · rintro ⟨next, met, later, hvisit, hwalk, rfl⟩
        exact ⟨met ++ later, ⟨next, met, later, hvisit, hwalk, rfl⟩, List.append_assoc _ _ _⟩
      · rintro ⟨_, ⟨next, met, later, hvisit, hwalk, rfl⟩, rfl⟩
        exact ⟨next, met, later, hvisit, hwalk, (List.append_assoc _ _ _).symm⟩

/-- One walk after another. -/
theorem walk_append {length index : Nat} {blocks middle last : Blocks} {before after : List Edge}
    {xs ys : List Instruction} (hxs : walk length index blocks xs = .ok (middle, before))
    (hys : walk length (index + xs.length) middle ys = .ok (last, after)) :
    walk length index blocks (xs ++ ys) = .ok (last, before ++ after) := by
  induction xs generalizing index blocks before with
  | nil =>
      cases hxs
      exact walk_eq_ok_iff_close.mpr ⟨after, hys, rfl⟩
  | cons x xs ih =>
      obtain ⟨next, met, later, hvisit, hwalk, rfl⟩ := walk_cons_eq_ok_iff.mp hxs
      have hindex : index + (x :: xs).length = index + 1 + xs.length := by
        rw [List.length_cons]
        omega
      rw [hindex] at hys
      refine walk_cons_eq_ok_iff.mpr ⟨next, met, later ++ after, hvisit, ih hwalk hys, ?_⟩
      simp only [List.append_assoc]

/-- A plain instruction leaves the open bodies as they are. -/
theorem visit_plain (length index : Nat) (blocks : Blocks) (a : Plain) :
    visit length index blocks (a.at index) = .ok (blocks, []) := by
  cases a with
  | skip => simp only [Plain.at, visit, jump, if_pos]
  | instruction i =>
      obtain ⟨i, hi⟩ := i
      cases i with
      | jumpIfFalse target => cases hi
      | jump target => cases hi
      | _ => rfl

/-- The walk into an `if` body. -/
theorem walk_jumpIfFalse {length index target : Nat} {blocks last : Blocks} {later : List Edge}
    {xs : List Instruction} (hforward : index < target) (hreach : blocks.ReachTo target)
    (hlength : target ≤ length)
    (h : walk length (index + 1) (.ifBody target :: blocks) xs = .ok (last, later)) :
    walk length index blocks (.jumpIfFalse target :: xs) = .ok (last, .opened index :: later) := by
  have hopen : blocks.ReachTo (index + 1) := hreach.mono hforward
  refine walk_cons_eq_ok_iff.mpr ⟨_, [.opened index], later, ?_, h, ?_⟩
  · rw [close_eq_self hopen]
    simp only [visit, openIf_eq_ok hforward hreach hlength]
  · rw [closings_eq_nil hopen]
    rfl

/-- The walk from an `if` body into its `else` body. -/
theorem walk_switch {length index target : Nat} {outer last : Blocks} {later : List Edge}
    {xs : List Instruction} (hforward : index + 1 < target) (hreach : outer.ReachTo target)
    (hlength : target ≤ length)
    (h : walk length (index + 1) (.elseBody target :: outer) xs = .ok (last, later)) :
    walk length index (.ifBody (index + 1) :: outer) (.jump target :: xs) =
      .ok (last, .switched index :: later) := by
  have hopen : ReachTo (index + 1) (.ifBody (index + 1) :: outer) :=
    (hreach.mono (Nat.le_of_lt hforward)).cons _ (Nat.le_refl _)
  refine walk_cons_eq_ok_iff.mpr ⟨_, [.switched index], later, ?_, h, ?_⟩
  · rw [close_eq_self hopen]
    simp only [visit, jump_eq_beginElse hforward hreach hlength]
  · rw [closings_eq_nil hopen]
    rfl

/-- The walk out of a body.  Bodies around it that end at the same place are left to the rest of the walk. -/
theorem walk_leave {length index stop : Nat} {block : Block} {outer last : Blocks}
    {edges later : List Edge} {xs ys : List Instruction} (hstop : block.stop = stop)
    (hindex : index + xs.length = stop)
    (hxs : walk length index (block :: outer) xs =
      .ok (close stop (block :: outer), edges ++ closings stop (block :: outer)))
    (hys : walk length stop outer ys = .ok (last, later)) :
    walk length index (block :: outer) (xs ++ ys) = .ok (last, edges ++ .closed stop :: later) := by
  subst hindex
  -- The first walk closes the outer bodies that end at `stop` too, so the second one goes on without them.
  obtain ⟨rest, hrest, rfl⟩ := walk_eq_ok_iff_close.mp hys
  rw [close_cons_of_stop outer hstop, closings_cons_of_stop outer hstop] at hxs
  rw [walk_append hxs hrest]
  simp only [List.append_assoc, List.cons_append]

end Blocks

/-- The walk over a flattened tree inside of bodies that do not end before it goes through, meets the edges of the
tree and closes the bodies that end with the tree. -/
theorem Nesting.walk_flatten {length index : Nat} {blocks : Blocks} {t : JumpTree} (hproper : t.Proper)
    (hreach : blocks.ReachTo (index + t.size)) (hlength : index + t.size ≤ length) :
    blocks.walk length index (t.flatten index) =
      .ok (blocks.close (index + t.size), t.edges index ++ blocks.closings (index + t.size)) := by
  induction t generalizing index blocks with
  | nil => rfl
  | leaf a rest ih =>
      have hsize := Nesting.add_size_leaf index a rest
      rw [hsize] at hreach hlength ⊢
      have hopen : blocks.ReachTo (index + 1) := hreach.mono (by omega)
      refine Blocks.walk_cons_eq_ok_iff.mpr ⟨blocks, [], _, ?_, ih hproper hreach hlength, ?_⟩
      · rw [Blocks.close_eq_self hopen, Blocks.visit_plain]
      · rw [Blocks.closings_eq_nil hopen]
        rfl
  | ifThen c body rest ihBody ihRest =>
      obtain ⟨hbody, hrest⟩ := hproper
      have hsize : index + (ifThen c body rest : JumpTree).size =
          index + 1 + body.size + rest.size :=
        Nesting.add_size_ifThen rfl rest
      rw [hsize] at hreach hlength ⊢
      have hstop : blocks.ReachTo (index + 1 + body.size) := hreach.mono (by omega)
      have hwalkBody := ihBody hbody (hstop.cons (.ifBody _) (Nat.le_refl _)) (by omega)
      have hwalkRest := ihRest hrest hreach hlength
      have hwalk := Blocks.walk_leave rfl (by rw [length_flatten]; rfl) hwalkBody hwalkRest
      rw [flatten, Blocks.walk_jumpIfFalse (by omega) hstop (by omega) hwalk, edges]
      simp only [Block.stop, List.append_assoc, List.cons_append]
  | ifElse c body other rest ihBody ihOther ihRest =>
      obtain ⟨hbody, hne, hother, hrest⟩ := hproper
      have hpos := size_pos hne
      have hsize : index + (ifElse c body other rest : JumpTree).size =
          index + 1 + body.size + 1 + other.size + rest.size :=
        Nesting.add_size_ifElse rfl rfl rest
      rw [hsize] at hreach hlength ⊢
      have hstop : blocks.ReachTo (index + 1 + body.size + 1 + other.size) := hreach.mono (by omega)
      have hmiddle : blocks.ReachTo (index + 1 + body.size + 1) := hreach.mono (by omega)
      have hinside := hmiddle.cons (.ifBody (index + 1 + body.size + 1)) (Nat.le_refl _)
      -- The body ends one instruction before the `if` body does, with the jump over the alternative.
      have hwalkBody := ihBody hbody (hinside.mono (Nat.le_succ _)) (by omega)
      have hwalkOther := ihOther hother (hstop.cons (.elseBody _) (Nat.le_refl _)) (by omega)
      have hwalkRest := ihRest hrest hreach hlength
      have hwalkElse := Blocks.walk_leave rfl (by rw [length_flatten]; rfl) hwalkOther hwalkRest
      have hwalkJump := Blocks.walk_switch (by omega) hstop (by omega) hwalkElse
      rw [Blocks.close_eq_self hinside, Blocks.closings_eq_nil hinside, List.append_nil] at hwalkBody
      have hwalk := Blocks.walk_append hwalkBody (by rw [length_flatten]; exact hwalkJump)
      rw [flatten, Blocks.walk_jumpIfFalse (by omega) hmiddle (by omega) hwalk, edges]
      simp only [Block.stop, List.append_assoc, List.cons_append]

/-! ## What is walked through is a flattened tree -/

namespace Blocks

mutual

/-- The instructions from `index` on are the rest of the innermost body and what follows that. -/
inductive Continues : Nat → Blocks → List Instruction → Prop
  | intro {index : Nat} {blocks : Blocks} {rest : List Instruction} (t : JumpTree)
      (hproper : t.Proper) (hrest : Follows (index + t.size) blocks rest) :
      Continues index blocks (t.flatten index ++ rest)

/-- The instructions from `index` on are what follows the innermost body, whose own instructions end there: nothing
if there is no body, the rest of the body around it, or the jump to its alternative. -/
inductive Follows : Nat → Blocks → List Instruction → Prop
  | done {index : Nat} : Follows index [] []
  | closed {index : Nat} {block : Block} {outer : Blocks} {rest : List Instruction}
      (hstop : block.stop = index) (hrest : Continues index outer rest) :
      Follows index (block :: outer) rest
  | switched {index stop : Nat} {outer : Blocks} {rest : List Instruction} (other : JumpTree)
      (hproper : other.Proper) (hne : other ≠ .nil) (hstop : stop = index + 1 + other.size)
      (hrest : Continues stop outer rest) :
      Follows index (.ifBody (index + 1) :: outer)
        (.jump stop :: (other.flatten (index + 1) ++ rest))

end

/-- Closing the bodies that end at an index does not change what may stand there. -/
theorem Continues.of_close {index : Nat} {blocks : Blocks} {xs : List Instruction}
    (h : Continues index (blocks.close index) xs) : Continues index blocks xs := by
  induction blocks with
  | nil => exact h
  | cons block outer ih =>
      by_cases hstop : block.stop = index
      · rw [close_cons_of_stop outer hstop] at h
        -- The rest of a body that ends here is empty.
        exact .intro .nil trivial (.closed hstop (ih h))
      · rw [close_cons_of_ne outer hstop] at h
        exact h

theorem Continues.plain {index : Nat} {blocks : Blocks} {xs : List Instruction}
    (h : Continues (index + 1) blocks xs) (a : Plain) :
    Continues index blocks (a.at index :: xs) := by
  obtain ⟨t, hproper, hrest⟩ := h
  refine .intro (.leaf a t) hproper ?_
  have hsize := Nesting.add_size_leaf index a t
  rw [hsize]
  exact hrest

/-- A conditional jump, the body it opens and what follows that make a conditional. -/
theorem Continues.jumpIfFalse {index target : Nat} {blocks : Blocks} {xs : List Instruction}
    (h : Continues (index + 1) (.ifBody target :: blocks) xs) :
    Continues index blocks (.jumpIfFalse target :: xs) := by
  obtain ⟨body, hbody, hfollows⟩ := h
  cases hfollows with
  | closed hstop hrest =>
      obtain ⟨t, ht, hafter⟩ := hrest
      have htarget : target = index + 1 + body.size := hstop
      subst htarget
      have hsize : index + Nesting.size (.ifThen () body t) = index + 1 + body.size + t.size :=
        Nesting.add_size_ifThen rfl t
      rw [← hsize] at hafter
      have hconditional := Continues.intro (.ifThen () body t) ⟨hbody, ht⟩ hafter
      simpa only [Nesting.flatten, List.cons_append, List.append_assoc] using hconditional
  | switched other hother hne hstop hrest =>
      obtain ⟨t, ht, hafter⟩ := hrest
      subst hstop
      have hsize : index + Nesting.size (.ifElse () body other t) =
          index + 1 + body.size + 1 + other.size + t.size :=
        Nesting.add_size_ifElse rfl rfl t
      rw [← hsize] at hafter
      have hconditional :=
        Continues.intro (.ifElse () body other t) ⟨hbody, hne, hother, ht⟩ hafter
      simpa only [Nesting.flatten, List.cons_append, List.append_assoc] using hconditional

/-- A jump at the end of an `if` body and the `else` body it starts belong to the body's conditional. -/
theorem Continues.switch {index target : Nat} {outer : Blocks} {xs : List Instruction}
    (h : Continues (index + 1) (.elseBody target :: outer) xs) (hforward : index + 1 < target) :
    Continues index (.ifBody (index + 1) :: outer) (.jump target :: xs) := by
  obtain ⟨other, hother, hfollows⟩ := h
  cases hfollows with
  | closed hstop hrest =>
      have hne : other ≠ .nil := by
        rintro rfl
        rw [Block.stop, Nesting.size] at hstop
        omega
      have htarget : target = index + 1 + other.size := hstop
      subst htarget
      exact .intro .nil trivial (.switched other hother hne rfl hrest)

/-- What an instruction can do to the open bodies if it does not fail. -/
theorem visit_cases {length index : Nat} {blocks next : Blocks} {met : List Edge} {x : Instruction}
    (h : visit length index blocks x = .ok (next, met)) :
    (∃ a : Plain, x = a.at index ∧ next = blocks) ∨
      (∃ target, x = .jumpIfFalse target ∧ next = .ifBody target :: blocks) ∨
      (∃ target outer, x = .jump target ∧ index + 1 < target ∧
        blocks = .ifBody (index + 1) :: outer ∧ next = .elseBody target :: outer) := by
  cases x with
  | jumpIfFalse target =>
      simp only [visit, openIf] at h
      split at h
      · rename_i hopen
        split at hopen
        · cases hopen
        · split at hopen
          · cases hopen
          · cases hopen
            cases h
            exact .inr (.inl ⟨target, rfl, rfl⟩)
      · cases h
  | jump target =>
      simp only [visit, jump] at h
      -- A jump to the next instruction is plain; any other one has to stand at the end of an `if` body.
      by_cases hnext : target = index + 1
      · rw [if_pos hnext] at h
        cases h
        exact .inl ⟨.skip, by rw [hnext, Plain.at], rfl⟩
      · rw [if_neg hnext] at h
        by_cases hback : target ≤ index
        · rw [if_pos hback] at h
          cases h
        · rw [if_neg hback] at h
          cases blocks with
          | nil => cases h
          | cons block outer =>
              dsimp only at h
              by_cases hblock : block = .ifBody (index + 1)
              · rw [if_pos hblock] at h
                by_cases hescape : limit length outer < target
                · rw [if_pos hescape] at h
                  cases h
                · rw [if_neg hescape] at h
                  cases h
                  exact .inr (.inr ⟨target, outer, rfl, by omega, by rw [hblock], rfl⟩)
              · rw [if_neg hblock] at h
                cases h
  | _ =>
      cases h
      exact .inl ⟨.instruction ⟨_, rfl⟩, rfl, rfl⟩

/-- What is walked through without a body left open is the rest of the open bodies. -/
theorem continues_of_walk {length index : Nat} {blocks : Blocks} {edges : List Edge}
    {xs : List Instruction} (h : walk length index blocks xs = .ok ([], edges)) :
    Continues index blocks xs := by
  -- Each instruction is put in front of what continues after it.
  induction xs generalizing index blocks edges with
  | nil =>
      apply Continues.of_close
      have hclose : blocks.close index = [] := (Prod.mk.inj (Except.ok.inj h)).1
      rw [hclose]
      exact .intro .nil trivial .done
  | cons x xs ih =>
      obtain ⟨next, met, later, hvisit, hwalk, -⟩ := walk_cons_eq_ok_iff.mp h
      have hcontinues := ih hwalk
      apply Continues.of_close
      rcases visit_cases hvisit with ⟨a, rfl, rfl⟩ | ⟨target, rfl, rfl⟩ |
        ⟨target, outer, rfl, hforward, hblocks, rfl⟩
      · exact hcontinues.plain a
      · exact hcontinues.jumpIfFalse
      · rw [hblocks]
        exact hcontinues.switch hforward

/-- A list that is walked through without a body left open is a flattened tree. -/
theorem exists_flatten_of_walk {length : Nat} {edges : List Edge} {body : List Instruction}
    (h : walk length 0 [] body = .ok ([], edges)) :
    ∃ t : JumpTree, t.Proper ∧ t.flatten 0 = body := by
  obtain ⟨t, hproper, hfollows⟩ := continues_of_walk h
  cases hfollows
  exact ⟨t, hproper, (List.append_nil _).symm⟩

end Blocks

/-! ## Different trees are flattened differently -/

namespace Nesting

theorem eq_nil_of_getLast?_flatten {t : JumpTree} {index : Nat}
    (h : (t.flatten index).getLast? = none) : t = nil := by
  apply eq_nil_of_size
  rw [← length_flatten t index, List.getLast?_eq_none_iff.mp h]
  rfl

/-- A jump at the end of a flattened tree leads to the end. -/
theorem eq_of_getLast?_flatten {t : JumpTree} (hproper : t.Proper) {index target : Nat}
    (h : (t.flatten index).getLast? = some (.jump target)) : target = index + t.size := by
  induction t generalizing index with
  | nil => cases h
  | leaf a rest ih =>
      rw [flatten, List.getLast?_cons] at h
      cases hlast : (rest.flatten (index + 1)).getLast? with
      | some last =>
          rw [hlast] at h
          rw [ih hproper (hlast.trans h), size]
          omega
      | none =>
          rw [hlast, Option.getD_none, Option.some.injEq] at h
          rw [eq_nil_of_getLast?_flatten hlast]
          cases a with
          | skip =>
              cases h
              rfl
          | instruction i =>
              have hjump := i.property
              rw [show i.val = .jump target from h] at hjump
              cases hjump
  | ifThen c body rest ihBody ihRest =>
      obtain ⟨hbody, hrest⟩ := hproper
      rw [flatten, List.getLast?_cons, List.getLast?_append] at h
      -- If nothing follows the conditional, its last instruction is the last one of the body.
      cases hlast : (rest.flatten (index + 1 + body.size)).getLast? with
      | some last =>
          rw [hlast] at h
          rw [ihRest hrest (hlast.trans h), size]
          omega
      | none =>
          rw [hlast, Option.none_or] at h
          rw [eq_nil_of_getLast?_flatten hlast, size, size]
          cases hlast' : (body.flatten (index + 1)).getLast? with
          | some last =>
              rw [hlast'] at h
              rw [ihBody hbody (hlast'.trans h)]
              omega
          | none =>
              rw [hlast'] at h
              cases h
  | ifElse c body other rest ihBody ihOther ihRest =>
      obtain ⟨hbody, hne, hother, hrest⟩ := hproper
      rw [flatten, List.getLast?_cons, List.getLast?_append, List.getLast?_cons, List.getLast?_append,
        Option.some_or, Option.getD_some] at h
      cases hlast : (rest.flatten (index + 1 + body.size + 1 + other.size)).getLast? with
      | some last =>
          rw [hlast] at h
          rw [ihRest hrest (hlast.trans h), size]
          omega
      | none =>
          rw [hlast, Option.none_or] at h
          rw [eq_nil_of_getLast?_flatten hlast, size, size]
          cases hlast' : (other.flatten (index + 1 + body.size + 1)).getLast? with
          | some last =>
              rw [hlast'] at h
              rw [ihOther hother (hlast'.trans h)]
              omega
          -- The jump over an alternative is never the last instruction, since the alternative is not empty.
          | none => exact absurd (eq_nil_of_getLast?_flatten hlast') hne

/-- A body that ends with the jump over an alternative is not the body of a conditional without one. -/
theorem flatten_ne_append_jump {t body : JumpTree} (ht : t.Proper) {index target : Nat}
    (hsize : t.size = body.size + 1) (htarget : target ≠ index + t.size) (after : List Instruction)
    (rest : List Instruction) :
    t.flatten index ++ rest ≠ body.flatten index ++ .jump target :: after := by
  intro h
  have hsplit : body.flatten index ++ .jump target :: after =
      (body.flatten index ++ [.jump target]) ++ after := by
    rw [List.append_assoc]
    rfl
  rw [hsplit] at h
  have hlength :
      (t.flatten index).length = (body.flatten index ++ [Instruction.jump target]).length := by
    rw [List.length_append, length_flatten, length_flatten, hsize]
    rfl
  obtain ⟨hflatten, -⟩ := List.append_inj h hlength
  refine htarget (eq_of_getLast?_flatten ht ?_)
  rw [hflatten, List.getLast?_append]
  rfl

/-- Different trees are flattened differently. -/
theorem flatten_injective {t t' : JumpTree} (ht : t.Proper) (ht' : t'.Proper) {index : Nat}
    (h : t.flatten index = t'.flatten index) : t = t' := by
  have hlength : t.size = t'.size := by
    rw [← length_flatten t index, h, length_flatten]
  induction t generalizing t' index with
  | nil => exact (eq_nil_of_size hlength.symm).symm
  | leaf a rest ih =>
      cases t' with
      | nil => cases hlength
      | leaf a' rest' =>
          obtain ⟨hhead, htail⟩ := List.cons.inj h
          have hproper' : rest'.Proper := ht'
          rw [Plain.at_injective hhead, ih ht hproper' htail (Nat.add_right_cancel hlength)]
      | ifThen c' body' rest' => exact absurd (List.cons.inj h).1 (a.at_ne_jumpIfFalse index _)
      | ifElse c' body' other' rest' =>
          exact absurd (List.cons.inj h).1 (a.at_ne_jumpIfFalse index _)
  | ifThen c body rest ihBody ihRest =>
      cases t' with
      | nil => cases hlength
      | leaf a' rest' => exact absurd (List.cons.inj h).1.symm (a'.at_ne_jumpIfFalse index _)
      | ifThen c' body' rest' =>
          obtain ⟨hhead, htail⟩ := List.cons.inj h
          have hstop := Instruction.jumpIfFalse.inj hhead
          have hsize : body.size = body'.size := by omega
          obtain ⟨hbody, hrest⟩ := List.append_inj htail (by simp only [length_flatten, hsize])
          rw [hsize] at hrest
          simp only [size] at hlength
          rw [ihBody ht.1 ht'.1 hbody hsize, ihRest ht.2 ht'.2 hrest (by omega)]
      | ifElse c' body' other' rest' =>
          obtain ⟨hhead, htail⟩ := List.cons.inj h
          have hstop := Instruction.jumpIfFalse.inj hhead
          have hpos := size_pos ht'.2.1
          -- The body of `t` would end with a jump that leads beyond its end.
          exact absurd htail (flatten_ne_append_jump ht.1 (by omega) (by omega) _ _)
  | ifElse c body other rest ihBody ihOther ihRest =>
      cases t' with
      | nil => cases hlength
      | leaf a' rest' => exact absurd (List.cons.inj h).1.symm (a'.at_ne_jumpIfFalse index _)
      | ifThen c' body' rest' =>
          obtain ⟨hhead, htail⟩ := List.cons.inj h
          have hstop := Instruction.jumpIfFalse.inj hhead
          have hpos := size_pos ht.2.1
          exact absurd htail.symm (flatten_ne_append_jump ht'.1 (by omega) (by omega) _ _)
      | ifElse c' body' other' rest' =>
          obtain ⟨hhead, htail⟩ := List.cons.inj h
          have hmiddle := Instruction.jumpIfFalse.inj hhead
          have hsize : body.size = body'.size := by omega
          obtain ⟨hbody, htail'⟩ := List.append_inj htail (by simp only [length_flatten, hsize])
          rw [hsize] at htail'
          obtain ⟨hjump, htail''⟩ := List.cons.inj htail'
          have hstop := Instruction.jump.inj hjump
          have hsize' : other.size = other'.size := by omega
          obtain ⟨hother, hrest⟩ := List.append_inj htail'' (by simp only [length_flatten, hsize'])
          rw [hsize'] at hrest
          simp only [size] at hlength
          rw [ihBody ht.1 ht'.1 hbody hsize, ihOther ht.2.2.1 ht'.2.2.1 hother hsize',
            ihRest ht.2.2.2 ht'.2.2.2 hrest (by omega)]

end Nesting

/-- The jumps of a list fit the nesting of bodies exactly if the list is a flattened tree of the jump grammar.  There
is one such tree, and the edges of the bodies are met in its order. -/
theorem Blocks.walk_ok_iff_flatten (body : List Instruction) :
    ((∃ edges, walk body.length 0 [] body = .ok ([], edges)) ↔
      ∃ t : JumpTree, t.Proper ∧ t.flatten 0 = body) ∧
    ∀ t : JumpTree, t.Proper → t.flatten 0 = body →
      walk body.length 0 [] body = .ok ([], t.edges 0) ∧
        ∀ t' : JumpTree, t'.Proper → t'.flatten 0 = body → t' = t := by
  have hwalk : ∀ t : JumpTree, t.Proper → t.flatten 0 = body →
      walk body.length 0 [] body = .ok ([], t.edges 0) := by
    rintro t hproper rfl
    have hreach : ReachTo (0 + t.size) [] := fun block hmem => absurd hmem List.not_mem_nil
    have hlength : 0 + t.size ≤ (t.flatten 0).length := by
      rw [Nesting.length_flatten]
      omega
    rw [Nesting.walk_flatten hproper hreach hlength]
    simp only [close, closings, List.dropWhile_nil, List.takeWhile_nil, List.map_nil, List.append_nil]
  refine ⟨⟨?_, ?_⟩, ?_⟩
  · rintro ⟨edges, h⟩
    exact exists_flatten_of_walk h
  · rintro ⟨t, hproper, hflatten⟩
    exact ⟨t.edges 0, hwalk t hproper hflatten⟩
  · intro t hproper hflatten
    refine ⟨hwalk t hproper hflatten, fun t' hproper' hflatten' => ?_⟩
    exact Nesting.flatten_injective hproper' hproper (hflatten'.trans hflatten.symm)

end ShaderLift
