import ShaderLift.Proofs.Assembly
import ShaderLift.Proofs.BodyEnds

/-!
# Partial operations

Lifting and assembling, written out with each operation that is undefined on some arguments: numbers of a fixed width,
looking up an entry that must be there, and cases that must not occur.  Such an operation stops with a fault.  The
guards that keep it from doing so stand elsewhere: in an earlier lookup, in a check of the stack, in what opening a
body leaves behind, and in the order of edits.

* `Fault`, `Checked`: operations that may fault.
* `liftChecked`, `Assembler.finishChecked`: lifting and assembling with all faults.
* `lift_blames`: failures of lifting have their reason in the function that is lifted.
* `lift_and_finish_defined`: neither ever faults, and both give what `lift` and `Assembler.finish` give.
-/

namespace ShaderLift

/-- An operation that is not defined on its arguments. -/
inductive Fault where
  /-- The successor of a number does not fit a word. -/
  | overflow (number : Nat)
  /-- There is no number before zero. -/
  | underflow
  /-- No type stands at a handle. -/
  | missingType (id : TypeId)
  /-- The stack is empty below the arguments of a call. -/
  | missingCallee
  /-- No instruction stands at an index. -/
  | outOfRange (index : Nat)
  /-- An instruction that is given a target is not a jump. -/
  | notAJump (index : Nat)
deriving DecidableEq, Repr

/-- A computation that may fault. -/
abbrev Checked := Except Fault

namespace Checked

/-- The successor of a number, in words of 64 bits. -/
def increment (n : Nat) : Checked Nat :=
  if n + 1 < UInt64.size then .ok (n + 1) else .error (.overflow n)

/-- The number before. -/
def decrement : Nat → Checked Nat
  | 0 => .error .underflow
  | n + 1 => .ok n

/-- The type at a handle. -/
def entry (types : TypeTable) (id : TypeId) : Checked TypeEntry :=
  match types.entry? id with
  | some e => .ok e
  | none => .error (.missingType id)

/-- The instruction at an index. -/
def instruction (code : Array Instruction) (index : Nat) : Checked Instruction :=
  match code[index]? with
  | some i => .ok i
  | none => .error (.outOfRange index)

/-- A computation that may fail or fault gives what one gives that may only fail; so it does not fault. -/
def Agrees {ε α : Type} (checked : ExceptT ε Checked α) (plain : Except ε α) : Prop :=
  checked.run = .ok plain

namespace Agrees

variable {ε α β : Type} {checked : ExceptT ε Checked α} {plain : Except ε α}

theorem of_liftExcept (r : Except ε α) : Agrees (liftExcept r) r := by
  cases r <;> rfl

theorem bind {f : α → ExceptT ε Checked β} {g : α → Except ε β} (h : Agrees checked plain)
    (hnext : ∀ a, plain = .ok a → Agrees (f a) (g a)) : Agrees (checked >>= f) (plain >>= g) := by
  have hrun : checked = .ok plain := h
  subst hrun
  cases plain with
  | error e => rfl
  | ok a => exact hnext a rfl

/-- An operation that is defined may be left out. -/
theorem bind_lift {m : Checked α} {a : α} {f : α → ExceptT ε Checked β} {r : Except ε β} (hm : m = .ok a)
    (hnext : Agrees (f a) r) : Agrees (liftM m >>= f) r := by
  subst hm
  exact hnext

end Agrees

end Checked

/-! ## Lifting -/

/-- A part of lifting that fails or may fault. -/
abbrev CheckedLifting := ExceptT Cause Checked

/-- The type of `lhs op rhs`; the entry of the left operand is looked up once to find the rules of the operator and
once more, as one that must be there, to find the catch-all rules. -/
def TypeTable.operatorTypeChecked (t : TypeTable) (op : Operator) (lhs rhs : TypeId) :
    Checked (Except TypeError TypeId) :=
  match (t.entry? lhs).filter (·.defines op) with
  | none => .ok (.error (.unsupportedOperator op lhs))
  | some e => do
      let entry ← Checked.entry t lhs
      match entry.anyResult? rhs with
      | some result => pure (.ok result)
      | none =>
          match e.ruleResult? op rhs with
          | some result => pure (.ok result)
          | none => pure (.error (.unsupportedOperand op lhs rhs))

/-- The entry that gives the operator's rules gives the catch-all rules too. -/
theorem TypeTable.operatorTypeChecked_eq (t : TypeTable) (op : Operator) (lhs rhs : TypeId) :
    t.operatorTypeChecked op lhs rhs = .ok (t.operatorType op lhs rhs) := by
  unfold operatorTypeChecked operatorType Checked.entry
  cases hentry : t.entry? lhs with
  | none => rfl
  | some e =>
      cases hdefines : e.defines op with
      | false => simp [Option.filter, hdefines]
      | true =>
          simp only [Option.filter, hdefines, if_true]
          cases hany : e.anyResult? rhs with
          | some result => simp [bind, Except.bind, pure, Except.pure, hany]
          | none => cases e.ruleResult? op rhs <;> simp [bind, Except.bind, pure, Except.pure, hany]

namespace State

/-- Lifts the application of an operator. -/
def applyOperatorChecked (c : Context) (s : State) (op : Operator) : CheckedLifting State := do
  let (right, s) ← liftExcept s.popOperand
  let (left, s) ← liftExcept s.popOperand
  match ← c.types.operatorTypeChecked op left.type right.type with
  | .ok type => pure (s.push type (.binary op left.expr right.expr))
  | .error error => throw (.operator error)

/-- Lifts a call. -/
def callChecked (c : Context) (s : State) (count : Nat) : CheckedLifting State := do
  let needed ← Checked.increment count
  if s.stack.length < needed then
    throw (.shortStack count s.stack.length)
  let (args, s) ← liftExcept (s.popOperands count)
  match s.stack with
  | [] => throwThe Fault .missingCallee
  | .operand operand :: _ => throw (.notCallable operand.expr operand.type)
  | .callable callee :: rest =>
      let types := args.map Operand.type
      match callee.signature? c.types types with
      | some signature =>
          pure ({ s with stack := rest }.push signature.result
            (.call callee.name (args.map Operand.expr)))
      | none =>
          if callee.hasArity count then
            throw (.noSignature callee.name types)
          else
            throw (.argumentCount callee.name callee.arities count)

/-- Lifts a conditional jump; its line stands one level outside of the body that it opens. -/
def branchChecked (c : Context) (length index : Nat) (s : State) (target : Nat) :
    CheckedLifting (State × List Event) := do
  let (condition, s) ← liftExcept s.popOperand
  if condition.type ≠ c.prim .bool then
    throw (.notACondition condition.expr condition.type)
  liftExcept s.checkBoundary
  match s.blocks.openIf length index target with
  | .ok blocks =>
      let depth ← Checked.decrement blocks.depth
      pure ({ s with blocks := blocks }, [.emitted ⟨depth, .openIf condition.expr⟩])
  | .error error => throw (.flow error)

/-- Lifts a jump; the line of an `else` body stands one level outside of it. -/
def jumpChecked (length index : Nat) (s : State) (target : Nat) : CheckedLifting (State × List Event) := do
  liftExcept s.checkBoundary
  match s.blocks.jump length index target with
  | .ok .nothing => pure (s, [])
  | .ok (.beginElse blocks) =>
      let depth ← Checked.decrement blocks.depth
      pure ({ s with blocks := blocks }, [.emitted ⟨depth, .openElse⟩])
  | .error error => throw (.flow error)

/-- Lifts an instruction; those that are not listed have no partial operations. -/
def stepChecked (c : Context) (length index : Nat) (s : State) :
    Instruction → CheckedLifting (State × List Event)
  | .binary op => do pure (← s.applyOperatorChecked c op, [])
  | .call count => do pure (← s.callChecked c count, [])
  | .jumpIfFalse target => s.branchChecked c length index target
  | .jump target => s.jumpChecked length index target
  | i => liftExcept (s.step c length index i)

variable {c : Context} {length index : Nat} {s : State}

theorem applyOperatorChecked_agrees (op : Operator) :
    Checked.Agrees (s.applyOperatorChecked c op) (s.applyOperator c op) := by
  refine (Checked.Agrees.of_liftExcept _).bind ?_
  rintro ⟨right, s⟩ -
  refine (Checked.Agrees.of_liftExcept _).bind ?_
  rintro ⟨left, s⟩ -
  refine .bind_lift (c.types.operatorTypeChecked_eq op left.type right.type) ?_
  dsimp only
  cases c.types.operatorType op left.type right.type <;> rfl

/-- The check of the stack counts the callable below the arguments, so it is there when they have been taken. -/
theorem callChecked_agrees {count : Nat} (hcount : count + 1 < UInt64.size) :
    Checked.Agrees (s.callChecked c count) (s.call c count) := by
  have hneeded : Checked.increment count = .ok (count + 1) := if_pos hcount
  refine .bind_lift hneeded ?_
  unfold call
  by_cases hshort : s.stack.length < count + 1
  · rw [if_pos hshort, if_pos hshort]
    rfl
  · rw [if_neg hshort, if_neg hshort]
    refine (Checked.Agrees.of_liftExcept _).bind ?_
    rintro ⟨args, next⟩ hpop
    have hlength := length_of_popOperands_eq_ok hpop
    dsimp only
    cases hstack : next.stack with
    | nil =>
        rw [hstack, List.length_nil] at hlength
        omega
    | cons value rest =>
        cases value with
        | operand operand => rfl
        | callable callee =>
            dsimp only
            cases callee.signature? c.types (args.map Operand.type) with
            | some signature => rfl
            | none => cases callee.hasArity count <;> rfl

/-- A depth counts the function itself, so there is a depth before it. -/
theorem branchChecked_agrees (target : Nat) :
    Checked.Agrees (s.branchChecked c length index target) (s.branch c length index target) := by
  refine (Checked.Agrees.of_liftExcept _).bind ?_
  rintro ⟨condition, s⟩ -
  dsimp only
  by_cases htype : condition.type ≠ c.prim .bool
  · rw [if_pos htype, if_pos htype]
    rfl
  · rw [if_neg htype, if_neg htype]
    refine (Checked.Agrees.of_liftExcept _).bind fun _ _ => ?_
    cases s.blocks.openIf length index target with
    | error error => rfl
    | ok blocks => rfl

theorem jumpChecked_agrees (target : Nat) :
    Checked.Agrees (s.jumpChecked length index target) (s.jump length index target) := by
  refine (Checked.Agrees.of_liftExcept _).bind fun _ _ => ?_
  cases s.blocks.jump length index target with
  | error error => rfl
  | ok effect => cases effect <;> rfl

/-- A call that counts its arguments in a word is the only condition on an instruction. -/
theorem stepChecked_agrees {i : Instruction} (hcount : ∀ count, i = .call count → count + 1 < UInt64.size) :
    Checked.Agrees (s.stepChecked c length index i) (s.step c length index i) := by
  cases i with
  | binary op => exact (applyOperatorChecked_agrees op).bind fun _ _ => rfl
  | call count => exact (callChecked_agrees (hcount count rfl)).bind fun _ _ => rfl
  | jumpIfFalse target => exact branchChecked_agrees target
  | jump target => exact jumpChecked_agrees target
  | _ => exact .of_liftExcept _

end State

/-- A run that goes on with the result of another one, where going on may fault. -/
def Run.bindChecked {α β : Type} (r : Run α) (next : α → Checked (Run β)) : Checked (Run β) :=
  match r.outcome with
  | .ok a => (next a).map (Run.after r.events)
  | .error e => .ok ⟨r.events, .error e⟩

theorem Run.bindChecked_eq {α β : Type} (r : Run α) {next : α → Checked (Run β)} {f : α → Run β}
    (h : ∀ a, next a = .ok (f a)) : r.bindChecked next = .ok (r.bind f) := by
  obtain ⟨events, outcome⟩ := r
  cases outcome with
  | error e => rfl
  | ok a =>
      simp only [bindChecked, Run.bind, h a]
      rfl

namespace State

/-- Lifts one instruction in the state in which it is reached. -/
def visitChecked (c : Context) (length index : Nat) (s : State) (i : Instruction) : Checked (Run State) := do
  let report := Event.visited index i s.depth
  match ← (s.stepChecked c length index i).run with
  | .ok (next, events) => pure ⟨report :: events, .ok next⟩
  | .error cause => pure ⟨[report], .error ⟨.instruction index, cause⟩⟩

/-- Lifts the instructions from `index` on. -/
def liftFromChecked (c : Context) (length : Nat) : Nat → State → List Instruction → Checked (Run State)
  | index, s, [] => pure (s.close index)
  | index, s, i :: rest =>
      (s.close index).bindChecked fun s => do
        let run ← s.visitChecked c length index i
        run.bindChecked fun s => liftFromChecked c length (index + 1) s rest

variable {c : Context} {length : Nat}

theorem visitChecked_eq {index : Nat} {s : State} {i : Instruction}
    (hcount : ∀ count, i = .call count → count + 1 < UInt64.size) :
    s.visitChecked c length index i = .ok (s.visit c length index i) := by
  have hstep : (s.stepChecked c length index i).run = .ok (s.step c length index i) := stepChecked_agrees hcount
  unfold visitChecked visit
  rw [hstep]
  cases s.step c length index i <;> rfl

theorem liftFromChecked_eq {body : List Instruction}
    (hcounts : ∀ count, .call count ∈ body → count + 1 < UInt64.size) (index : Nat) (s : State) :
    liftFromChecked c length index s body = .ok (liftFrom c length index s body) := by
  induction body generalizing index s with
  | nil => rfl
  | cons i rest ih =>
      have hrest : ∀ count, .call count ∈ rest → count + 1 < UInt64.size :=
        fun count hmem => hcounts count (List.mem_cons_of_mem _ hmem)
      have hfirst : ∀ count, i = .call count → count + 1 < UInt64.size :=
        fun count heq => hcounts count (heq ▸ List.mem_cons_self)
      refine Run.bindChecked_eq _ fun s => ?_
      rw [visitChecked_eq hfirst]
      exact Run.bindChecked_eq _ fun s => ih hrest (index + 1) s

end State

/-- Lifts a function. -/
def liftChecked (d : Dialect) (function : StackFunction) (args : List TypeId) (bound : List Shader)
    (interface : Interface) : Checked (Run Shader) :=
  if args.length ≠ function.params.length then
    pure <| Run.after [.started function.name] <|
      .fail .declaration (.argumentTypeCount function.name function.params.length args.length)
  else do
    let params := args.zip function.params
    let start : State := { scope := initialScope interface params }
    let lifted ← State.liftFromChecked (.ofDialect d bound) function.body.length 0 start function.body
    let run := lifted.bind State.checkEnd
    pure <| Run.after [.started function.name] <| run.bind fun s =>
      let result := s.returns.getD (d.prim .void)
      Run.after [.finished result run.lines.length bound.length] <|
        .pure (.ofBody d function params bound interface result run.lines)

/-- A function whose calls count their arguments in a word is lifted without a fault. -/
theorem liftChecked_eq {d : Dialect} {function : StackFunction} {args : List TypeId} {bound : List Shader}
    {interface : Interface} (hcounts : ∀ count, .call count ∈ function.body → count + 1 < UInt64.size) :
    liftChecked d function args bound interface = .ok (lift d function args bound interface) := by
  unfold liftChecked lift
  by_cases hlength : args.length ≠ function.params.length
  · rw [if_pos hlength, if_pos hlength]
    rfl
  · rw [if_neg hlength, if_neg hlength]
    dsimp only
    rw [State.liftFromChecked_eq hcounts]
    rfl

/-- A function is refused for a reason that lies in it. -/
theorem lift_blames {d : Dialect} {function : StackFunction} {args : List TypeId} {bound : List Shader}
    {interface : Interface} {e : LiftError} (h : (lift d function args bound interface).outcome = .error e) :
    e.cause.kind ≠ .internal := by
  rcases lift_cause_cases h with hcause | ⟨i, -, hrefusal⟩ | ⟨count, hcause | hcause⟩
  · simp [hcause, Cause.kind]
  · exact hrefusal.kind_ne_internal
  · simp [hcause, Cause.kind]
  · simp [hcause, Cause.kind]

/-! ## Assembling -/

namespace Assembler

/-- Adds an instruction and returns its index, which is the one before the new size. -/
def pushChecked (a : Assembler) (i : Instruction) : Checked (Assembler × Nat) := do
  let next := a.push i
  let index ← Checked.decrement next.size
  pure (next, index)

/-- Makes a label, whose number is the one before the new number of labels in a word of 32 bits. -/
def labelChecked (a : Assembler) : Checked (Assembler × Label) := do
  let bindings := a.bindings.push none
  let number ← Checked.decrement (bindings.size % UInt32.size)
  pure ({ a with bindings := bindings }, ⟨number⟩)

/-- Adds a jump that is to be patched. -/
def jumpChecked (a : Assembler) (i : Instruction) (label : Label) : Checked Assembler := do
  let (next, index) ← a.pushChecked i
  pure { next with fixups := next.fixups.push (index, label) }

/-- Performs an edit. -/
def applyChecked (a : Assembler) : Edit → Checked Assembler
  | .param name => pure (a.param name)
  | .push instruction => do pure (← a.pushChecked instruction).1
  | .label => do pure (← a.labelChecked).1
  | .bind label => pure (a.bind label)
  | .jump label => a.jumpChecked (.jump 0) label
  | .jumpIfFalse label => a.jumpChecked (.jumpIfFalse 0) label

/-- Patches one jump of the code. -/
def patchChecked (a : Assembler) (code : Array Instruction) (fixup : Nat × Label) :
    ExceptT AssemblyError Checked (Array Instruction) := do
  let (index, label) := fixup
  let target ← liftExcept (a.target index label)
  let i ← Checked.instruction code index
  match i.retarget? target with
  | some next => pure (code.setIfInBounds index next)
  | none => throwThe Fault (.notAJump index)

/-- The finished function. -/
def finishChecked (a : Assembler) : ExceptT AssemblyError Checked StackFunction :=
  match a.stray with
  | some label => throw (.foreignLabel label)
  | none => do
      let code ← a.fixups.toList.foldlM a.patchChecked a.code
      pure { name := a.name, params := a.params.toList, body := code.toList }

/-- The function that edits make. -/
def assembleChecked (name : String) (edits : List Edit) : Checked (Except AssemblyError StackFunction) := do
  let a ← edits.foldlM applyChecked { name := name }
  a.finishChecked.run

variable {a : Assembler}

theorem labelChecked_eq (h : a.bindings.size + 1 < UInt32.size) : a.labelChecked = .ok a.label := by
  unfold labelChecked
  dsimp only
  rw [Array.size_push, Nat.mod_eq_of_lt h]
  rfl

theorem pushChecked_eq (i : Instruction) : a.pushChecked i = .ok (a.push i, a.size) := by
  have hsize : (a.push i).size = a.size + 1 := Array.size_push i
  unfold pushChecked
  dsimp only
  rw [hsize]
  rfl

/-- Only the numbers of labels are limited. -/
theorem applyChecked_eq {edit : Edit} (h : (a.apply edit).bindings.size < UInt32.size) :
    a.applyChecked edit = .ok (a.apply edit) := by
  cases edit with
  | push i =>
      simp only [applyChecked, pushChecked_eq]
      rfl
  | label =>
      rw [size_bindings_apply, if_pos rfl] at h
      simp only [applyChecked, labelChecked_eq h]
      rfl
  | jump label =>
      simp only [applyChecked, jumpChecked, pushChecked_eq]
      rfl
  | jumpIfFalse label =>
      simp only [applyChecked, jumpChecked, pushChecked_eq]
      rfl
  | _ => rfl

theorem foldlM_applyChecked_eq {edits : List Edit} (h : a.bindings.size + edits.count .label < UInt32.size) :
    edits.foldlM applyChecked a = .ok (edits.foldl apply a) := by
  induction edits generalizing a with
  | nil => rfl
  | cons edit edits ih =>
      have hsize := size_bindings_apply a edit
      have hcount : (edit :: edits).count .label = edits.count .label + if edit = .label then 1 else 0 := by
        rw [List.count_cons]
        simp only [beq_iff_eq]
      rw [List.foldlM_cons, applyChecked_eq (by omega)]
      exact ih (by omega)

/-- A jump of the code is patched without a fault. -/
theorem patchChecked_agrees {code : Array Instruction} {index : Nat} {i : Instruction}
    (hget : code[index]? = some i) (hjump : i.isJump = true) (label : Label) :
    Checked.Agrees (a.patchChecked code (index, label)) (a.patch code (index, label)) := by
  refine (Checked.Agrees.of_liftExcept _).bind fun target _ => ?_
  obtain ⟨next, hretarget, -⟩ := i.exists_retarget? hjump target
  have hinstruction : Checked.instruction code index = .ok i := by
    unfold Checked.instruction
    rw [hget]
  refine .bind_lift hinstruction ?_
  rw [hget, Option.bind_some, hretarget]
  rfl

theorem foldlM_patchChecked_agrees {code : Array Instruction} {fixups : List (Nat × Label)}
    (h : JumpsAt code fixups) :
    Checked.Agrees (fixups.foldlM a.patchChecked code) (fixups.foldlM a.patch code) := by
  induction fixups generalizing code with
  | nil => rfl
  | cons fixup fixups ih =>
      obtain ⟨index, label⟩ := fixup
      obtain ⟨i, hget, hjump⟩ := h (index, label) List.mem_cons_self
      rw [List.foldlM_cons, List.foldlM_cons]
      refine (patchChecked_agrees hget hjump label).bind fun next hnext => ?_
      rcases patch_of_isJump hget hjump label with ⟨e, -, hpatch⟩ | ⟨target, _, -, -, hnext', hpatch⟩
      · cases hpatch.symm.trans hnext
      · cases hpatch.symm.trans hnext
        exact ih (h.tail.set index hnext')

theorem finishChecked_agrees (h : JumpsAt a.code a.fixups.toList) : Checked.Agrees a.finishChecked a.finish := by
  unfold finishChecked finish
  cases a.stray with
  | some label => rfl
  | none => exact (foldlM_patchChecked_agrees h).bind fun _ _ => rfl

/-- Edits that make fewer labels than there are numbers for are performed and finished without a fault. -/
theorem assembleChecked_eq (name : String) {edits : List Edit} (h : edits.count .label < UInt32.size) :
    assembleChecked name edits = .ok (ofEdits name edits).finish := by
  have hedits : edits.foldlM applyChecked { name := name } = .ok (ofEdits name edits) :=
    foldlM_applyChecked_eq (by simpa using h)
  unfold assembleChecked
  rw [hedits]
  exact finishChecked_agrees (jumpsAt_ofEdits name edits)

end Assembler

/-! ## No faults -/

/-- Lifting a function whose calls count their arguments in words of 64 bits never faults, whatever its jumps, the
dialect, the argument types, the bound shaders and the interface are, and no function is refused for an internal
reason.  Edits that number their labels in words of 32 bits never fault either, whatever labels they bind and jump to,
and only jumps are patched. -/
theorem lift_and_finish_defined (d : Dialect) (function : StackFunction) (args : List TypeId) (bound : List Shader)
    (interface : Interface) (name : String) (edits : List Assembler.Edit) :
    ((∀ count, .call count ∈ function.body → count + 1 < UInt64.size) →
        liftChecked d function args bound interface = .ok (lift d function args bound interface)) ∧
      (∀ e, (lift d function args bound interface).outcome = .error e → e.cause.kind ≠ .internal) ∧
      (edits.count .label < UInt32.size →
        Assembler.assembleChecked name edits = .ok (Assembler.ofEdits name edits).finish) ∧
      ∀ index, (Assembler.ofEdits name edits).finish ≠ .error (.notAJump index) := by
  refine ⟨fun hcounts => liftChecked_eq hcounts, fun e h => lift_blames h,
    fun hlabels => Assembler.assembleChecked_eq name hlabels, fun index => ?_⟩
  exact Assembler.finish_ne_notAJump (Assembler.jumpsAt_ofEdits name edits) index

/-- A function with an operand of no type, the longest call and a jump far behind its end. -/
def reckless : StackFunction where
  name := "reckless"
  params := ["x"]
  body := [.loadLocal "x", .loadLocal "x", .binary .add, .call 18446744073709551614, .jump 18446744073709551615]

/-- Edits that jump to a label before it is made and to one that is never made. -/
def Assembler.astray : List Edit :=
  [.jump ⟨0⟩, .push .ret, .label, .bind ⟨0⟩, .jumpIfFalse ⟨4294967295⟩]

theorem lift_and_finish_defined_reckless :
    (∀ count, .call count ∈ reckless.body → count + 1 < UInt64.size) ∧
      liftChecked .empty reckless [.null] [] {} = .ok (lift .empty reckless [.null] [] {}) ∧
      Assembler.astray.count .label < UInt32.size ∧
      Assembler.assembleChecked "astray" Assembler.astray = .ok (.error (.foreignLabel ⟨4294967295⟩)) := by
  have hcounts : ∀ count, .call count ∈ reckless.body → count + 1 < UInt64.size := by
    intro count hmem
    simp only [reckless, List.mem_cons, reduceCtorEq, Instruction.call.injEq, List.not_mem_nil, or_false,
      false_or] at hmem
    rw [hmem]
    decide
  have hlabels : Assembler.astray.count .label < UInt32.size := by decide
  obtain ⟨hlift, -, hfinish, -⟩ :=
    lift_and_finish_defined .empty reckless [.null] [] {} "astray" Assembler.astray
  exact ⟨hcounts, hlift hcounts, hlabels, hfinish hlabels⟩

/-- A longer call overflows. -/
example : liftChecked .empty { reckless with body := [.call 18446744073709551615] } [.null] [] {} =
    .error (.overflow 18446744073709551615) := rfl

/-- An assembler that edits do not make may fault when it is finished. -/
example : (Assembler.finishChecked { name := "f", bindings := #[some 0], fixups := #[(0, ⟨0⟩)] }).run =
    .error (.outOfRange 0) := rfl

end ShaderLift
