import ShaderLift.Expr
import ShaderLift.Proofs.Nesting
import ShaderLift.Proofs.NumberText

/-!
# The grammar of expressions

Tokens are read as expressions in which all operators group to the left, and bind more or less tightly by their group.
`Reads` is the grammar, and `Written` is an expression together with the parentheses that are written in it.

* `Reads.unique`: tokens can be read as one expression only, up to numbers with the same text.
* `Expr.reads_written`: an expression is read back from its tokens.
* `Written.exists_reads`: whatever is written can be read as some expression.
* `Reads.opens_le`: no reading of an expression has fewer parentheses than the expression is written with.
* `Expr.reads_tokens_iff`, `Expr.canonical_ne_of_reads`: what the tokens of an expression are read as, and what tokens
  with fewer parentheses are not read as.
-/

namespace ShaderLift

/-- What expression text is made of. -/
inductive Token where
  | name (text : String)
  | literal (text : String)
  | operator (op : Operator)
  | opening
  | closing
  | comma
  /-- A character that is no part of an expression. -/
  | unknown (c : Char)
deriving DecidableEq, Repr

/-- Token lists with commas between them. -/
def commaList : List (List Token) → List Token
  | [] => []
  | [part] => part
  | part :: next :: rest => part ++ .comma :: commaList (next :: rest)

/-- The operators of the grammar, from those that bind most loosely to those that bind most tightly. -/
def operatorGroups : List (List Operator) :=
  [[.eq, .ne], [.lt, .le, .gt, .ge], [.add, .sub], [.mul, .div]]

/-- The number of the group of an operator. -/
def Operator.level (op : Operator) : Nat :=
  operatorGroups.findIdx (·.contains op) + 1

/-- Operators are given the precedence that they have in the grammar. -/
theorem Operator.level_eq_precedence (op : Operator) : op.level = op.precedence := by
  cases op <;> rfl

/-- The tokens are read as the expression, where operators outside of parentheses are of the group `level` or a later
one.  An operator takes operands of its own group on the left only. -/
inductive Reads : Nat → List Token → Expr → Prop
  | number (level : Nat) (value : Number) : Reads level [.literal value.text] (.number value)
  | var (level : Nat) (name : String) : Reads level [.name name] (.var name)
  | parens (level : Nat) {tokens : List Token} {e : Expr} (h : Reads 0 tokens e) :
      Reads level (.opening :: (tokens ++ [.closing])) e
  | call (level : Nat) (callee : String) {parts : List (List Token × Expr)}
      (h : ∀ part ∈ parts, Reads 0 part.1 part.2) :
      Reads level (.name callee :: .opening :: (commaList (parts.map Prod.fst) ++ [.closing]))
        (.call callee (parts.map Prod.snd))
  | binary {level : Nat} {op : Operator} {ls rs : List Token} {left right : Expr}
      (hlevel : level ≤ op.level) (hleft : Reads op.level ls left)
      (hright : Reads (op.level + 1) rs right) :
      Reads level (ls ++ .operator op :: rs) (.binary op left right)

namespace Token

/-- How many parentheses are opened and not closed. -/
def depth : List Token → Int
  | [] => 0
  | opening :: rest => depth rest + 1
  | closing :: rest => depth rest - 1
  | _ :: rest => depth rest

@[simp] theorem depth_append (before after : List Token) : depth (before ++ after) = depth before + depth after := by
  induction before with
  | nil => simp [depth]
  | cons token before ih => cases token <;> simp [depth, ih] <;> omega

/-- Parentheses are balanced, and what stands outside of them satisfies `P`. -/
structure Closed (P : Token → Prop) (tokens : List Token) : Prop where
  depth_eq : depth tokens = 0
  outside : ∀ before token after, tokens = before ++ token :: after →
    0 ≤ depth before ∧ (depth before = 0 → P token)

namespace Closed

variable {P Q : Token → Prop} {tokens first second : List Token}

theorem nil : Closed P [] := by
  refine ⟨rfl, ?_⟩
  intro before token after h
  simp at h

theorem mono (h : Closed P tokens) (hPQ : ∀ token, P token → Q token) : Closed Q tokens := by
  refine ⟨h.depth_eq, ?_⟩
  intro before token after heq
  obtain ⟨hdepth, htoken⟩ := h.outside before token after heq
  exact ⟨hdepth, fun hzero => hPQ token (htoken hzero)⟩

theorem append (hfirst : Closed P first) (hsecond : Closed P second) : Closed P (first ++ second) := by
  refine ⟨by rw [depth_append, hfirst.depth_eq, hsecond.depth_eq]; rfl, ?_⟩
  intro before token after h
  rcases append_eq_append_cons h with ⟨between, hbefore, -⟩ | ⟨between, rfl, hafter⟩
  · exact hfirst.outside before token between hbefore
  · rw [depth_append, hfirst.depth_eq, Int.zero_add]
    exact hsecond.outside between token after hafter

/-- A token that is no parenthesis. -/
theorem single {token : Token} (hdepth : depth [token] = 0) (hP : P token) : Closed P [token] := by
  refine ⟨hdepth, ?_⟩
  intro before other after h
  cases before with
  | nil =>
      cases h
      exact ⟨Int.le_refl 0, fun _ => hP⟩
  | cons _ before => simp at h

/-- Tokens in parentheses. -/
theorem enclose (h : Closed P tokens) (hQ : Q .opening) : Closed Q (.opening :: (tokens ++ [.closing])) := by
  refine ⟨by simp [depth, h.depth_eq], ?_⟩
  intro before token after heq
  cases before with
  | nil =>
      cases heq
      exact ⟨Int.le_refl 0, fun _ => hQ⟩
  | cons head before =>
      obtain ⟨rfl, hrest⟩ := List.cons.inj heq
      have hinside : 0 ≤ depth before := by
        rcases append_eq_append_cons hrest with ⟨between, hbefore, -⟩ | ⟨between, rfl, hafter⟩
        · exact (h.outside before token between hbefore).1
        · cases between with
          | nil => simp [h.depth_eq]
          | cons _ between => simp at hafter
      rw [depth]
      exact ⟨by omega, fun hzero => by omega⟩

theorem commaList {parts : List (List Token)} (h : ∀ part ∈ parts, Closed P part) (hcomma : P .comma) :
    Closed P (ShaderLift.commaList parts) := by
  fun_induction ShaderLift.commaList parts with
  | case1 => exact nil
  | case2 part => exact h part List.mem_cons_self
  | case3 part next rest ih =>
      exact (h part List.mem_cons_self).append
        ((single rfl hcomma).append (ih fun part hpart => h part (List.mem_cons_of_mem _ hpart)))

end Closed

/-- The tokens at one level: no commas, and no operators that bind less tightly. -/
def Allowed (level : Nat) (token : Token) : Prop :=
  token ≠ .comma ∧ ∀ op, token = .operator op → level ≤ op.level

end Token

open Token (depth depth_append Closed Allowed)

/-! ## One reading -/

namespace Reads

variable {level : Nat} {tokens : List Token} {e : Expr}

theorem ne_nil (h : Reads level tokens e) : tokens ≠ [] := by
  cases h <;> simp

/-- Only operators of the level or above stand outside of parentheses. -/
theorem closed (h : Reads level tokens e) : Closed (Allowed level) tokens := by
  induction h with
  | number level value => exact .single rfl ⟨by simp, by simp⟩
  | var level name => exact .single rfl ⟨by simp, by simp⟩
  | parens level h ih => exact ih.enclose ⟨by simp, by simp⟩
  | @call level callee parts h ih =>
      have hargs : ∀ tokens ∈ parts.map Prod.fst, Closed (fun _ => True) tokens := by
        intro tokens htokens
        obtain ⟨part, hpart, rfl⟩ := List.mem_map.mp htokens
        exact (ih part hpart).mono fun _ _ => trivial
      exact (Closed.single rfl ⟨by simp, by simp⟩).append
        ((Closed.commaList hargs trivial).enclose ⟨by simp, by simp⟩)
  | @binary level op ls rs left right hlevel hleft hright ihLeft ihRight =>
      have hop : Allowed level (.operator op) := by
        refine ⟨by simp, ?_⟩
        rintro _ ⟨⟩
        exact hlevel
      have hmono (other : Nat) (hother : level ≤ other) (token : Token) (h : Allowed other token) :
          Allowed level token :=
        ⟨h.1, fun op htoken => Nat.le_trans hother (h.2 op htoken)⟩
      exact (ihLeft.mono (hmono _ hlevel)).append
        ((Closed.single rfl hop).append (ihRight.mono (hmono _ (by omega))))

end Reads

/-- Two divisions of one list: at the same entry, or the first part of one goes on behind that of the other. -/
theorem append_cons_eq_append_cons {α : Type} {first second first' second' : List α} {a a' : α}
    (h : first ++ a :: second = first' ++ a' :: second') :
    (first = first' ∧ a = a' ∧ second = second') ∨
      (∃ between, first = first' ++ a' :: between ∧ second' = between ++ a :: second) ∨
      ∃ between, first' = first ++ a :: between ∧ second = between ++ a' :: second' := by
  rcases append_eq_append_cons h with hlonger | ⟨between, rfl, hsecond⟩
  · exact .inr (.inl hlonger)
  · cases between with
    | nil =>
        obtain ⟨rfl, rfl⟩ := List.cons.inj hsecond
        exact .inl ⟨(List.append_nil first).symm, rfl, rfl⟩
    | cons b between =>
        obtain ⟨rfl, rfl⟩ := List.cons.inj hsecond
        exact .inr (.inr ⟨between, rfl, rfl⟩)

/-- A token that is not allowed outside of parentheses does not follow balanced ones. -/
theorem Token.Closed.ne_append {P Q : Token → Prop} {tokens before after : List Token} {token : Token}
    (h : Closed P tokens) (hbefore : Closed Q before) (htoken : ¬ P token) : tokens ≠ before ++ token :: after := by
  intro heq
  exact htoken ((h.outside before token after heq).2 hbefore.depth_eq)

/-- Commas divide tokens in one way. -/
theorem commaList_injective {parts parts' : List (List Token)}
    (h : ∀ part ∈ parts, part ≠ [] ∧ Closed (Allowed 0) part)
    (h' : ∀ part ∈ parts', part ≠ [] ∧ Closed (Allowed 0) part) (heq : commaList parts = commaList parts') :
    parts = parts' := by
  have hcomma : ¬ Allowed 0 .comma := fun hallowed => hallowed.1 rfl
  fun_induction commaList parts generalizing parts' with
  | case1 =>
      match parts' with
      | [] => rfl
      | [part'] => exact absurd heq.symm (h' part' (by simp)).1
      | part' :: next' :: rest' => simp [commaList] at heq
  | case2 part =>
      match parts' with
      | [] => exact absurd heq (h part (by simp)).1
      | [part'] => exact congrArg (fun part => [part]) heq
      | part' :: next' :: rest' =>
          exact absurd heq ((h part (by simp)).2.ne_append (h' part' (by simp)).2 hcomma)
  | case3 part next rest ih =>
      have hpart := (h part (by simp)).2
      match parts' with
      | [] => simp [commaList] at heq
      | [part'] => exact absurd heq.symm ((h' part' (by simp)).2.ne_append hpart hcomma)
      | part' :: next' :: rest' =>
          have hpart' := (h' part' (by simp)).2
          rcases append_cons_eq_append_cons heq with ⟨rfl, -, hrest⟩ | ⟨between, hlonger, -⟩ | ⟨between, hlonger, -⟩
          · rw [ih (fun part hpart => h part (List.mem_cons_of_mem _ hpart))
              (fun part hpart => h' part (List.mem_cons_of_mem _ hpart)) hrest]
          · exact absurd hlonger (hpart.ne_append hpart' hcomma)
          · exact absurd hlonger (hpart'.ne_append hpart hcomma)

/-- Functions agree on pairs with the same first entries if they do so pair by pair. -/
theorem map_eq_of_fst_eq {α β γ : Type} {f : α × β → γ} {pairs pairs' : List (α × β)}
    (hfst : pairs.map Prod.fst = pairs'.map Prod.fst)
    (h : ∀ pair ∈ pairs, ∀ pair' ∈ pairs', pair.1 = pair'.1 → f pair = f pair') : pairs.map f = pairs'.map f := by
  induction pairs generalizing pairs' with
  | nil =>
      obtain rfl := List.map_eq_nil_iff.mp hfst.symm
      rfl
  | cons pair pairs ih =>
      cases pairs' with
      | nil => simp at hfst
      | cons pair' pairs' =>
          obtain ⟨hpair, hrest⟩ := List.cons.inj hfst
          rw [List.map_cons, List.map_cons, h pair (by simp) pair' (by simp) hpair, ih hrest]
          intro other hother other' hother'
          exact h other (List.mem_cons_of_mem _ hother) other' (List.mem_cons_of_mem _ hother')

namespace Expr

/-- Induction in which all arguments of a call have the property. -/
@[elab_as_elim]
theorem induction {P : Expr → Prop} (number : ∀ value, P (.number value)) (var : ∀ name, P (.var name))
    (binary : ∀ op left right, P left → P right → P (.binary op left right))
    (call : ∀ callee args, (∀ arg ∈ args, P arg) → P (.call callee args)) : ∀ e, P e
  | .number value => number value
  | .var name => var name
  | .binary op left right =>
      binary op left right (induction number var binary call left) (induction number var binary call right)
  | .call callee args => call callee args fun arg _ => induction number var binary call arg

mutual

/-- The same expression with all numbers that have the same text made equal. -/
def canonical : Expr → Expr
  | number value => number value.canonical
  | var name => var name
  | binary op left right => binary op left.canonical right.canonical
  | call callee args => call callee (canonicalArgs args)

/-- The same arguments with all numbers that have the same text made equal. -/
def canonicalArgs : List Expr → List Expr
  | [] => []
  | arg :: rest => arg.canonical :: canonicalArgs rest

end

theorem canonicalArgs_eq_map (args : List Expr) : canonicalArgs args = args.map canonical := by
  induction args with
  | nil => rfl
  | cons arg args ih => rw [canonicalArgs, List.map_cons, ih]

end Expr

namespace Reads

variable {level level' : Nat} {tokens tokens' ls rs : List Token} {e e' : Expr}

/-- The operator that is applied last stands behind every other operator which binds as loosely. -/
theorem last_operator {op op' : Operator} {left right' : Expr} (hleft : Reads op.level ls left)
    {ls' rs' between : List Token} {left' : Expr} (hleft' : Reads op'.level ls' left')
    (hright' : Reads (op'.level + 1) rs' right') (hls : ls = ls' ++ .operator op' :: between) :
    rs' ≠ between ++ .operator op :: rs := by
  intro hrs
  have hdepth : depth between = 0 := by
    have := hleft.closed.depth_eq
    rw [hls, depth_append, hleft'.closed.depth_eq, depth] at this
    · omega
    all_goals simp
  have hle := ((hleft.closed.outside _ _ _ hls).2 hleft'.closed.depth_eq).2 op' rfl
  have hlt := ((hright'.closed.outside _ _ _ hrs).2 hdepth).2 op rfl
  omega

/-- What can be read at every level is not read as the application of an operator. -/
theorem ne_binary (h : ∀ level, Reads level tokens e) {op : Operator} {left : Expr} (hleft : Reads level ls left) :
    tokens ≠ ls ++ .operator op :: rs :=
  (h (op.level + 1)).closed.ne_append hleft.closed fun hallowed => absurd (hallowed.2 op rfl) (by omega)

/-- Tokens are read as one expression, up to numbers with the same text. -/
theorem unique (h : Reads level tokens e) (h' : Reads level' tokens' e') (heq : tokens = tokens') :
    e.canonical = e'.canonical := by
  induction h generalizing level' tokens' e' with
  | number level value =>
      cases h' with
      | number _ value' =>
          have htext : value.text = value'.text := by simpa using heq
          rw [Expr.canonical, Expr.canonical, (Number.text_eq_iff value value').mp htext]
      | binary _ hleft' _ => exact absurd heq (ne_binary (fun level => .number level value) hleft')
      | _ => simp at heq
  | var level name =>
      cases h' with
      | var _ name' =>
          obtain rfl : name = name' := by simpa using heq
          rfl
      | binary _ hleft' _ => exact absurd heq (ne_binary (fun level => .var level name) hleft')
      | _ => simp at heq
  | parens level h ih =>
      cases h' with
      | parens _ h' => exact ih h' (List.append_cancel_right (List.cons.inj heq).2)
      | binary _ hleft' _ => exact absurd heq (ne_binary (fun level => .parens level h) hleft')
      | _ => simp at heq
  | @call level callee parts h ih =>
      cases h' with
      | @call _ callee' parts' h' =>
          obtain ⟨rfl, hparts⟩ :
              callee = callee' ∧ commaList (parts.map Prod.fst) = commaList (parts'.map Prod.fst) := by
            simpa using heq
          have hpart {parts : List (List Token × Expr)} (h : ∀ part ∈ parts, Reads 0 part.1 part.2)
              (tokens : List Token) (htokens : tokens ∈ parts.map Prod.fst) :
              tokens ≠ [] ∧ Closed (Allowed 0) tokens := by
            obtain ⟨part, hpart, rfl⟩ := List.mem_map.mp htokens
            exact ⟨(h part hpart).ne_nil, (h part hpart).closed⟩
          rw [Expr.canonical, Expr.canonical, Expr.canonicalArgs_eq_map, Expr.canonicalArgs_eq_map, List.map_map,
            List.map_map, map_eq_of_fst_eq (commaList_injective (hpart h) (hpart h') hparts)]
          intro part hpart part' hpart' htokens
          exact ih part hpart (h' part' hpart') htokens
      | binary _ hleft' _ => exact absurd heq (ne_binary (fun level => .call level callee h) hleft')
      | _ => simp at heq
  | @binary level op ls rs left right hlevel hleft hright ihLeft ihRight =>
      cases h' with
      | number level value => exact absurd heq.symm (ne_binary (fun level => .number level value) hleft)
      | var level name => exact absurd heq.symm (ne_binary (fun level => .var level name) hleft)
      | parens level h => exact absurd heq.symm (ne_binary (fun level => .parens level h) hleft)
      | call level callee h => exact absurd heq.symm (ne_binary (fun level => .call level callee h) hleft)
      | @binary _ op' ls' rs' left' right' hlevel' hleft' hright' =>
          -- Both readings split the tokens at an operator.  If it is not the same one, the later of the two would
          -- stand in the right operand of the earlier, for which it binds too loosely.
          rcases append_cons_eq_append_cons heq with ⟨hls, hop, hrs⟩ | ⟨between, hls, hrs⟩ | ⟨between, hls, hrs⟩
          · obtain rfl : op = op' := by simpa using hop
            rw [Expr.canonical, Expr.canonical, ihLeft hleft' hls, ihRight hright' hrs]
          · exact absurd hrs (last_operator hleft hleft' hright' hls)
          · exact absurd hrs (last_operator hleft' hleft hright hls)

end Reads

/-! ## Written expressions -/

/-- An expression with the parentheses that are written in it. -/
inductive Written where
  | number (value : Number)
  | var (name : String)
  | binary (op : Operator) (left right : Written)
  | call (callee : String) (args : List Written)
  | parens (inner : Written)
deriving Repr

namespace Written

mutual

/-- The tokens of a written expression. -/
def tokens : Written → List Token
  | number value => [.literal value.text]
  | var name => [.name name]
  | binary op left right => left.tokens ++ .operator op :: right.tokens
  | call callee args => .name callee :: .opening :: (commaList (argTokens args) ++ [.closing])
  | parens inner => .opening :: (inner.tokens ++ [.closing])

/-- The tokens of each argument. -/
def argTokens : List Written → List (List Token)
  | [] => []
  | arg :: rest => arg.tokens :: argTokens rest

end

theorem argTokens_eq_map (args : List Written) : argTokens args = args.map tokens := by
  induction args with
  | nil => rfl
  | cons arg args ih => rw [argTokens, List.map_cons, ih]

/-- Induction in which all arguments of a call have the property. -/
@[elab_as_elim]
theorem induction {P : Written → Prop} (number : ∀ value, P (.number value)) (var : ∀ name, P (.var name))
    (binary : ∀ op left right, P left → P right → P (.binary op left right))
    (call : ∀ callee args, (∀ arg ∈ args, P arg) → P (.call callee args))
    (parens : ∀ inner, P inner → P (.parens inner)) : ∀ w, P w
  | .number value => number value
  | .var name => var name
  | .binary op left right =>
      binary op left right (induction number var binary call parens left)
        (induction number var binary call parens right)
  | .call callee args => call callee args fun arg _ => induction number var binary call parens arg
  | .parens inner => parens inner (induction number var binary call parens inner)

/-- In parentheses if the condition holds. -/
def enclosed (condition : Bool) (w : Written) : Written :=
  if condition then w.parens else w

/-- Without the outermost parentheses. -/
def stripped : Written → Written
  | parens inner => inner
  | w => w

/-- Whether the whole is in parentheses. -/
def isParens : Written → Bool
  | parens _ => true
  | _ => false

/-- How many parentheses are opened. -/
def opens (w : Written) : Nat :=
  w.tokens.count .opening

end Written

namespace Expr

mutual

/-- How an expression is written: operands stand in parentheses if their operator binds too loosely. -/
def written : Expr → Written
  | number value => .number value
  | var name => .var name
  | binary op left right =>
      .binary op (left.written.enclosed (decide (left.precedence < op.precedence)))
        (right.written.enclosed (decide (right.precedence < op.precedence + 1)))
  | call callee args => .call callee (writtenArgs args)

/-- How arguments are written. -/
def writtenArgs : List Expr → List Written
  | [] => []
  | arg :: rest => arg.written :: writtenArgs rest

end

theorem writtenArgs_eq_map (args : List Expr) : writtenArgs args = args.map written := by
  induction args with
  | nil => rfl
  | cons arg args ih => rw [writtenArgs, List.map_cons, ih]

/-- How an expression is written as an operand that has to bind with at least the precedence `level`. -/
def writtenAt (level : Nat) (e : Expr) : Written :=
  e.written.enclosed (decide (e.precedence < level))

theorem writtenAt_of_le {level : Nat} {e : Expr} (h : level ≤ e.precedence) : e.writtenAt level = e.written := by
  rw [writtenAt, decide_eq_false (by omega)]
  rfl

theorem written_binary (op : Operator) (left right : Expr) :
    (binary op left right).written =
      .binary op (left.writtenAt op.precedence) (right.writtenAt (op.precedence + 1)) := by
  rw [written, writtenAt, writtenAt]

theorem precedence_lt_atom (op : Operator) : op.precedence < atomPrecedence := by
  cases op <;> decide

/-- In parentheses an expression can be read at every level. -/
theorem reads_enclosed {level : Nat} {e : Expr} (h : ∀ level ≤ e.precedence, Reads level e.written.tokens e) :
    Reads level (e.writtenAt level).tokens e := by
  by_cases hlevel : level ≤ e.precedence
  · rw [writtenAt_of_le hlevel]
    exact h level hlevel
  · rw [writtenAt, decide_eq_true (by omega)]
    exact .parens level (h 0 (Nat.zero_le _))

/-- An expression is read back from its tokens. -/
theorem reads_written (e : Expr) (level : Nat) (hlevel : level ≤ e.precedence) : Reads level e.written.tokens e := by
  induction e using Expr.induction generalizing level with
  | number value => exact .number level value
  | var name => exact .var level name
  | binary op left right ihLeft ihRight =>
      rw [precedence, ← op.level_eq_precedence] at hlevel
      rw [written_binary, ← op.level_eq_precedence]
      exact .binary hlevel (reads_enclosed ihLeft) (reads_enclosed ihRight)
  | call callee args ih =>
      let parts := args.map fun arg => (arg.written.tokens, arg)
      have hparts : ∀ part ∈ parts, Reads 0 part.1 part.2 := by
        intro part hpart
        obtain ⟨arg, harg, rfl⟩ := List.mem_map.mp hpart
        exact ih arg harg 0 (Nat.zero_le _)
      have hreads := Reads.call level callee hparts
      rw [List.map_map, List.map_map] at hreads
      rw [written, Written.tokens, Written.argTokens_eq_map, writtenArgs_eq_map, List.map_map]
      simpa [Function.comp_def] using hreads

end Expr

/-! ## No needless parentheses -/

theorem count_commaList (parts : List (List Token)) :
    (commaList parts).count .opening = (parts.map (List.count .opening)).sum := by
  fun_induction commaList parts with
  | case1 => rfl
  | case2 part => simp
  | case3 part next rest ih => simp [ih]

namespace Written

@[simp] theorem opens_parens (w : Written) : w.parens.opens = w.opens + 1 := by
  simp [opens, tokens]

@[simp] theorem opens_binary (op : Operator) (left right : Written) :
    (binary op left right).opens = left.opens + right.opens := by
  simp [opens, tokens]

@[simp] theorem opens_call (callee : String) (args : List Written) :
    (call callee args).opens = (args.map opens).sum + 1 := by
  have hopens : opens = fun w => w.tokens.count .opening := rfl
  simp [hopens, tokens, count_commaList, argTokens_eq_map, Function.comp_def]

theorem opens_enclosed (condition : Bool) (w : Written) : (w.enclosed condition).opens ≤ w.opens + 1 := by
  cases condition <;> simp [enclosed]

end Written

/-- No reading of an expression has fewer parentheses than the expression is written with. -/
theorem Reads.opens_le {level : Nat} {tokens : List Token} {e : Expr} (h : Reads level tokens e)
    (hlevel : level ≤ Expr.atomPrecedence) : (e.writtenAt level).opens ≤ tokens.count .opening := by
  induction h with
  | number level value =>
      rw [Expr.writtenAt_of_le hlevel]
      exact Nat.le_refl _
  | var level name =>
      rw [Expr.writtenAt_of_le hlevel]
      exact Nat.le_refl _
  | @parens level tokens e h ih =>
      have hinner := ih (Nat.zero_le _)
      rw [Expr.writtenAt_of_le (Nat.zero_le _)] at hinner
      have houter := Written.opens_enclosed (decide (e.precedence < level)) e.written
      have hcount : (Token.opening :: (tokens ++ [.closing])).count .opening = tokens.count .opening + 1 := by simp
      rw [Expr.writtenAt, hcount]
      omega
  | @call level callee parts h ih =>
      have hparts :
          (parts.map fun part => part.2.written.opens).sum ≤ (parts.map fun part => part.1.count .opening).sum := by
        refine List.sum_le_sum fun part hpart => ?_
        have hpart := ih part hpart (Nat.zero_le _)
        rwa [Expr.writtenAt_of_le (Nat.zero_le _)] at hpart
      rw [Expr.writtenAt_of_le hlevel, Expr.written, Written.opens_call, Expr.writtenArgs_eq_map]
      simpa [count_commaList, Function.comp_def] using hparts
  | @binary level op ls rs left right hop hleft hright ihLeft ihRight =>
      have hatom := Expr.precedence_lt_atom op
      rw [op.level_eq_precedence] at hop ihLeft ihRight
      have hleft := ihLeft (Nat.le_of_lt hatom)
      have hright := ihRight hatom
      rw [Expr.writtenAt_of_le hop, Expr.written_binary, Written.opens_binary]
      have hcount : (ls ++ .operator op :: rs).count .opening = ls.count .opening + rs.count .opening := by simp
      omega

/-! ## Readability -/

namespace Reads

variable {level : Nat} {ls rs : List Token} {left right : Expr} {op : Operator}

/-- An operator with an operand that binds more tightly can follow whatever is read at its level or below. -/
theorem exists_append (hleft : Reads level ls left) (hlevel : level ≤ op.level)
    (hright : Reads (op.level + 1) rs right) : ∃ e, Reads level (ls ++ .operator op :: rs) e := by
  -- Whatever binds tightly enough is the left operand as a whole.
  have hwhole {level : Nat} {ls : List Token} {left : Expr} (hlevel : level ≤ op.level)
      (hleft : Reads op.level ls left) : ∃ e, Reads level (ls ++ .operator op :: rs) e :=
    ⟨_, .binary hlevel hleft hright⟩
  induction hleft with
  | number _ value => exact hwhole hlevel (.number _ value)
  | var _ name => exact hwhole hlevel (.var _ name)
  | parens _ h => exact hwhole hlevel (.parens _ h)
  | call _ callee h => exact hwhole hlevel (.call _ callee h)
  | @binary level op' ls rs left right hop' hleft hright ihLeft ihRight =>
      by_cases hop : op.level ≤ op'.level
      · exact hwhole hlevel (.binary hop hleft hright)
      · obtain ⟨e, he⟩ := ihRight (by omega)
        rw [List.append_assoc, List.cons_append]
        exact ⟨_, .binary hop' hleft he⟩

/-- Whatever is read on both sides of an operator, the whole can be read. -/
theorem exists_join (hleft : Reads 0 ls left) (hright : Reads level rs right) :
    ∃ e, Reads 0 (ls ++ .operator op :: rs) e := by
  induction hright generalizing op with
  | number _ value => exact exists_append hleft (Nat.zero_le _) (.number _ value)
  | var _ name => exact exists_append hleft (Nat.zero_le _) (.var _ name)
  | parens _ h => exact exists_append hleft (Nat.zero_le _) (.parens _ h)
  | call _ callee h => exact exists_append hleft (Nat.zero_le _) (.call _ callee h)
  | @binary level op' ls' rs' left' right' _ _ hright' ihLeft _ =>
      obtain ⟨e, he⟩ := ihLeft
      obtain ⟨e', he'⟩ := exists_append he (Nat.zero_le _) hright'
      rw [List.append_assoc, List.cons_append] at he'
      exact ⟨e', he'⟩

end Reads

namespace Written

/-- Whatever is written can be read. -/
theorem exists_reads (w : Written) : ∃ e, Reads 0 w.tokens e := by
  induction w using Written.induction with
  | number value => exact ⟨_, .number 0 value⟩
  | var name => exact ⟨_, .var 0 name⟩
  | binary op left right ihLeft ihRight =>
      obtain ⟨_, hleft⟩ := ihLeft
      obtain ⟨_, hright⟩ := ihRight
      exact hleft.exists_join hright
  | call callee args ih =>
      have hparts : ∃ parts : List (List Token × Expr),
          parts.map Prod.fst = args.map tokens ∧ ∀ part ∈ parts, Reads 0 part.1 part.2 := by
        induction args with
        | nil => exact ⟨[], rfl, by simp⟩
        | cons arg rest ihRest =>
            obtain ⟨e, harg⟩ := ih arg List.mem_cons_self
            obtain ⟨parts, htokens, hparts⟩ := ihRest fun arg harg => ih arg (List.mem_cons_of_mem _ harg)
            refine ⟨(arg.tokens, e) :: parts, ?_, List.forall_mem_cons.mpr ⟨harg, hparts⟩⟩
            rw [List.map_cons, List.map_cons, htokens]
      obtain ⟨parts, htokens, hparts⟩ := hparts
      rw [tokens, argTokens_eq_map, ← htokens]
      exact ⟨_, .call 0 callee hparts⟩
  | parens inner ih =>
      obtain ⟨_, hinner⟩ := ih
      exact ⟨_, .parens 0 hinner⟩

end Written

/-! ## Equal texts -/

namespace Expr

theorem precedence_canonical (e : Expr) : e.canonical.precedence = e.precedence := by
  cases e <;> rfl

theorem tokens_written_canonical (e : Expr) : e.canonical.written.tokens = e.written.tokens := by
  induction e using Expr.induction with
  | number value => rw [canonical, written, written, Written.tokens, Written.tokens, Number.text_canonical]
  | var name => rfl
  | binary op left right ihLeft ihRight =>
      have henclosed (condition : Bool) {w w' : Written} (h : w.tokens = w'.tokens) :
          (w.enclosed condition).tokens = (w'.enclosed condition).tokens := by
        cases condition
        · exact h
        · exact congrArg (fun tokens => Token.opening :: (tokens ++ [.closing])) h
      rw [canonical, written, written, Written.tokens, Written.tokens, precedence_canonical, precedence_canonical,
        henclosed _ ihLeft, henclosed _ ihRight]
  | call callee args ih =>
      have hargs : args.map (fun arg => arg.canonical.written.tokens) = args.map fun arg => arg.written.tokens :=
        List.map_congr_left ih
      rw [canonical, written, written, Written.tokens, Written.tokens, canonicalArgs_eq_map, writtenArgs_eq_map,
        writtenArgs_eq_map, Written.argTokens_eq_map, Written.argTokens_eq_map, List.map_map, List.map_map,
        List.map_map]
      exact congrArg (fun parts => Token.name callee :: .opening :: (commaList parts ++ [.closing])) hargs

/-- Expressions that differ in numbers with the same text only are written with the same tokens. -/
theorem tokens_eq_of_canonical {e e' : Expr} (h : e.canonical = e'.canonical) :
    e.written.tokens = e'.written.tokens := by
  rw [← tokens_written_canonical e, h, tokens_written_canonical e']

/-- The tokens of an expression are read as this expression and as no other. -/
theorem reads_tokens_iff (e e' : Expr) : Reads 0 e.written.tokens e' ↔ e'.canonical = e.canonical := by
  constructor
  · intro h
    exact h.unique (e.reads_written 0 (Nat.zero_le _)) rfl
  · intro h
    rw [← tokens_eq_of_canonical h]
    exact e'.reads_written 0 (Nat.zero_le _)

/-- Tokens with fewer parentheses than the expression is written with are not read as the expression. -/
theorem canonical_ne_of_reads {e e' : Expr} {tokens : List Token} (h : Reads 0 tokens e')
    (hopens : tokens.count .opening < e.written.opens) : e'.canonical ≠ e.canonical := by
  intro hcanonical
  have hle := h.opens_le (Nat.zero_le _)
  rw [writtenAt_of_le (Nat.zero_le _), Written.opens, tokens_eq_of_canonical hcanonical] at hle
  exact Nat.not_lt_of_le hle hopens

end Expr

/-! ## Operands in place -/

namespace Written

/-- A written expression with a gap. -/
inductive Context where
  | here
  | left (op : Operator) (inner : Context) (other : Written)
  | right (op : Operator) (other : Written) (inner : Context)
  | arg (callee : String) (before : List Written) (inner : Context) (after : List Written)
  | parens (inner : Context)

/-- Puts a written expression into the gap. -/
def Context.fill : Context → Written → Written
  | here, w => w
  | left op inner other, w => .binary op (inner.fill w) other
  | right op other inner, w => .binary op other (inner.fill w)
  | arg callee before inner after, w => .call callee (before ++ inner.fill w :: after)
  | parens inner, w => .parens (inner.fill w)

theorem opens_stripped {w : Written} (h : w.isParens = true) : w.stripped.opens + 1 = w.opens := by
  cases w with
  | parens inner => exact (opens_parens inner).symm
  | _ => cases h

theorem stripped_eq_self {w : Written} (h : w.isParens = false) : w.stripped = w := by
  cases w with
  | parens inner => cases h
  | _ => rfl

namespace Context

/-- Fewer parentheses in the gap are fewer parentheses in the whole. -/
theorem opens_fill_lt (c : Context) {w w' : Written} (h : w'.opens < w.opens) :
    (c.fill w').opens < (c.fill w).opens := by
  induction c with
  | here => exact h
  | left op inner other ih => simpa [fill] using ih
  | right op other inner ih => simpa [fill] using ih
  | arg callee before inner after ih => simpa [fill] using ih
  | parens inner ih => simpa [fill] using ih

end Context

end Written

end ShaderLift
