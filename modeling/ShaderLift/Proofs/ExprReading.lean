import ShaderLift.Proofs.ExprGrammar

/-!
# Reading expression text

Expression text is divided into tokens, which are then read by the grammar.  A number that is written in parentheses is
one token, as a numeral is.

* `lex` divides characters into tokens, and `Parses` reads a text.
* `lex_spell`: tokens are found again in their text, if no two words follow each other.
* `Expr.text_eq`: the text of an expression is that of its tokens.
* `Expr.parses_text_iff`: the text of an expression is read as this expression and has exactly the parentheses that
  this takes.
-/

namespace ShaderLift

/-! ## Tokens of a text -/

/-- Whether a name can go on with the character. -/
def isNamePart (c : Char) : Bool :=
  c.isAlphanum || c == '_'

/-- Whether a name can start with the character. -/
def isNameStart (c : Char) : Bool :=
  isNamePart c && !c.isDigit

/-- Whether the characters are a name. -/
def isIdentifier : List Char → Bool
  | [] => false
  | c :: cs => isNameStart c && cs.all isNamePart

/-- The longest start that goes on in a numeral, and the rest. -/
def splitNumeral : Bool → List Char → List Char × List Char
  | _, [] => ([], [])
  | inExponent, c :: cs =>
      if c.isDigit || c == '.' || c == 'e' || inExponent && (c == '+' || c == '-') then
        (c :: (splitNumeral (c == 'e') cs).1, (splitNumeral (c == 'e') cs).2)
      else
        ([], c :: cs)

/-- What starts with an opening parenthesis: a number with a sign, the quotient that has no value, or the parenthesis
itself. -/
def nextOpening : List Char → Token × List Char
  | '-' :: cs =>
      match cs.dropWhile (· != ')') with
      | [] => (.opening, '-' :: cs)
      | _ :: rest => (.literal (String.ofList ('(' :: '-' :: (cs.takeWhile (· != ')') ++ [')']))), rest)
  | '0' :: '.' :: '0' :: '/' :: '0' :: '.' :: '0' :: ')' :: rest => (.literal "(0.0/0.0)", rest)
  | cs => (.opening, cs)

/-- What starts with a character that starts neither a numeral nor a name. -/
def nextSymbol : Char → List Char → Token × List Char
  | '(', cs => nextOpening cs
  | ')', cs => (.closing, cs)
  | ',', cs => (.comma, cs)
  | '+', cs => (.operator .add, cs)
  | '-', cs => (.operator .sub, cs)
  | '*', cs => (.operator .mul, cs)
  | '/', cs => (.operator .div, cs)
  | '<', '=' :: cs => (.operator .le, cs)
  | '<', cs => (.operator .lt, cs)
  | '>', '=' :: cs => (.operator .ge, cs)
  | '>', cs => (.operator .gt, cs)
  | '=', '=' :: cs => (.operator .eq, cs)
  | '!', '=' :: cs => (.operator .ne, cs)
  | c, cs => (.unknown c, cs)

/-- The first token and the characters behind it. -/
def nextToken (c : Char) (cs : List Char) : Token × List Char :=
  if c.isDigit then
    (.literal (String.ofList (c :: (splitNumeral false cs).1)), (splitNumeral false cs).2)
  else if isNameStart c then
    (.name (String.ofList (c :: cs.takeWhile isNamePart)), cs.dropWhile isNamePart)
  else
    nextSymbol c cs

theorem length_splitNumeral (inExponent : Bool) (cs : List Char) :
    (splitNumeral inExponent cs).2.length ≤ cs.length := by
  fun_induction splitNumeral inExponent cs with
  | case1 => simp
  | case2 inExponent c cs hc ih => exact Nat.le_succ_of_le ih
  | case3 inExponent c cs hc => simp

theorem length_nextOpening (cs : List Char) : (nextOpening cs).2.length ≤ cs.length := by
  fun_cases nextOpening cs with
  | case1 cs hdrop => simp
  | case2 cs first rest hdrop =>
      have hlength := List.length_dropWhile_le (· != ')') cs
      rw [hdrop, List.length_cons] at hlength
      exact Nat.le_succ_of_le (Nat.le_of_succ_le hlength)
  | case3 rest =>
      simp only [List.length_cons]
      omega
  | case4 cs _ _ => simp

theorem length_nextToken (c : Char) (cs : List Char) : (nextToken c cs).2.length ≤ cs.length := by
  rw [nextToken]
  split
  · exact length_splitNumeral false cs
  · split
    · exact List.length_dropWhile_le isNamePart cs
    · fun_cases nextSymbol c cs with
      | case1 cs => exact length_nextOpening cs
      | _ => simp

/-- Divides characters into tokens, each as long as possible. -/
def lex : List Char → List Token
  | [] => []
  | c :: cs =>
      if c = ' ' then
        lex cs
      else
        (nextToken c cs).1 :: lex (nextToken c cs).2
termination_by cs => cs.length
decreasing_by
  · simp
  · exact Nat.lt_succ_of_le (length_nextToken c cs)

/-- The text is read as the expression. -/
def Parses (text : String) (e : Expr) : Prop :=
  Reads 0 (lex text.toList) e

/-! ## Tokens found again -/

/-- No word goes on with the first of the characters. -/
def Ends (rest : List Char) : Prop :=
  ∀ c ∈ rest.head?, c = ' ' ∨ c = '(' ∨ c = ')' ∨ c = ','

theorem splitNumeral_append {numeral rest : List Char} {inExponent : Bool}
    (h : isNumeralRun inExponent numeral = true) (hrest : Ends rest) :
    splitNumeral inExponent (numeral ++ rest) = (numeral, rest) := by
  induction numeral generalizing inExponent with
  | nil =>
      cases rest with
      | nil => rfl
      | cons c rest =>
          rw [List.nil_append, splitNumeral, if_neg]
          rcases hrest c rfl with rfl | rfl | rfl | rfl <;> cases inExponent <;> decide
  | cons c numeral ih =>
      rw [isNumeralRun, Bool.and_eq_true] at h
      rw [List.cons_append, splitNumeral, if_pos h.1, ih h.2]

theorem lex_cons {c : Char} (h : c ≠ ' ') (cs : List Char) :
    lex (c :: cs) = (nextToken c cs).1 :: lex (nextToken c cs).2 := by
  rw [lex, if_neg h]

theorem lex_blank (cs : List Char) : lex (' ' :: cs) = lex cs := by
  rw [lex, if_pos rfl]

/-- A character that starts neither a numeral nor a name. -/
theorem lex_symbol {c : Char} (hblank : c ≠ ' ') (hdigit : c.isDigit = false) (hname : isNameStart c = false)
    (cs : List Char) : lex (c :: cs) = (nextSymbol c cs).1 :: lex (nextSymbol c cs).2 := by
  rw [lex_cons hblank, nextToken, hdigit, hname]
  rfl

theorem lex_numeral {numeral rest : List Char} (h : IsNumeral numeral) (hrest : Ends rest) :
    lex (numeral ++ rest) = .literal (String.ofList numeral) :: lex rest := by
  obtain ⟨⟨first, hfirst, hdigit⟩, hrun⟩ := h
  cases numeral with
  | nil => cases hfirst
  | cons c numeral =>
      obtain rfl : c = first := Option.some.inj hfirst
      have hblank : c ≠ ' ' := by
        rintro rfl
        cases hdigit
      have hexponent : (c == 'e') = false := by
        rw [beq_eq_false_iff_ne]
        rintro rfl
        cases hdigit
      rw [isNumeralRun, Bool.and_eq_true, hexponent] at hrun
      rw [List.cons_append, lex_cons hblank, nextToken, if_pos hdigit, splitNumeral_append hrun.2 hrest]

theorem isDigit_of_isNameStart {c : Char} (h : isNameStart c = true) : c.isDigit = false := by
  rw [isNameStart, Bool.and_eq_true, Bool.not_eq_true_eq_eq_false] at h
  exact h.2

theorem lex_name {name : String} {rest : List Char} (h : isIdentifier name.toList = true) (hrest : Ends rest) :
    lex (name.toList ++ rest) = .name name :: lex rest := by
  cases hname : name.toList with
  | nil =>
      rw [hname] at h
      cases h
  | cons c cs =>
      rw [hname, isIdentifier, Bool.and_eq_true, List.all_eq_true] at h
      obtain ⟨hstart, hparts⟩ := h
      have hblank : c ≠ ' ' := by
        rintro rfl
        cases hstart
      have hdigit := isDigit_of_isNameStart hstart
      have hend : rest.takeWhile isNamePart = [] ∧ rest.dropWhile isNamePart = rest := by
        cases rest with
        | nil => exact ⟨rfl, rfl⟩
        | cons c rest => rcases hrest c rfl with rfl | rfl | rfl | rfl <;> exact ⟨rfl, rfl⟩
      rw [List.cons_append, lex_cons hblank, nextToken, hdigit, if_neg (by simp), if_pos hstart,
        List.takeWhile_append_of_pos hparts, List.dropWhile_append_of_pos hparts, hend.1, hend.2, List.append_nil,
        ← hname, String.ofList_toList]

theorem lex_literal (n : Number) {rest : List Char} (hrest : Ends rest) :
    lex (n.text.toList ++ rest) = .literal n.text :: lex rest := by
  rcases n.text_cases with hnumeral | ⟨body, htext, hbody⟩ | htext
  · rw [lex_numeral hnumeral hrest, String.ofList_toList]
  · have hnext : nextSymbol '(' ('-' :: (body ++ [')'] ++ rest)) = (.literal n.text, rest) := by
      rw [nextSymbol, nextOpening, List.append_assoc, List.singleton_append, dropWhile_ne hbody, takeWhile_ne hbody,
        ← htext, String.ofList_toList]
    rw [htext, List.cons_append, List.cons_append, lex_symbol (by decide) (by decide) (by decide), hnext]
  · rw [htext]
    exact lex_symbol (by decide) (by decide) (by decide) _

theorem lex_operator (op : Operator) (rest : List Char) :
    lex (op.symbol.toList ++ ' ' :: rest) = .operator op :: lex rest := by
  cases op <;> exact (lex_symbol (by decide) (by decide) (by decide) _).trans (congrArg _ (lex_blank rest))

/-! ## Text of tokens -/

namespace Token

/-- How a token is written. -/
def text : Token → String
  | name text => text
  | literal text => text
  | operator op => " " ++ op.symbol ++ " "
  | opening => "("
  | closing => ")"
  | comma => ", "
  | unknown c => c.toString

theorem toList_text_operator (op : Operator) :
    (operator op).text.toList = ' ' :: (op.symbol.toList ++ [' ']) := by
  simp [text]

/-- The tokens that must not touch each other. -/
def isWord : Token → Bool
  | name _ | literal _ => true
  | _ => false

/-- The tokens that lexing gives back: names that are identifiers, literals that are numbers, and all symbols. -/
def Lexical : Token → Prop
  | name text => isIdentifier text.toList = true
  | literal text => ∃ n : Number, text = n.text
  | unknown _ => False
  | _ => True

/-- No two words follow each other. -/
def Apart (tokens : List Token) : Prop :=
  tokens.IsChain fun first second => first.isWord = false ∨ second.isWord = false

theorem Apart.append_cons {before after : List Token} {token : Token} (hbefore : Apart before) (hafter : Apart after)
    (htoken : token.isWord = false) : Apart (before ++ token :: after) := by
  refine List.isChain_append.mpr ⟨hbefore, List.isChain_cons.mpr ⟨fun _ _ => .inl htoken, hafter⟩, ?_⟩
  intro last _ first hfirst
  obtain rfl : token = first := Option.some.inj hfirst
  exact .inr htoken

end Token

/-- The characters of tokens. -/
def spell (tokens : List Token) : List Char :=
  tokens.flatMap fun token => token.text.toList

theorem spell_cons (token : Token) (tokens : List Token) :
    spell (token :: tokens) = token.text.toList ++ spell tokens :=
  List.flatMap_cons

theorem spell_append (before after : List Token) : spell (before ++ after) = spell before ++ spell after :=
  List.flatMap_append

/-- A word ends in front of the text of the next token. -/
theorem ends_spell {word : Token} {tokens : List Token} (hword : word.isWord = true)
    (hlexical : ∀ token ∈ tokens, token.Lexical) (hapart : Token.Apart (word :: tokens)) : Ends (spell tokens) := by
  cases tokens with
  | nil => simp [Ends, spell]
  | cons token tokens =>
      have hnext : token.isWord = false :=
        ((List.isChain_cons.mp hapart).1 token rfl).resolve_left (by simp [hword])
      rw [spell_cons]
      cases token with
      | name text => cases hnext
      | literal text => cases hnext
      | unknown c => exact (hlexical _ List.mem_cons_self).elim
      | _ => simp [Ends, Token.text]

/-- A parenthesis that no number starts with. -/
theorem nextOpening_eq {cs : List Char} (hsign : ∀ rest, cs ≠ '-' :: rest)
    (hquotient : ∀ rest, cs ≠ "0.0/0.0)".toList ++ rest) : nextOpening cs = (.opening, cs) := by
  fun_cases nextOpening cs with
  | case1 cs _ => exact absurd rfl (hsign cs)
  | case2 cs _ _ _ => exact absurd rfl (hsign cs)
  | case3 rest => exact absurd rfl (hquotient rest)
  | case4 => rfl

/-- No numeral is followed by a quotient without blanks. -/
theorem numeral_append_ne {numeral rest cs : List Char} (h : IsNumeral numeral) (hrest : Ends rest) :
    numeral ++ rest ≠ "0.0/0.0)".toList ++ cs := by
  intro heq
  have hsplit := splitNumeral_append h.2 hrest
  have hquotient : splitNumeral false ("0.0/0.0)".toList ++ cs) = ("0.0".toList, "/0.0)".toList ++ cs) := rfl
  rw [heq, hquotient, Prod.mk.injEq] at hsplit
  have hslash := hrest '/' (by rw [← hsplit.2]; rfl)
  exact absurd hslash (by decide)

/-- A parenthesis in front of tokens is a token of its own. -/
theorem nextOpening_spell {tokens : List Token} (hlexical : ∀ token ∈ tokens, token.Lexical)
    (hapart : Token.Apart tokens) : nextOpening (spell tokens) = (.opening, spell tokens) := by
  -- It is enough to look at the first character, except in front of a numeral.
  have hhead {c : Char} {cs : List Char} (hsign : c ≠ '-') (hzero : c ≠ '0') :
      nextOpening (c :: cs) = (.opening, c :: cs) :=
    nextOpening_eq (fun _ heq => hsign (List.cons.inj heq).1) (fun _ heq => hzero (List.cons.inj heq).1)
  cases tokens with
  | nil => rfl
  | cons token tokens =>
      obtain ⟨htoken, htokens⟩ := List.forall_mem_cons.mp hlexical
      rw [spell_cons]
      cases token with
      | name text =>
          rw [Token.text]
          change isIdentifier text.toList = true at htoken
          cases htext : text.toList with
          | nil =>
              rw [htext] at htoken
              cases htoken
          | cons c cs =>
              rw [htext, isIdentifier, Bool.and_eq_true] at htoken
              refine hhead ?_ ?_ <;> rintro rfl <;> exact absurd htoken.1 (by decide)
      | literal text =>
          obtain ⟨n, rfl⟩ := htoken
          have hends := ends_spell rfl htokens hapart
          rw [Token.text]
          rcases n.text_cases with hnumeral | ⟨body, htext, -⟩ | htext
          · refine nextOpening_eq (fun rest heq => ?_) (fun _ => numeral_append_ne hnumeral hends)
            obtain ⟨first, hfirst, hdigit⟩ := hnumeral.1
            have hminus : (n.text.toList ++ spell tokens).head? = some first := by
              rw [List.head?_append, Option.mem_def.mp hfirst, Option.some_or]
            rw [heq] at hminus
            obtain rfl : '-' = first := Option.some.inj hminus
            cases hdigit
          · rw [htext]
            exact hhead (by decide) (by decide)
          · rw [htext]
            exact hhead (by decide) (by decide)
      | operator op =>
          rw [Token.toList_text_operator]
          exact hhead (by decide) (by decide)
      | opening => exact hhead (c := '(') (by decide) (by decide)
      | closing => exact hhead (c := ')') (by decide) (by decide)
      | comma => exact hhead (c := ',') (by decide) (by decide)
      | unknown c => exact htoken.elim

/-- Tokens are found again in their text. -/
theorem lex_spell {tokens : List Token} (hlexical : ∀ token ∈ tokens, token.Lexical) (hapart : Token.Apart tokens) :
    lex (spell tokens) = tokens := by
  induction tokens with
  | nil => rw [spell, List.flatMap_nil, lex]
  | cons token tokens ih =>
      obtain ⟨htoken, htokens⟩ := List.forall_mem_cons.mp hlexical
      have hrest : Token.Apart tokens := (List.isChain_cons.mp hapart).2
      have hends (hword : token.isWord = true) : Ends (spell tokens) := ends_spell hword htokens hapart
      rw [spell_cons]
      cases token with
      | name text => rw [Token.text, lex_name htoken (hends rfl), ih htokens hrest]
      | literal text =>
          obtain ⟨n, rfl⟩ := htoken
          rw [Token.text, lex_literal n (hends rfl), ih htokens hrest]
      | operator op =>
          rw [Token.toList_text_operator, List.cons_append, List.append_assoc, List.singleton_append, lex_blank,
            lex_operator, ih htokens hrest]
      | opening =>
          have hsymbol : nextSymbol '(' (spell tokens) = (.opening, spell tokens) :=
            nextOpening_spell htokens hrest
          have hlex := lex_symbol (c := '(') (by decide) (by decide) (by decide) (spell tokens)
          rw [hsymbol, ih htokens hrest] at hlex
          exact hlex
      | closing =>
          have hlex := lex_symbol (c := ')') (by decide) (by decide) (by decide) (spell tokens)
          rw [nextSymbol, ih htokens hrest] at hlex
          exact hlex
      | comma =>
          have hlex := lex_symbol (c := ',') (by decide) (by decide) (by decide) (' ' :: spell tokens)
          rw [nextSymbol, lex_blank, ih htokens hrest] at hlex
          exact hlex
      | unknown c => exact htoken.elim

/-! ## Text of written expressions -/

theorem mem_commaList_iff {token : Token} (h : token ≠ .comma) (parts : List (List Token)) :
    token ∈ commaList parts ↔ ∃ part ∈ parts, token ∈ part := by
  fun_induction commaList parts with
  | case1 => simp
  | case2 part => simp
  | case3 part next rest ih =>
      rw [List.mem_append, List.mem_cons, ih, or_iff_right h]
      simp

theorem apart_commaList {parts : List (List Token)} (h : ∀ part ∈ parts, Token.Apart part) :
    Token.Apart (commaList parts) := by
  fun_induction commaList parts with
  | case1 => exact .nil
  | case2 part => exact h part List.mem_cons_self
  | case3 part next rest ih =>
      exact (h part List.mem_cons_self).append_cons (ih fun part hpart => h part (List.mem_cons_of_mem _ hpart)) rfl

namespace Written

/-- The text of a written expression. -/
def text (w : Written) : String :=
  String.ofList (spell w.tokens)

theorem apart_tokens (w : Written) : Token.Apart w.tokens := by
  have henclose {before tokens : List Token} (hbefore : Token.Apart before) (h : Token.Apart tokens) :
      Token.Apart (before ++ .opening :: (tokens ++ [.closing])) :=
    hbefore.append_cons (h.append_cons .nil rfl) rfl
  induction w using Written.induction with
  | number value => exact .singleton _
  | var name => exact .singleton _
  | binary op left right ihLeft ihRight => exact ihLeft.append_cons ihRight rfl
  | call callee args ih =>
      have hargs : Token.Apart (commaList (argTokens args)) := by
        refine apart_commaList fun part hpart => ?_
        rw [argTokens_eq_map] at hpart
        obtain ⟨arg, harg, rfl⟩ := List.mem_map.mp hpart
        exact ih arg harg
      exact henclose (.singleton (Token.name callee)) hargs
  | parens inner ih => exact henclose .nil ih

/-- All tokens but names are found again by lexing. -/
theorem lexical_of_mem (w : Written) {token : Token} (h : token ∈ w.tokens) :
    (∃ name, token = .name name) ∨ token.Lexical := by
  induction w using Written.induction with
  | number value =>
      obtain rfl := List.mem_singleton.mp h
      exact .inr ⟨value, rfl⟩
  | var name => exact .inl ⟨name, List.mem_singleton.mp h⟩
  | binary op left right ihLeft ihRight =>
      rw [tokens, List.mem_append, List.mem_cons] at h
      rcases h with hleft | rfl | hright
      · exact ihLeft hleft
      · exact .inr trivial
      · exact ihRight hright
  | call callee args ih =>
      rw [tokens, argTokens_eq_map, List.mem_cons, List.mem_cons, List.mem_append, List.mem_singleton] at h
      rcases h with rfl | rfl | hargs | rfl
      · exact .inl ⟨callee, rfl⟩
      · exact .inr trivial
      · by_cases hcomma : token = .comma
        · rw [hcomma]
          exact .inr trivial
        · obtain ⟨part, hpart, htoken⟩ := (mem_commaList_iff hcomma _).mp hargs
          obtain ⟨arg, harg, rfl⟩ := List.mem_map.mp hpart
          exact ih arg harg htoken
      · exact .inr trivial
  | parens inner ih =>
      rw [tokens, List.mem_cons, List.mem_append, List.mem_singleton] at h
      rcases h with rfl | hinner | rfl
      · exact .inr trivial
      · exact ih hinner
      · exact .inr trivial

/-- The tokens of a written expression with identifiers as names are found again in its text. -/
theorem lex_text {w : Written} (h : ∀ name, .name name ∈ w.tokens → isIdentifier name.toList = true) :
    lex w.text.toList = w.tokens := by
  rw [text, String.toList_ofList]
  refine lex_spell (fun token htoken => ?_) w.apart_tokens
  rcases w.lexical_of_mem htoken with ⟨name, rfl⟩ | hlexical
  · exact h name htoken
  · exact hlexical

end Written

namespace Expr

mutual

/-- The variables and functions of an expression. -/
def mentions : Expr → List String
  | number _ => []
  | var name => [name]
  | binary _ left right => left.mentions ++ right.mentions
  | call callee args => callee :: argMentions args

/-- The variables and functions of arguments. -/
def argMentions : List Expr → List String
  | [] => []
  | arg :: rest => arg.mentions ++ argMentions rest

end

theorem argMentions_eq_flatMap (args : List Expr) : argMentions args = args.flatMap mentions := by
  induction args with
  | nil => rfl
  | cons arg args ih => rw [argMentions, List.flatMap_cons, ih]

theorem mem_mentions {e : Expr} {name : String} (h : .name name ∈ e.written.tokens) : name ∈ e.mentions := by
  have henclosed {condition : Bool} {w : Written} (h : .name name ∈ (w.enclosed condition).tokens) :
      .name name ∈ w.tokens := by
    cases condition
    · exact h
    · simpa [Written.enclosed, Written.tokens] using h
  induction e using Expr.induction with
  | number value => simp [written, Written.tokens] at h
  | var other => simpa [written, Written.tokens, mentions] using h
  | binary op left right ihLeft ihRight =>
      rw [written, Written.tokens, List.mem_append, List.mem_cons] at h
      rw [mentions, List.mem_append]
      rcases h with hleft | hop | hright
      · exact .inl (ihLeft (henclosed hleft))
      · cases hop
      · exact .inr (ihRight (henclosed hright))
  | call callee args ih =>
      rw [written, Written.tokens, Written.argTokens_eq_map, writtenArgs_eq_map, List.mem_cons, List.mem_cons,
        List.mem_append, List.mem_singleton] at h
      rw [mentions, argMentions_eq_flatMap, List.mem_cons, List.mem_flatMap]
      rcases h with hcallee | hopening | hargs | hclosing
      · exact .inl (Token.name.inj hcallee)
      · cases hopening
      · obtain ⟨part, hpart, htoken⟩ := (mem_commaList_iff (by simp) _).mp hargs
        rw [List.map_map] at hpart
        obtain ⟨arg, harg, rfl⟩ := List.mem_map.mp hpart
        exact .inr ⟨arg, harg, ih arg harg htoken⟩
      · cases hclosing

theorem argsText_eq : ∀ {args : List Expr}, (∀ arg ∈ args, arg.text = arg.written.text) →
    (argsText args).toList = spell (commaList (args.map fun arg => arg.written.tokens))
  | [], _ => rfl
  | [arg], h => by
      rw [argsText, h arg List.mem_cons_self, Written.text, String.toList_ofList]
      rfl
  | arg :: next :: rest, h => by
      have hrest := argsText_eq fun arg harg => h arg (List.mem_cons_of_mem _ harg)
      have hcomma : commaList ((arg :: next :: rest).map fun arg => arg.written.tokens) =
          arg.written.tokens ++ .comma :: commaList ((next :: rest).map fun arg => arg.written.tokens) := rfl
      rw [argsText, h arg List.mem_cons_self, String.toList_append, String.toList_append, hrest, hcomma, Written.text,
        String.toList_ofList, spell_append, spell_cons, List.append_assoc]
      · rfl
      · simp

/-- The text of an expression is that of its tokens. -/
theorem text_eq (e : Expr) : e.text = e.written.text := by
  have henclosed (condition : Bool) (w : Written) :
      (parenthesized condition w.text).toList = spell (w.enclosed condition).tokens := by
    cases condition
    · simp [parenthesized, Written.enclosed, Written.text]
    · simp [parenthesized, Written.enclosed, Written.text, Written.tokens, spell, Token.text]
  induction e using Expr.induction with
  | number value => simp [text, written, Written.text, Written.tokens, spell, Token.text]
  | var name => simp [text, written, Written.text, Written.tokens, spell, Token.text]
  | binary op left right ihLeft ihRight =>
      have hright : decide (right.precedence ≤ op.precedence) = decide (right.precedence < op.precedence + 1) :=
        decide_eq_decide.mpr Nat.lt_succ_iff.symm
      rw [← String.toList_inj, text, ihLeft, ihRight, hright]
      simp only [String.toList_append, henclosed]
      simp [written, Written.text, Written.tokens, spell_append, spell_cons, Token.toList_text_operator]
  | call callee args ih =>
      rw [← String.toList_inj, text]
      simp only [String.toList_append, argsText_eq ih]
      simp [written, Written.text, Written.tokens, Written.argTokens_eq_map, writtenArgs_eq_map, spell_append,
        spell_cons, Token.text, Function.comp_def]
      rfl

/-- Lexing the text of an expression with identifiers as names gives its tokens. -/
theorem lex_text {e : Expr} (hnames : ∀ name ∈ e.mentions, isIdentifier name.toList = true) :
    lex e.text.toList = e.written.tokens := by
  rw [text_eq]
  exact Written.lex_text fun name hname => hnames name (mem_mentions hname)

end Expr

/-! ## Reading back -/

namespace Written

/-- Names in the whole come from the gap or from around it. -/
theorem Context.name_mem_fill (c : Context) {w w' : Written} {name : String}
    (h : .name name ∈ w'.tokens → .name name ∈ w.tokens) :
    .name name ∈ (c.fill w').tokens → .name name ∈ (c.fill w).tokens := by
  induction c with
  | here => exact h
  | left op inner other ih =>
      simp only [fill, tokens, List.mem_append]
      exact Or.imp_left ih
  | right op other inner ih =>
      simp only [fill, tokens, List.mem_append, List.mem_cons]
      exact Or.imp_right (Or.imp_right ih)
  | arg callee before inner after ih =>
      simp only [fill, tokens, argTokens_eq_map, List.mem_cons, List.mem_append,
        mem_commaList_iff (show Token.name name ≠ .comma by simp), List.map_append, List.map_cons, or_and_right,
        exists_or, exists_eq_left]
      exact Or.imp_right (Or.imp_right (Or.imp_left (Or.imp_right (Or.imp_left ih))))
  | parens inner ih =>
      simp only [fill, tokens, List.mem_append, List.mem_cons]
      exact Or.imp_right (Or.imp_left ih)

theorem mem_tokens_stripped {w : Written} {token : Token} (h : token ∈ w.stripped.tokens) : token ∈ w.tokens := by
  cases w with
  | parens inner => exact List.mem_cons_of_mem _ (List.mem_append_left _ h)
  | _ => exact h

end Written

namespace Expr

/-- Parentheses in the text of an expression are left out only at the cost of reading another one. -/
theorem isParens_iff {e : Expr} (hnames : ∀ name ∈ e.mentions, isIdentifier name.toList = true)
    {c : Written.Context} {part : Written} (hpart : e.written = c.fill part) :
    part.isParens = true ↔ ∃ e', Parses (c.fill part.stripped).text e' ∧ e'.canonical ≠ e.canonical := by
  have hlex : lex (c.fill part.stripped).text.toList = (c.fill part.stripped).tokens := by
    refine Written.lex_text fun name hname => hnames name (mem_mentions ?_)
    rw [hpart]
    exact c.name_mem_fill Written.mem_tokens_stripped hname
  simp only [Parses, hlex]
  cases hparens : part.isParens with
  | true =>
      obtain ⟨e', he'⟩ := (c.fill part.stripped).exists_reads
      refine ⟨fun _ => ⟨e', he', canonical_ne_of_reads he' ?_⟩, fun _ => rfl⟩
      rw [hpart]
      exact c.opens_fill_lt (Nat.lt_of_succ_le (Written.opens_stripped hparens).le)
  | false =>
      refine ⟨fun h => (Bool.false_ne_true h).elim, ?_⟩
      rintro ⟨e', he', hne⟩
      rw [Written.stripped_eq_self hparens, ← hpart] at he'
      exact (hne ((e.reads_tokens_iff e').mp he')).elim

/-- The text of an expression whose names are identifiers is read as this expression and as no other, up to numbers
that have the same text.  A part of it, such as an operand, stands in parentheses if and only if the text without this
pair is read as a different expression. -/
theorem parses_text_iff (e : Expr) (hnames : ∀ name ∈ e.mentions, isIdentifier name.toList = true) :
    (∀ e', Parses e.text e' ↔ e'.canonical = e.canonical) ∧ e.text = e.written.text ∧
      ∀ (c : Written.Context) (part : Written), e.written = c.fill part →
        (part.isParens = true ↔
          ∃ e', Parses (c.fill part.stripped).text e' ∧ e'.canonical ≠ e.canonical) := by
  refine ⟨?_, e.text_eq, ?_⟩
  · intro e'
    rw [Parses, lex_text hnames]
    exact e.reads_tokens_iff e'
  · intro c part hpart
    exact isParens_iff hnames hpart

/-- Differences group to the left, so a difference on the right stands in parentheses. -/
theorem parses_text_iff_difference :
    (∀ name ∈ (binary .sub (var "a") (binary .sub (var "b") (call "f" [number (.int (-1))]))).mentions,
        isIdentifier name.toList = true) ∧
      Parses "a - (b - f((-1)))" (binary .sub (var "a") (binary .sub (var "b") (call "f" [number (.int (-1))]))) ∧
      ∃ e', Parses "a - b - f((-1))" e' ∧
        e'.canonical ≠ (binary .sub (var "a") (binary .sub (var "b") (call "f" [number (.int (-1))]))).canonical := by
  have hnames : ∀ name ∈ (binary .sub (var "a") (binary .sub (var "b") (call "f" [number (.int (-1))]))).mentions,
      isIdentifier name.toList = true := by
    decide
  obtain ⟨hreads, -, hparens⟩ := parses_text_iff _ hnames
  refine ⟨hnames, (hreads _).mpr rfl, ?_⟩
  exact (hparens (.right .sub (.var "a") .here)
    (.parens (.binary .sub (.var "b") (.call "f" [.number (.int (-1))]))) rfl).mp rfl

end Expr

end ShaderLift
