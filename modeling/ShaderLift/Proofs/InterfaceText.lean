import ShaderLift.Interface
import ShaderLift.Proofs.ExprReading
import ShaderLift.Proofs.TypeHandles

/-!
# Reading declarations back

The declarations of an interface can be read back line by line and word by word, so that they tell which variables the
interface has.  A line is a list of words with single blanks between them: the layout qualifier, if there is one, takes
three of them, and the keyword, the type and the name with its semicolon one each.

* `InterfaceVar.words`, `InterfaceVar.text_eq_words`: the words of a declaration.
* `InterfaceVar.ofWords?`, `Interface.read?`: the declaration with given words, the variables that a text declares.
* `Interface.text_determines_vars`: reading inverts writing if all names are identifiers.
-/

namespace ShaderLift

/-! ## Words -/

/-- The words of the layout qualifier for a location. -/
def layoutWords : Option Nat → List String
  | some location => ["layout(location", "=", toString location ++ ")"]
  | none => []

/-- The words in front of the type of a declaration. -/
def Channel.words : Channel → List String
  | input location => layoutWords location ++ ["in"]
  | output location => layoutWords location ++ ["out"]
  | uniform => ["uniform"]

/-- The words of a declaration. -/
def InterfaceVar.words (types : TypeTable) (v : InterfaceVar) : List String :=
  v.channel.words ++ [types.name v.type, v.name ++ ";"]

theorem Channel.words_ne_nil (channel : Channel) : channel.words ≠ [] := by
  cases channel <;> simp [words]

theorem Channel.text_eq_words (channel : Channel) : channel.text = " ".intercalate channel.words := by
  have hlayout (location : Option Nat) (keyword : String) :
      layoutText location ++ keyword = " ".intercalate (layoutWords location ++ [keyword]) := by
    cases location with
    | none =>
        change "" ++ keyword = " ".intercalate [keyword]
        rw [String.empty_append, String.intercalate_singleton]
    | some location =>
        change "layout(location = " ++ toString location ++ ") " ++ keyword =
          " ".intercalate ["layout(location", "=", toString location ++ ")", keyword]
        rw [← String.toList_inj]
        simp
  cases channel with
  | input location => exact hlayout location "in"
  | output location => exact hlayout location "out"
  | uniform => exact String.intercalate_singleton.symm

/-- A declaration consists of its words with single blanks between them. -/
theorem InterfaceVar.text_eq_words (types : TypeTable) (v : InterfaceVar) :
    v.text types = " ".intercalate (v.words types) := by
  rw [words, String.intercalate_append_of_ne_nil v.channel.words_ne_nil (by simp), ← v.channel.text_eq_words, text,
    String.intercalate_cons_cons, String.intercalate_singleton]
  simp only [String.append_assoc]

/-! ## Reading -/

/-- The word without its last character, if that is the given one. -/
def withoutLast? (last : Char) (word : String) : Option String :=
  if word.toList.getLast? = some last then some (String.ofList word.toList.dropLast) else none

/-- The number that a word of digits denotes. -/
def numeral? (word : String) : Option Nat :=
  if word.toList ≠ [] ∧ word.toList.all Char.isDigit then some (Nat.ofDigitChars 10 word.toList 0) else none

/-- The channel with the given keyword.  A uniform has no location. -/
def Channel.ofKeyword? : Option Nat → String → Option Channel
  | location, "in" => some (.input location)
  | location, "out" => some (.output location)
  | none, "uniform" => some .uniform
  | _, _ => none

namespace InterfaceVar

/-- The declaration with the given location, keyword, type and name with its semicolon. -/
def ofParts? (types : TypeTable) (location : Option Nat) (keyword type name : String) : Option InterfaceVar := do
  let channel ← Channel.ofKeyword? location keyword
  let type ← types.find? type
  let name ← withoutLast? ';' name
  pure ⟨channel, type, name⟩

/-- The declaration with the given words. -/
def ofWords? (types : TypeTable) : List String → Option InterfaceVar
  | ["layout(location", "=", location, keyword, type, name] => do
      let location ← withoutLast? ')' location
      let location ← numeral? location
      ofParts? types (some location) keyword type name
  | [keyword, type, name] => ofParts? types none keyword type name
  | _ => none

end InterfaceVar

/-- The variables that a text declares, one on each line. -/
def Interface.read? (types : TypeTable) (text : String) : Option (List InterfaceVar) :=
  if text = "" then
    some []
  else
    (text.toList.splitOn '\n').mapM fun line =>
      InterfaceVar.ofWords? types ((line.splitOn ' ').map String.ofList)

/-! ## Reading back what was written -/

theorem withoutLast?_append (last : Char) (word : String) :
    withoutLast? last (word ++ String.singleton last) = some word := by
  simp [withoutLast?]

theorem toList_toString (n : Nat) : (toString n).toList = Nat.toDigits 10 n := by
  rw [Nat.toString_eq_repr, Nat.repr_eq_ofList_toDigits, String.toList_ofList]

theorem numeral?_toString (n : Nat) : numeral? (toString n) = some n := by
  have hne : Nat.toDigits 10 n ≠ [] := List.ne_nil_of_length_pos Nat.length_toDigits_pos
  have hdigits : (Nat.toDigits 10 n).all Char.isDigit = true :=
    List.all_eq_true.mpr fun c hmem => isDigit_of_mem_toDigits hmem
  rw [numeral?, toList_toString, if_pos ⟨hne, hdigits⟩, Nat.ofDigitChars_ten_toDigits]

theorem InterfaceVar.ofWords?_words {types : TypeTable} {v : InterfaceVar}
    (h : types.find? (types.name v.type) = some v.type) : ofWords? types (v.words types) = some v := by
  obtain ⟨channel, type, name⟩ := v
  have hname : withoutLast? ';' (name ++ ";") = some name := withoutLast?_append ';' name
  have hparts (location : Option Nat) (keyword : String)
      (hkeyword : Channel.ofKeyword? location keyword = some channel) :
      ofParts? types location keyword (types.name type) (name ++ ";") = some ⟨channel, type, name⟩ := by
    simp only [ofParts?, hkeyword, h, hname, Option.bind_eq_bind, Option.bind_some, Option.pure_def]
  have hlayout (location : Nat) (keyword : String)
      (hkeyword : Channel.ofKeyword? (some location) keyword = some channel) :
      ofWords? types (layoutWords (some location) ++ [keyword] ++ [types.name type, name ++ ";"]) =
        some ⟨channel, type, name⟩ := by
    have hlocation : withoutLast? ')' (toString location ++ ")") = some (toString location) :=
      withoutLast?_append ')' (toString location)
    change ((withoutLast? ')' (toString location ++ ")")).bind fun location => (numeral? location).bind fun location =>
      ofParts? types (some location) keyword (types.name type) (name ++ ";")) = _
    rw [hlocation, Option.bind_some, numeral?_toString, Option.bind_some]
    exact hparts (some location) keyword hkeyword
  cases channel with
  | input location =>
      cases location with
      | none => exact hparts none "in" rfl
      | some location => exact hlayout location "in" rfl
  | output location =>
      cases location with
      | none => exact hparts none "out" rfl
      | some location => exact hlayout location "out" rfl
  | uniform => exact hparts none "uniform" rfl

/-! ## Words without separators -/

/-- Whether a character separates words or lines. -/
def isSeparator (c : Char) : Bool :=
  c == ' ' || c == '\n'

/-- No separator stands in the word. -/
def Unbroken (word : String) : Prop :=
  ∀ c ∈ word.toList, isSeparator c = false

instance (word : String) : Decidable (Unbroken word) :=
  List.decidableBAll _ word.toList

theorem Unbroken.append {first second : String} (hfirst : Unbroken first) (hsecond : Unbroken second) :
    Unbroken (first ++ second) := by
  intro c hmem
  rw [String.toList_append] at hmem
  rcases List.mem_append.mp hmem with hmem | hmem
  · exact hfirst c hmem
  · exact hsecond c hmem

/-- Where no separator has a property, the characters that have it are no separators. -/
theorem isSeparator_eq_false {p : Char → Bool} (hblank : p ' ' = false) (hnewline : p '\n' = false) {c : Char}
    (h : p c = true) : isSeparator c = false := by
  rw [isSeparator, Bool.or_eq_false_iff, beq_eq_false_iff_ne, beq_eq_false_iff_ne]
  constructor
  · rintro rfl
    rw [hblank] at h
    cases h
  · rintro rfl
    rw [hnewline] at h
    cases h

theorem unbroken_of_isIdentifier {word : String} (h : isIdentifier word.toList = true) : Unbroken word := by
  intro c hmem
  apply isSeparator_eq_false (p := isNamePart) (by decide) (by decide)
  cases hword : word.toList with
  | nil =>
      rw [hword] at hmem
      exact absurd hmem List.not_mem_nil
  | cons first rest =>
      rw [hword] at h hmem
      rw [isIdentifier, Bool.and_eq_true, isNameStart, Bool.and_eq_true, List.all_eq_true] at h
      obtain ⟨⟨hfirst, -⟩, hrest⟩ := h
      rcases List.mem_cons.mp hmem with rfl | hmem
      · exact hfirst
      · exact hrest c hmem

theorem unbroken_toString (n : Nat) : Unbroken (toString n) := by
  intro c hmem
  rw [toList_toString] at hmem
  exact isSeparator_eq_false (p := Char.isDigit) (by decide) (by decide) (isDigit_of_mem_toDigits hmem)

theorem Channel.unbroken_of_mem_words {channel : Channel} {word : String} (h : word ∈ channel.words) :
    Unbroken word := by
  have hlayout {location : Option Nat} (hmem : word ∈ layoutWords location) : Unbroken word := by
    cases location with
    | none => exact absurd hmem List.not_mem_nil
    | some location =>
        have hnumeral : Unbroken (toString location ++ ")") := (unbroken_toString location).append (by decide)
        rcases List.mem_cons.mp hmem with rfl | hmem
        · decide
        rcases List.mem_cons.mp hmem with rfl | hmem
        · decide
        rwa [List.mem_singleton.mp hmem]
  have hkeyword {location : Option Nat} {keyword : String} (hunbroken : Unbroken keyword)
      (hmem : word ∈ layoutWords location ++ [keyword]) : Unbroken word := by
    rcases List.mem_append.mp hmem with hmem | hmem
    · exact hlayout hmem
    · rwa [List.mem_singleton.mp hmem]
  cases channel with
  | input location => exact hkeyword (by decide) h
  | output location => exact hkeyword (by decide) h
  | uniform =>
      rw [List.mem_singleton.mp h]
      decide

/-! ## Splitting a text -/

theorem not_mem_intercalate {c separator : Char} (hc : c ≠ separator) {words : List (List Char)}
    (h : ∀ word ∈ words, c ∉ word) : c ∉ [separator].intercalate words := by
  induction words with
  | nil => exact List.not_mem_nil
  | cons first rest ih =>
      have hrest := ih fun word hmem => h word (List.mem_cons_of_mem _ hmem)
      have hfirst := h first List.mem_cons_self
      cases rest with
      | nil => simpa [List.intercalate] using hfirst
      | cons second rest =>
          rw [List.intercalate_cons_cons]
          simp [hfirst, hc, hrest]

namespace Interface

/-- All names are identifiers, and the types are in the table. -/
def Declarable (types : TypeTable) (i : Interface) : Prop :=
  ∀ v ∈ i.vars, isIdentifier v.name.toList = true ∧ types.contains v.type = true ∧
    isIdentifier (types.name v.type).toList = true

instance (types : TypeTable) (i : Interface) : Decidable (i.Declarable types) :=
  inferInstanceAs (Decidable (∀ v ∈ i.vars, isIdentifier v.name.toList = true ∧ types.contains v.type = true ∧
    isIdentifier (types.name v.type).toList = true))

end Interface

namespace InterfaceVar

variable {types : TypeTable} {v : InterfaceVar}

theorem unbroken_of_mem_words (hname : isIdentifier v.name.toList = true)
    (htype : isIdentifier (types.name v.type).toList = true) {word : String} (h : word ∈ v.words types) :
    Unbroken word := by
  rcases List.mem_append.mp h with hmem | hmem
  · exact Channel.unbroken_of_mem_words hmem
  rcases List.mem_cons.mp hmem with rfl | hmem
  · exact unbroken_of_isIdentifier htype
  · rw [List.mem_singleton.mp hmem]
    exact (unbroken_of_isIdentifier hname).append (by decide)

/-- The line of a declaration has no newline, and splitting it at its blanks gives its words. -/
theorem splitOn_text (hname : isIdentifier v.name.toList = true)
    (htype : isIdentifier (types.name v.type).toList = true) :
    '\n' ∉ (v.text types).toList ∧ ((v.text types).toList.splitOn ' ').map String.ofList = v.words types := by
  have hlist : (v.text types).toList = [' '].intercalate ((v.words types).map String.toList) := by
    rw [text_eq_words, String.toList_intercalate]
    rfl
  have hunbroken {c : Char} (hc : isSeparator c = true) : ∀ word ∈ (v.words types).map String.toList, c ∉ word := by
    intro word hmem hin
    obtain ⟨text, htext, rfl⟩ := List.mem_map.mp hmem
    rw [unbroken_of_mem_words hname htype htext c hin] at hc
    cases hc
  have hne : (v.words types).map String.toList ≠ [] := by simp [words]
  rw [hlist]
  refine ⟨not_mem_intercalate (by decide) (hunbroken (by decide)), ?_⟩
  rw [List.splitOn_intercalate ' ' (hunbroken (by decide)) hne, List.map_map]
  simp [Function.comp_def]

/-- A declaration is read back from its line. -/
theorem ofWords?_text (htypes : types.Consistent) (hname : isIdentifier v.name.toList = true)
    (hcontains : types.contains v.type = true) (htype : isIdentifier (types.name v.type).toList = true) :
    ofWords? types (((v.text types).toList.splitOn ' ').map String.ofList) = some v := by
  rw [(splitOn_text hname htype).2]
  exact ofWords?_words ((htypes.find?_iff _ _).mpr ⟨hcontains, rfl⟩)

end InterfaceVar

namespace Interface

variable {types : TypeTable} {i : Interface}

/-- Only the interface without variables has no text. -/
theorem text_eq_empty_iff : i.text types = "" ↔ i.vars = [] := by
  unfold text
  cases i.vars with
  | nil => simp
  | cons v rest =>
      have hline : v.text types ≠ "" := by
        simp [InterfaceVar.text]
      cases rest with
      | nil => simpa using hline
      | cons second rest => simp [String.intercalate_cons_cons]

/-- Splitting the text of an interface at its newlines gives the declarations. -/
theorem splitOn_text (h : i.Declarable types) (hne : i.vars ≠ []) :
    (i.text types).toList.splitOn '\n' = i.vars.map fun v => (v.text types).toList := by
  have hlist : (i.text types).toList = ['\n'].intercalate (i.vars.map fun v => (v.text types).toList) := by
    rw [Interface.text, String.toList_intercalate, List.map_map]
    rfl
  rw [hlist]
  refine List.splitOn_intercalate '\n' ?_ (by simpa using hne)
  intro line hmem
  obtain ⟨v, hv, rfl⟩ := List.mem_map.mp hmem
  obtain ⟨hname, -, htype⟩ := h v hv
  exact (InterfaceVar.splitOn_text hname htype).1

theorem mapM_map_eq_some {α β : Type} {f : α → Option β} {g : β → α} {xs : List β}
    (h : ∀ x ∈ xs, f (g x) = some x) : (xs.map g).mapM f = some xs := by
  induction xs with
  | nil => rfl
  | cons x xs ih =>
      have hrest := ih fun x hmem => h x (List.mem_cons_of_mem _ hmem)
      rw [List.map_cons, List.mapM_cons, h x List.mem_cons_self, hrest]
      rfl

/-- The variables of an interface are read back from its text. -/
theorem read?_text (htypes : types.Consistent) (h : i.Declarable types) :
    read? types (i.text types) = some i.vars := by
  unfold read?
  split
  case isTrue hempty => rw [text_eq_empty_iff.mp hempty]
  case isFalse hnonempty =>
    rw [splitOn_text h fun hnil => hnonempty (text_eq_empty_iff.mpr hnil)]
    refine mapM_map_eq_some fun v hv => ?_
    obtain ⟨hname, hcontains, htype⟩ := h v hv
    exact InterfaceVar.ofWords?_text htypes hname hcontains htype

/-- Over any type table, the text of an interface determines its variables, as long as all names are identifiers and
all types are in the table: the variables are read back from the text line by line, none from the text without lines,
and so interfaces with equal texts have the same variables. -/
theorem text_determines_vars (operations : List TypeTable.Operation) (edits edits' : List Edit)
    (h : (ofEdits edits).Declarable (TypeTable.empty.performAll operations))
    (h' : (ofEdits edits').Declarable (TypeTable.empty.performAll operations)) :
    ((ofEdits edits).text (TypeTable.empty.performAll operations) =
        (ofEdits edits').text (TypeTable.empty.performAll operations) ↔ (ofEdits edits).vars = (ofEdits edits').vars) ∧
      read? (TypeTable.empty.performAll operations) ((ofEdits edits).text (TypeTable.empty.performAll operations)) =
        some (ofEdits edits).vars ∧
      ((ofEdits edits).text (TypeTable.empty.performAll operations) = "" ↔ (ofEdits edits).vars = []) := by
  have htypes : (TypeTable.empty.performAll operations).Consistent := by
    rw [TypeTable.performAll_eq_applyAll]
    exact TypeTable.consistent_empty.applyAll _
  have hread := read?_text htypes h
  refine ⟨⟨?_, ?_⟩, hread, text_eq_empty_iff⟩
  · intro htext
    rw [htext, read?_text htypes h'] at hread
    exact (Option.some.inj hread).symm
  · intro hvars
    rw [Interface.text, hvars, Interface.text]

/-- Keywords of declarations, registered as types. -/
def keywordTypes : List TypeTable.Operation :=
  [.add "in", .add "uniform", .addConversion (.pos 0) (.pos 7), .add "in", .add "layout"]

/-- An input with a location and a uniform, named after keywords. -/
def placedInput : List Edit :=
  [.stage .vertex, .declare ⟨.input (some 10), .pos 0, "out"⟩, .declare ⟨.uniform, .pos 2, "uniform"⟩]

/-- The same variables with the location left out. -/
def unplacedInput : List Edit :=
  [.declare ⟨.input none, .pos 0, "out"⟩, .declare ⟨.uniform, .pos 2, "uniform"⟩, .stage .fragment]

theorem text_determines_vars_keywords :
    (ofEdits placedInput).Declarable (TypeTable.empty.performAll keywordTypes) ∧
      (ofEdits unplacedInput).Declarable (TypeTable.empty.performAll keywordTypes) ∧
      (ofEdits placedInput).text (TypeTable.empty.performAll keywordTypes) ≠
        (ofEdits unplacedInput).text (TypeTable.empty.performAll keywordTypes) ∧
      read? (TypeTable.empty.performAll keywordTypes)
          ((ofEdits placedInput).text (TypeTable.empty.performAll keywordTypes)) =
        some [⟨.input (some 10), .pos 0, "out"⟩, ⟨.uniform, .pos 2, "uniform"⟩] := by
  have hplaced : (ofEdits placedInput).Declarable (TypeTable.empty.performAll keywordTypes) := by decide
  have hunplaced : (ofEdits unplacedInput).Declarable (TypeTable.empty.performAll keywordTypes) := by decide
  obtain ⟨htext, hread, -⟩ := text_determines_vars keywordTypes placedInput unplacedInput hplaced hunplaced
  refine ⟨hplaced, hunplaced, ?_, hread⟩
  rw [ne_eq, htext]
  decide

end Interface

end ShaderLift
