import Mathlib.Data.List.Nodup
import ShaderLift.TypeTable.Edit

/-!
# Names and handles of types

A type table holds the name of a type twice, in the list of types and in the map from names to handles, and the handles
of `int` and `float` a third time.  That all of these agree, and that a name and its handle belong together for good,
follows from the order of the calls: a name is added once, at the end, and nothing is taken away.

* `TypeTable.Operation`: the calls that change a table, each of which consists of edits.
* `TypeTable.names_apply`, `TypeTable.find?_apply`: all that an edit can do to the list of names and to the map.
* `TypeTable.Consistent`: the map finds each name at its type, and the handles of the built-in conversion are in it.
* `TypeTable.Registered`: which names and handles a table has, from what the additions returned.
* `TypeTable.handles_of_operations`: the names and handles of every table, and what later operations keep of them.
-/

namespace ShaderLift

namespace TypeTable

/-! ## Operations -/

/-- A call that changes a type table. -/
inductive Operation where
  | add (name : String)
  | addRule (type : TypeId) (op : Operator) (rhs result : TypeId)
  | addRules (type : TypeId) (ops : List Operator) (rhs result : TypeId)
  | addAnyRule (type rhs result : TypeId)
  | addConversion (type target : TypeId)
deriving DecidableEq, Repr

/-- Performs an operation. -/
def perform (t : TypeTable) : Operation → TypeTable
  | .add name => (t.add name).1
  | .addRule type op rhs result => t.addRule type op rhs result
  | .addRules type ops rhs result => t.addRules type ops rhs result
  | .addAnyRule type rhs result => t.addAnyRule type rhs result
  | .addConversion type target => t.addConversion type target

/-- Performs operations in order. -/
def performAll (t : TypeTable) (operations : List Operation) : TypeTable :=
  operations.foldl perform t

/-- The edits that an operation consists of. -/
def Operation.edits : Operation → List Edit
  | add name => [.add name]
  | addRule type op rhs result => [.rule type op rhs result]
  | addRules type ops rhs result => ops.map fun op => .rule type op rhs result
  | addAnyRule type rhs result => [.anyRule type rhs result]
  | addConversion type target => [.conversion type target]

/-- The edits that operations consist of, in order. -/
def history (operations : List Operation) : List Edit :=
  operations.flatMap Operation.edits

theorem perform_eq_applyAll (t : TypeTable) (operation : Operation) :
    t.perform operation = t.applyAll operation.edits := by
  cases operation with
  | addRules type ops rhs result => exact t.addRules_eq_applyAll type ops rhs result
  | _ => rfl

theorem performAll_eq_applyAll (t : TypeTable) (operations : List Operation) :
    t.performAll operations = t.applyAll (history operations) := by
  induction operations generalizing t with
  | nil => rfl
  | cons operation rest ih =>
      calc t.performAll (operation :: rest)
        _ = (t.perform operation).performAll rest := rfl
        _ = (t.applyAll operation.edits).applyAll (history rest) := by rw [ih, perform_eq_applyAll]
        _ = t.applyAll (operation.edits ++ history rest) := (applyAll_append ..).symm

/-! ## What the names determine -/

theorem size_eq (t : TypeTable) : t.size = t.names.length :=
  (List.length_map ..).symm

theorem contains_pos (t : TypeTable) (index : Nat) : t.contains (.pos index) = true ↔ index < t.size := by
  simp [contains, entry?, size]

theorem contains_null (t : TypeTable) : t.contains .null = false := rfl

/-- The names belong to the handles of the same place. -/
theorem name_pos {t : TypeTable} {index : Nat} {name : String} (h : t.names[index]? = some name) :
    t.name (.pos index) = name := by
  rw [names, List.getElem?_map, Option.map_eq_some_iff] at h
  obtain ⟨entry, hentry, hname⟩ := h
  simp only [TypeTable.name, entry?, hentry, hname]

/-- The handles of the types are those at which types stand. -/
theorem mem_ids {t : TypeTable} {id : TypeId} : id ∈ t.ids ↔ t.contains id = true := by
  cases id with
  | null => simp [ids, contains_null]
  | pos index => simp [ids, contains_pos]

/-- The names stand in the order of the handles. -/
theorem map_name_ids (t : TypeTable) : t.ids.map t.name = t.names := by
  apply List.ext_getElem?
  intro index
  rw [ids, List.map_map, List.getElem?_map]
  by_cases hlt : index < t.names.length
  · have hname := List.getElem?_eq_getElem hlt
    rw [size_eq, List.getElem?_range hlt, hname]
    exact congrArg some (name_pos hname)
  · have hle : t.names.length ≤ index := by omega
    rw [size_eq, List.getElem?_eq_none hle, List.getElem?_eq_none (by rwa [List.length_range]), Option.map_none]

theorem nodup_ids (t : TypeTable) : t.ids.Nodup := by
  refine List.Nodup.map ?_ List.nodup_range
  intro index index' h
  exact TypeId.pos.inj h

/-! ## What an edit does -/

/-- The name that an edit adds to those that have a handle. -/
def newName? (t : TypeTable) : Edit → Option String
  | .add name => if (t.find? name).isSome then none else some name
  | _ => none

theorem find?_of_newName? {t : TypeTable} {edit : Edit} {name : String} (h : t.newName? edit = some name) :
    t.find? name = none := by
  cases edit with
  | add added =>
      rw [newName?] at h
      split at h
      · cases h
      · rename_i hnew
        cases h
        exact Option.not_isSome_iff_eq_none.mp hnew
  | _ => cases h

/-- Adding a name that has a handle changes nothing; a new one gets a type without rules at the end, and its handle. -/
theorem add_cases (t : TypeTable) (name : String) :
    (∃ id, t.find? name = some id ∧ t.newName? (.add name) = none ∧ t.add name = (t, id)) ∨
      (t.find? name = none ∧ t.newName? (.add name) = some name ∧
        t.add name =
          ({ entries := t.entries ++ [{ name := name }]
             handles := (name, .pos t.size) :: t.handles
             intId := if name = "int" then some (.pos t.size) else t.intId
             floatId := if name = "float" then some (.pos t.size) else t.floatId }, .pos t.size)) := by
  rw [newName?, add]
  cases t.find? name with
  | some id => exact .inl ⟨id, rfl, rfl, rfl⟩
  | none => exact .inr ⟨rfl, rfl, rfl⟩

theorem entry?_modify (t : TypeTable) (id : TypeId) (f : TypeEntry → TypeEntry) (other : TypeId) :
    entry? (t.modify id f) other = if other = id then (t.entry? other).map f else t.entry? other := by
  cases id with
  | null => cases other <;> rfl
  | pos index =>
      cases other with
      | null => rfl
      | pos place =>
          simp only [modify, entry?, List.getElem?_modify, TypeId.pos.injEq]
          by_cases hplace : place = index
          · subst hplace
            simp
          · simp [hplace, Ne.symm hplace]

/-- A handle refers to what it referred to, or to the type that was added. -/
theorem entry?_add (t : TypeTable) (name : String) (id : TypeId) :
    entry? (t.add name).1 id =
      (t.entry? id).or (if t.find? name = none ∧ id = .pos t.size then some { name := name } else none) := by
  rcases t.add_cases name with ⟨found, hfind, -, hadd⟩ | ⟨hfind, -, hadd⟩
  · simp [hadd, hfind]
  · rw [hadd]
    cases id with
    | null =>
        have hnull : ¬ (t.find? name = none ∧ TypeId.null = .pos t.size) := by simp
        rw [if_neg hnull]
        rfl
    | pos index =>
        simp only [size, entry?, TypeId.pos.injEq, hfind, true_and]
        rcases Nat.lt_trichotomy index t.entries.length with hlt | rfl | hgt
        · rw [List.getElem?_append_left hlt, List.getElem?_eq_getElem hlt, Option.some_or]
        · simp
        · have hne : index ≠ t.entries.length := by omega
          have hlength : (t.entries ++ [({ name := name } : TypeEntry)]).length ≤ index := by
            rw [List.length_append, List.length_singleton]
            omega
          rw [List.getElem?_eq_none hlength, List.getElem?_eq_none (by omega), if_neg hne, Option.none_or]

theorem names_modify (t : TypeTable) (id : TypeId) {f : TypeEntry → TypeEntry} (hf : ∀ e, (f e).name = e.name) :
    (t.modify id f).names = t.names := by
  cases id with
  | null => rfl
  | pos index =>
      apply List.ext_getElem?
      intro place
      simp only [names, modify, List.getElem?_map, List.getElem?_modify]
      cases t.entries[place]? with
      | none => rfl
      | some entry =>
          by_cases hplace : index = place
          · simp [hplace, hf]
          · simp [hplace]

/-- An edit adds a name at the end or leaves the names as they are. -/
theorem names_apply (t : TypeTable) (edit : Edit) :
    (t.apply edit).names = t.names ++ (t.newName? edit).toList := by
  cases edit with
  | add name =>
      rcases t.add_cases name with ⟨id, -, hnew, hadd⟩ | ⟨-, hnew, hadd⟩
      · simp [apply, hnew, hadd]
      · rw [hnew, apply, hadd, names, List.map_append]
        rfl
  | rule type op rhs result => simp [apply, newName?, addRule, names_modify]
  | anyRule type rhs result => simp [apply, newName?, addAnyRule, names_modify]
  | conversion type target => simp [apply, newName?, addConversion, names_modify]

theorem find?_modify (t : TypeTable) (id : TypeId) (f : TypeEntry → TypeEntry) (name : String) :
    (t.modify id f).find? name = t.find? name := by
  cases id <;> rfl

/-- A new name is found behind the types that were there, and any other name where it was. -/
theorem find?_apply (t : TypeTable) (edit : Edit) (name : String) :
    (t.apply edit).find? name = if t.newName? edit = some name then some (.pos t.size) else t.find? name := by
  cases edit with
  | add added =>
      rcases t.add_cases added with ⟨id, -, hnew, hadd⟩ | ⟨-, hnew, hadd⟩
      · rw [apply, hadd, hnew, if_neg (Option.some_ne_none name).symm]
      · rw [apply, hadd, hnew, find?, List.lookup_cons]
        by_cases hname : name = added
        · subst hname
          simp
        · rw [beq_false_of_ne hname, if_neg fun heq => hname (Option.some.inj heq).symm]
          rfl
  | rule type op rhs result => exact t.find?_modify type _ name
  | anyRule type rhs result => exact t.find?_modify type _ name
  | conversion type target => exact t.find?_modify type _ name

theorem ids_apply (t : TypeTable) (edit : Edit) :
    (t.apply edit).ids = t.ids ++ ((t.newName? edit).map fun _ => TypeId.pos t.size).toList := by
  rw [ids, size_eq, names_apply, ids, size_eq]
  cases t.newName? edit with
  | none => simp
  | some name => simp [List.range_succ]

/-- The handles at which types stand after an edit. -/
theorem contains_apply {t : TypeTable} {edit : Edit} {id : TypeId} :
    (t.apply edit).contains id = true ↔
      t.contains id = true ∨ (t.newName? edit).isSome = true ∧ id = .pos t.size := by
  rw [← mem_ids, ← mem_ids, ids_apply, List.mem_append]
  cases t.newName? edit with
  | none => simp
  | some name => simp

/-- A type keeps its name. -/
theorem name_apply {t : TypeTable} {id : TypeId} (h : t.contains id = true) (edit : Edit) :
    (t.apply edit).name id = t.name id := by
  cases id with
  | null => cases h
  | pos index =>
      have hlt : index < t.names.length := by rwa [contains_pos, size_eq] at h
      have hname := List.getElem?_eq_getElem hlt
      have hlater : (t.apply edit).names[index]? = some t.names[index] := by
        rw [names_apply, List.getElem?_append_left hlt, hname]
      rw [name_pos hlater, name_pos hname]

/-- A new type has the new name. -/
theorem name_of_newName? {t : TypeTable} {edit : Edit} {name : String} (h : t.newName? edit = some name) :
    (t.apply edit).name (.pos t.size) = name := by
  apply name_pos
  rw [names_apply, h, size_eq, Option.toList_some, List.getElem?_concat_length]

/-- The handles of the built-in conversion are set when their names are added. -/
theorem conversionIds_apply (t : TypeTable) (edit : Edit) :
    (t.apply edit).intId = (if t.newName? edit = some "int" then some (.pos t.size) else t.intId) ∧
      (t.apply edit).floatId = if t.newName? edit = some "float" then some (.pos t.size) else t.floatId := by
  cases edit with
  | add name =>
      rcases t.add_cases name with ⟨id, -, hnew, hadd⟩ | ⟨-, hnew, hadd⟩
      · simp [apply, hnew, hadd]
      · simp [apply, hnew, hadd]
  | rule type op rhs result => cases type <;> exact ⟨rfl, rfl⟩
  | anyRule type rhs result => cases type <;> exact ⟨rfl, rfl⟩
  | conversion type target => cases type <;> exact ⟨rfl, rfl⟩

/-! ## Consistent tables -/

/-- The map from names to handles agrees with the list of types: a name has a handle if and only if the type there has
the name, so that the names of types differ.  The handles of the built-in conversion are those in the map. -/
structure Consistent (t : TypeTable) : Prop where
  find?_iff : ∀ name id, t.find? name = some id ↔ t.contains id = true ∧ t.name id = name
  intId : t.intId = t.find? "int"
  floatId : t.floatId = t.find? "float"

theorem consistent_empty : empty.Consistent where
  find?_iff := fun name id => by
    cases id with
    | null => simp [find?, empty, contains_null]
    | pos index => simp [find?, empty, contains_pos, size]
  intId := rfl
  floatId := rfl

/-- A name that has no handle so far gets one at the new type, and no other type has that name. -/
theorem Consistent.find?_iff_apply {t : TypeTable} (h : t.Consistent) (edit : Edit) (name : String) (id : TypeId) :
    (t.apply edit).find? name = some id ↔
      (t.apply edit).contains id = true ∧ (t.apply edit).name id = name := by
  rw [find?_apply, contains_apply]
  split
  · rename_i hnew
    constructor
    · rintro ⟨⟩
      exact ⟨.inr ⟨by rw [hnew, Option.isSome_some], rfl⟩, name_of_newName? hnew⟩
    · rintro ⟨hcontains | ⟨-, rfl⟩, hname⟩
      · -- The name would have had a handle before.
        rw [name_apply hcontains] at hname
        have hfound := (h.find?_iff name id).mpr ⟨hcontains, hname⟩
        cases (find?_of_newName? hnew).symm.trans hfound
      · rfl
  · rename_i hother
    rw [h.find?_iff]
    constructor
    · rintro ⟨hcontains, hname⟩
      exact ⟨.inl hcontains, (name_apply hcontains edit).trans hname⟩
    · rintro ⟨hcontains | ⟨hnew, rfl⟩, hname⟩
      · exact ⟨hcontains, (name_apply hcontains edit).symm.trans hname⟩
      · obtain ⟨added, hadded⟩ := Option.isSome_iff_exists.mp hnew
        rw [name_of_newName? hadded] at hname
        exact absurd (hname ▸ hadded) hother

theorem Consistent.apply {t : TypeTable} (h : t.Consistent) (edit : Edit) : (t.apply edit).Consistent where
  find?_iff := h.find?_iff_apply edit
  intId := by rw [(conversionIds_apply t edit).1, find?_apply, h.intId]
  floatId := by rw [(conversionIds_apply t edit).2, find?_apply, h.floatId]

theorem Consistent.applyAll {t : TypeTable} (h : t.Consistent) (edits : List Edit) :
    (t.applyAll edits).Consistent := by
  induction edits generalizing t with
  | nil => exact h
  | cons edit rest ih => exact ih (h.apply edit)

/-! ## Registrations -/

/-- The name that an edit adds, with the handle that is returned for it. -/
def registration? (t : TypeTable) : Edit → Option (String × TypeId)
  | .add name => some (name, (t.add name).2)
  | _ => none

/-- The names that edits add, with the handles that are returned for them, in order. -/
def registrations (t : TypeTable) : List Edit → List (String × TypeId)
  | [] => []
  | edit :: rest => (t.registration? edit).toList ++ (t.apply edit).registrations rest

/-- A table has the names that were added, each at the handle that was returned for it. -/
structure Registered (t : TypeTable) (added : List (String × TypeId)) : Prop where
  names : t.names = (added.map Prod.fst).eraseDups
  ids : t.ids = (added.map Prod.snd).eraseDups
  mem_iff : ∀ name id, (name, id) ∈ added ↔ t.find? name = some id

/-- One more element is a duplicate or comes at the end. -/
theorem eraseDups_concat {α : Type} [BEq α] [LawfulBEq α] [DecidableEq α] (xs : List α) (x : α) :
    (xs ++ [x]).eraseDups = xs.eraseDups ++ if x ∈ xs then [] else [x] := by
  rw [List.eraseDups_append]
  split
  · rename_i hmem
    simp [List.removeAll, hmem]
  · rename_i hmem
    simp [List.removeAll, hmem, List.eraseDups_cons]

theorem registered_empty : empty.Registered [] where
  names := rfl
  ids := rfl
  mem_iff := by simp [find?, empty]

/-- An edit that adds no name returns no handle. -/
theorem Registered.of_newName?_none {t : TypeTable} {added : List (String × TypeId)} (h : t.Registered added)
    {edit : Edit} (hnew : t.newName? edit = none) : (t.apply edit).Registered added where
  names := by rw [names_apply, hnew, Option.toList_none, List.append_nil, h.names]
  ids := by rw [ids_apply, hnew, Option.map_none, Option.toList_none, List.append_nil, h.ids]
  mem_iff := fun name id => by rw [find?_apply, hnew, if_neg (Option.some_ne_none name).symm, h.mem_iff]

theorem Registered.apply {t : TypeTable} {added : List (String × TypeId)} (h : t.Registered added) (edit : Edit) :
    (t.apply edit).Registered (added ++ (t.registration? edit).toList) := by
  cases edit with
  | add name =>
      rcases t.add_cases name with ⟨id, hfind, -, hadd⟩ | ⟨hfind, hnew, hadd⟩
      · -- The name was added before, with the same handle.
        have hbefore : (name, id) ∈ added := (h.mem_iff name id).mpr hfind
        have hname : name ∈ added.map Prod.fst := List.mem_map_of_mem hbefore
        have hid : id ∈ added.map Prod.snd := List.mem_map_of_mem hbefore
        have htable : t.apply (.add name) = t := by rw [TypeTable.apply, hadd]
        have hreturned : t.registration? (.add name) = some (name, id) := by rw [registration?, hadd]
        rw [htable, hreturned, Option.toList_some]
        refine ⟨?_, ?_, fun other id' => ?_⟩
        · rw [List.map_append, List.map_singleton, eraseDups_concat, if_pos hname, List.append_nil, h.names]
        · rw [List.map_append, List.map_singleton, eraseDups_concat, if_pos hid, List.append_nil, h.ids]
        · rw [List.mem_append, h.mem_iff, List.mem_singleton]
          constructor
          · rintro (hother | heq)
            · exact hother
            · cases heq
              exact hfind
          · exact .inl
      · -- The name is new, and so is the handle.
        have hname : name ∉ added.map Prod.fst := by
          intro hbefore
          obtain ⟨⟨other, id⟩, hmem, rfl⟩ := List.mem_map.mp hbefore
          cases hfind.symm.trans ((h.mem_iff other id).mp hmem)
        have hid : TypeId.pos t.size ∉ added.map Prod.snd := by
          intro hbefore
          rw [← List.mem_eraseDups, ← h.ids, mem_ids, contains_pos] at hbefore
          omega
        have hreturned : t.registration? (.add name) = some (name, .pos t.size) := by rw [registration?, hadd]
        rw [hreturned, Option.toList_some]
        refine ⟨?_, ?_, fun other id' => ?_⟩
        · rw [names_apply, hnew, List.map_append, List.map_singleton, eraseDups_concat, if_neg hname, h.names,
            Option.toList_some]
        · rw [ids_apply, hnew, List.map_append, List.map_singleton, eraseDups_concat, if_neg hid, h.ids,
            Option.map_some, Option.toList_some]
        · rw [find?_apply, hnew, List.mem_append, h.mem_iff, List.mem_singleton, Prod.mk.injEq]
          by_cases hother : name = other
          · subst hother
            rw [hfind, if_pos rfl, Option.some_inj]
            simp [eq_comm]
          · rw [if_neg fun heq => hother (Option.some.inj heq)]
            simp [Ne.symm hother]
  | rule type op rhs result => simpa [registration?] using h.of_newName?_none rfl
  | anyRule type rhs result => simpa [registration?] using h.of_newName?_none rfl
  | conversion type target => simpa [registration?] using h.of_newName?_none rfl

/-- After any edits, a table has what it had and what the edits added. -/
theorem Registered.applyAll {t : TypeTable} {added : List (String × TypeId)} (h : t.Registered added)
    (edits : List Edit) : (t.applyAll edits).Registered (added ++ t.registrations edits) := by
  induction edits generalizing t added with
  | nil => simpa [registrations] using h
  | cons edit rest ih =>
      rw [registrations, ← List.append_assoc]
      exact ih (h.apply edit)

/-! ## What edits keep -/

/-- The second table has all that is known from the first one: what is found by a name, the names of types, the places
of their handles and what converts to what. -/
structure Keeps (t t' : TypeTable) : Prop where
  find? : ∀ name id, t.find? name = some id → t'.find? name = some id
  name : ∀ id, t.contains id = true → t'.contains id = true ∧ t'.name id = t.name id
  ids : t.ids <+: t'.ids
  converts : ∀ source target, t.converts source target = true → t'.converts source target = true

theorem Keeps.refl (t : TypeTable) : t.Keeps t where
  find? := fun _ _ h => h
  name := fun _ h => ⟨h, rfl⟩
  ids := List.prefix_refl _
  converts := fun _ _ h => h

theorem Keeps.trans {t t' t'' : TypeTable} (h : t.Keeps t') (h' : t'.Keeps t'') : t.Keeps t'' where
  find? := fun name id hfind => h'.find? name id (h.find? name id hfind)
  name := fun id hid => by
    obtain ⟨hid', hname⟩ := h.name id hid
    obtain ⟨hid'', hname'⟩ := h'.name id hid'
    exact ⟨hid'', hname'.trans hname⟩
  ids := h.ids.trans h'.ids
  converts := fun source target hconverts => h'.converts source target (h.converts source target hconverts)

/-- A conversion is never taken away from a type. -/
theorem conversions_apply {t : TypeTable} {source : TypeId} {entry : TypeEntry} (h : t.entry? source = some entry)
    (edit : Edit) :
    ∃ entry', entry? (t.apply edit) source = some entry' ∧ entry.conversions ⊆ entry'.conversions := by
  have hmodify (id : TypeId) (f : TypeEntry → TypeEntry) (hf : entry.conversions ⊆ (f entry).conversions) :
      ∃ entry', entry? (t.modify id f) source = some entry' ∧ entry.conversions ⊆ entry'.conversions := by
    rw [entry?_modify, h]
    split
    · exact ⟨f entry, rfl, hf⟩
    · exact ⟨entry, rfl, List.Subset.refl _⟩
  cases edit with
  | add name => exact ⟨entry, by rw [TypeTable.apply, entry?_add, h, Option.some_or], List.Subset.refl _⟩
  | rule type op rhs result => exact hmodify type _ (List.Subset.refl _)
  | anyRule type rhs result => exact hmodify type _ (List.Subset.refl _)
  | conversion type target => exact hmodify type _ (List.subset_cons_self _ _)

theorem Consistent.keeps_apply {t : TypeTable} (h : t.Consistent) (edit : Edit) : t.Keeps (t.apply edit) := by
  have hfind (name : String) (id : TypeId) (hname : t.find? name = some id) :
      (t.apply edit).find? name = some id := by
    rw [find?_apply]
    split
    · rename_i hnew
      cases (find?_of_newName? hnew).symm.trans hname
    · exact hname
  have happly := h.apply edit
  refine ⟨hfind, fun id hid => ?_, ?_, fun source target hconverts => ?_⟩
  · exact ⟨contains_apply.mpr (.inl hid), name_apply hid edit⟩
  · rw [ids_apply]
    exact List.prefix_append _ _
  · simp only [TypeTable.converts, Bool.or_eq_true, Bool.and_eq_true, beq_iff_eq, h.intId, h.floatId, happly.intId,
      happly.floatId, Option.any_eq_true] at hconverts ⊢
    rcases hconverts with (hsame | ⟨hsource, htarget⟩) | ⟨entry, hentry, hmem⟩
    · exact .inl (.inl hsame)
    · exact .inl (.inr ⟨hfind _ _ hsource, hfind _ _ htarget⟩)
    · obtain ⟨entry', hentry', hsubset⟩ := conversions_apply hentry edit
      exact .inr ⟨entry', hentry', List.contains_iff_mem.mpr (hsubset (List.contains_iff_mem.mp hmem))⟩

theorem Consistent.keeps_applyAll {t : TypeTable} (h : t.Consistent) (edits : List Edit) :
    t.Keeps (t.applyAll edits) := by
  induction edits generalizing t with
  | nil => exact .refl t
  | cons edit rest ih => exact (h.keeps_apply edit).trans (ih (h.apply edit))

/-! ## Whole histories -/

/-- The names that operations add to the empty table, with the handles that are returned for them. -/
def added (operations : List Operation) : List (String × TypeId) :=
  empty.registrations (history operations)

/-- How the names, the handles and the order of types belong together in a table, where `added` are the names that were
added to the empty table with the handles that were returned. -/
structure Indexed (t : TypeTable) (added : List (String × TypeId)) : Prop where
  /-- The map from names to handles agrees with the list of types. -/
  find?_iff : ∀ name id, t.find? name = some id ↔ t.contains id = true ∧ t.name id = name
  /-- A name is returned the same handle whenever it is added. -/
  added_iff : ∀ name id, (name, id) ∈ added ↔ t.find? name = some id
  mem_ids_iff : ∀ id, id ∈ t.ids ↔ t.contains id = true
  nodup_ids : t.ids.Nodup
  /-- Handles stand in the order in which they were first returned. -/
  ids_eq : t.ids = (added.map Prod.snd).eraseDups
  names_eq : t.names = t.ids.map t.name
  size_eq : t.size = (added.map Prod.fst).eraseDups.length
  intId_eq : t.intId = t.find? "int"
  floatId_eq : t.floatId = t.find? "float"

/-- Names and handles of types are in bijection in every table, and what is known about them stays true. -/
theorem handles_of_operations (operations more : List Operation) :
    (empty.performAll operations).Indexed (added operations) ∧
      (empty.performAll operations).Keeps ((empty.performAll operations).performAll more) := by
  rw [performAll_eq_applyAll, performAll_eq_applyAll]
  have hconsistent := consistent_empty.applyAll (history operations)
  have hregistered := registered_empty.applyAll (history operations)
  rw [List.nil_append, ← added] at hregistered
  refine ⟨?_, hconsistent.keeps_applyAll (history more)⟩
  exact
    { find?_iff := hconsistent.find?_iff
      added_iff := hregistered.mem_iff
      mem_ids_iff := fun id => mem_ids
      nodup_ids := nodup_ids _
      ids_eq := hregistered.ids
      names_eq := (map_name_ids _).symm
      size_eq := by rw [TypeTable.size_eq, hregistered.names]
      intId_eq := hconsistent.intId
      floatId_eq := hconsistent.floatId }

example : added [.add "int", .addConversion (.pos 1) (.pos 0), .add "vec2", .add "int"] =
    [("int", .pos 0), ("vec2", .pos 1), ("int", .pos 0)] := by rfl

end TypeTable

end ShaderLift
