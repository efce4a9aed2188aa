import Mathlib.Data.List.Induction
import ShaderLift.Program
import ShaderLift.Proofs.LiftingContext
import ShaderLift.Proofs.Typing
import ShaderLift.Proofs.ValueUse

/-!
# Definition before use

The full text of a shader is made of the own texts of shaders, one piece for each way in which a shader is reached by
binding.  Every call in a piece refers to a function of the dialect or to a shader whose piece comes before.

* `Shader.pieces`, `Shader.text_eq_intercalate`: the pieces of a full text.
* `Shader.definedBeforeUse_pieces`: what a piece may call is defined by earlier pieces.
* `exists_resolve_of_callsName`: every call in a lifted body refers to what lifting resolved its name to.
* `Build.definition_before_use`: the order of definitions in what any program of jobs builds.
-/

namespace ShaderLift

namespace Shader

/-! ## Pieces of a full text -/

mutual

/-- The shaders whose own texts make up the full text of a shader, in order. -/
def pieces : Shader → List Shader
  | ⟨name, params, result, body, ownText, dependencies⟩ =>
      dependencyPieces dependencies ++ [⟨name, params, result, body, ownText, dependencies⟩]

/-- The pieces of shaders, one shader after another. -/
def dependencyPieces : List Shader → List Shader
  | [] => []
  | s :: rest => s.pieces ++ dependencyPieces rest

end

/-- A property that holds of a shader if it holds of what the shader binds holds of all shaders. -/
theorem induction {motive : Shader → Prop}
    (h : ∀ s : Shader, (∀ g ∈ s.dependencies, motive g) → motive s) (s : Shader) : motive s := by
  refine @Shader.rec motive (fun dependencies => ∀ g ∈ dependencies, motive g) ?_ ?_ ?_ s
  · intro name params result body ownText dependencies ih
    exact h _ ih
  · exact fun g hmem => absurd hmem List.not_mem_nil
  · intro first rest hfirst hrest g hmem
    rcases List.mem_cons.mp hmem with rfl | hmem
    · exact hfirst
    · exact hrest g hmem

theorem dependencyPieces_eq_flatMap (dependencies : List Shader) :
    dependencyPieces dependencies = dependencies.flatMap pieces := by
  induction dependencies with
  | nil => rfl
  | cons first rest ih => rw [dependencyPieces, ih, List.flatMap_cons]

/-- What a shader binds comes before it, each bound shader with all its pieces. -/
theorem pieces_eq (s : Shader) : s.pieces = s.dependencies.flatMap pieces ++ [s] := by
  obtain ⟨name, params, result, body, ownText, dependencies⟩ := s
  rw [pieces, dependencyPieces_eq_flatMap]

/-- The full texts of the dependencies and a text after them, as the pieces of them all. -/
theorem dependencyText_append {dependencies : List Shader} (own : String)
    (h : ∀ g ∈ dependencies, g.text = "\n".intercalate (g.pieces.map ownText)) :
    dependencyText dependencies ++ own =
      "\n".intercalate ((dependencies.flatMap pieces).map ownText ++ [own]) := by
  induction dependencies with
  | nil => rw [dependencyText, List.flatMap_nil, List.map_nil, List.nil_append,
      String.intercalate_singleton, String.empty_append]
  | cons first rest ih =>
      have hrest := ih fun g hmem => h g (List.mem_cons_of_mem _ hmem)
      have hpieces : first.pieces.map ownText ≠ [] := by
        rw [pieces_eq]
        simp
      rw [List.flatMap_cons, List.map_append, List.append_assoc,
        String.intercalate_append_of_ne_nil hpieces (by simp), ← hrest, ← h first List.mem_cons_self,
        dependencyText, String.append_assoc]

/-- The full text of a shader is made of its pieces, each on lines of its own. -/
theorem text_eq_intercalate (s : Shader) : s.text = "\n".intercalate (s.pieces.map ownText) := by
  induction s using Shader.induction with
  | h s ih =>
      rw [pieces_eq, List.map_append, List.map_singleton, ← dependencyText_append s.ownText ih]
      cases s
      rw [text]

/-! ## Calls -/

/-- A call of the name stands in a line of the body. -/
def CallsName (s : Shader) (name : String) : Prop :=
  ∃ line ∈ s.body, ∃ value, line.statement.value? = some value ∧ .callee name ∈ value.nodes

/-- The shader is one of the pieces, and all shaders that it may call are defined by the pieces before it. -/
inductive DefinedIn : List Shader → Shader → Prop
  | intro {earlier later : List Shader} {s : Shader} (h : ∀ g ∈ s.dependencies, DefinedIn earlier g) :
      DefinedIn (earlier ++ s :: later) s

/-- What is defined stays so when other pieces come before. -/
theorem DefinedIn.append_left {pieces : List Shader} {s : Shader} (h : DefinedIn pieces s)
    (before : List Shader) : DefinedIn (before ++ pieces) s := by
  induction h with
  | @intro earlier later s h ih =>
      rw [← List.append_assoc]
      exact .intro ih

/-- Whatever a piece may call is defined by the pieces before it. -/
def DefinedBeforeUse (pieces : List Shader) : Prop :=
  ∀ before piece after, pieces = before ++ piece :: after → ∀ g ∈ piece.dependencies, DefinedIn before g

namespace DefinedBeforeUse

theorem nil : DefinedBeforeUse [] := by
  intro before piece after h
  simp at h

theorem append {first second : List Shader} (hfirst : DefinedBeforeUse first)
    (hsecond : DefinedBeforeUse second) : DefinedBeforeUse (first ++ second) := by
  intro before piece after h g hg
  rcases append_eq_append_cons h with ⟨between, hbetween, -⟩ | ⟨between, rfl, hbetween⟩
  · exact hfirst before piece between hbetween g hg
  · exact (hsecond between piece after hbetween g hg).append_left first

theorem definedIn {pieces : List Shader} (h : DefinedBeforeUse pieces) {s : Shader} (hmem : s ∈ pieces) :
    DefinedIn pieces s := by
  obtain ⟨earlier, later, rfl⟩ := List.append_of_mem hmem
  exact .intro (h earlier s later rfl)

theorem snoc {pieces : List Shader} (h : DefinedBeforeUse pieces) {s : Shader}
    (hs : ∀ g ∈ s.dependencies, g ∈ pieces) : DefinedBeforeUse (pieces ++ [s]) := by
  intro before piece after heq g hg
  rcases append_eq_append_cons heq with ⟨between, hbetween, -⟩ | ⟨between, rfl, hbetween⟩
  · exact h before piece between hbetween g hg
  · -- Only the last piece is left.
    cases between with
    | nil =>
        cases hbetween
        rw [List.append_nil]
        exact h.definedIn (hs g hg)
    | cons first between => cases between <;> cases hbetween

theorem flatMap {dependencies : List Shader} (h : ∀ g ∈ dependencies, DefinedBeforeUse g.pieces) :
    DefinedBeforeUse (dependencies.flatMap pieces) := by
  induction dependencies with
  | nil => exact nil
  | cons first rest ih =>
      rw [List.flatMap_cons]
      exact (h first List.mem_cons_self).append (ih fun g hmem => h g (List.mem_cons_of_mem _ hmem))

end DefinedBeforeUse

theorem mem_pieces_self (s : Shader) : s ∈ s.pieces := by
  rw [pieces_eq]
  exact List.mem_append_right _ (List.mem_singleton_self s)

/-- In the full text of a shader, whatever a piece may call is defined by the pieces before it. -/
theorem definedBeforeUse_pieces (s : Shader) : DefinedBeforeUse s.pieces := by
  induction s using Shader.induction with
  | h s ih =>
      rw [pieces_eq]
      refine (DefinedBeforeUse.flatMap ih).snoc ?_
      intro g hg
      exact List.mem_flatMap.mpr ⟨g, hg, g.mem_pieces_self⟩

/-- What holds of a shader and goes over to what is bound holds of all pieces. -/
theorem forall_mem_pieces {P : Shader → Prop} (hbound : ∀ s : Shader, P s → ∀ g ∈ s.dependencies, P g)
    {s : Shader} (hs : P s) : ∀ piece ∈ s.pieces, P piece := by
  induction s using Shader.induction with
  | h s ih =>
      intro piece hmem
      rw [pieces_eq] at hmem
      rcases List.mem_append.mp hmem with hearlier | hlast
      · obtain ⟨g, hg, hpiece⟩ := List.mem_flatMap.mp hearlier
        exact ih g hg (hbound s hs g hg) piece hpiece
      · rwa [List.mem_singleton.mp hlast]

end Shader

/-! ## What calls refer to -/

namespace Expr

mutual

/-- Every name that is called in an expression with a type refers to a callable. -/
theorem exists_resolve_of_type? {c : Context} {scope : Scope} {name : String} {type : TypeId} :
    (e : Expr) → e.type? c scope = some type → .callee name ∈ e.nodes →
      ∃ callable, c.resolve name = some callable
  | number _, _, hmem => by cases List.mem_singleton.mp hmem
  | var _, _, hmem => by cases List.mem_singleton.mp hmem
  | binary op left right, he, hmem => by
      simp only [type?, Option.bind_eq_bind, Option.bind_eq_some_iff] at he
      obtain ⟨leftType, hleft, rightType, hright, -⟩ := he
      simp only [nodes, List.mem_append, List.mem_singleton] at hmem
      rcases hmem with (hmem | hmem) | hmem
      · exact exists_resolve_of_type? left hleft hmem
      · exact exists_resolve_of_type? right hright hmem
      · cases hmem
  | call callee args, he, hmem => by
      simp only [type?, Option.bind_eq_bind, Option.bind_eq_some_iff] at he
      obtain ⟨callable, hcallable, types, htypes, -⟩ := he
      simp only [nodes, List.cons_append, List.mem_cons, List.mem_append, List.not_mem_nil, or_false] at hmem
      rcases hmem with hmem | hmem | hmem
      · cases hmem
        exact ⟨callable, hcallable⟩
      · exact exists_resolve_of_argTypes? args htypes hmem
      · cases hmem

theorem exists_resolve_of_argTypes? {c : Context} {scope : Scope} {name : String} {types : List TypeId} :
    (args : List Expr) → argTypes? c scope args = some types → .callee name ∈ argNodes args →
      ∃ callable, c.resolve name = some callable
  | [], _, hmem => absurd hmem List.not_mem_nil
  | arg :: rest, hargs, hmem => by
      simp only [argTypes?, Option.bind_eq_bind, Option.bind_eq_some_iff] at hargs
      obtain ⟨type, htype, types', htypes, -⟩ := hargs
      rw [argNodes, List.mem_append] at hmem
      rcases hmem with hmem | hmem
      · exact exists_resolve_of_type? arg htype hmem
      · exact exists_resolve_of_argTypes? rest htypes hmem

end

end Expr

/-- The expression of a typed statement has a type. -/
theorem Statement.Typed.exists_type? {c : Context} {last : State} {report : Option Event}
    {statement : Statement} {value : Expr} (h : statement.Typed c last report)
    (hvalue : statement.value? = some value) : ∃ type, value.type? c last.scope = some type := by
  cases statement with
  | declare type name value =>
      cases hvalue
      exact ⟨type, h.2⟩
  | assign name value =>
      cases hvalue
      obtain ⟨declared, assigned, -, hassigned, -⟩ := h
      exact ⟨assigned, hassigned⟩
  | eval value =>
      cases hvalue
      exact h
  | ret returned =>
      cases returned with
      | none => cases hvalue
      | some value =>
          cases hvalue
          exact ⟨_, h⟩
  | openIf condition =>
      cases hvalue
      exact ⟨_, h⟩
  | openElse => cases hvalue
  | close => cases hvalue

/-- Every call in a lifted body refers to a callable: that of its name. -/
theorem exists_resolve_of_callsName {d : Dialect} {function : StackFunction} {args : List TypeId}
    {bound : List Shader} {interface : Interface} {shader : Shader} {name : String}
    (h : (lift d function args bound interface).outcome = .ok shader) (hname : shader.CallsName name) :
    ∃ callable, (Context.ofDialect d bound).resolve name = some callable := by
  obtain ⟨-, within, last, hbody, rfl, -⟩ := lift_eq_ok_iff.mp (congrArg (Run.mk _) h)
  obtain ⟨last', _, _, hlift, hend, rfl⟩ := Run.bind_eq_ok_iff.mp hbody
  obtain ⟨-, -, rfl, rfl⟩ := State.checkEnd_eq_ok_iff.mp hend
  have hstart : State.WellTyped (.ofDialect d bound)
      { scope := initialScope interface (args.zip function.params) } :=
    fun value hmem => absurd hmem List.not_mem_nil
  obtain ⟨-, -, htyped⟩ := State.typed_of_liftFrom hlift hstart
  obtain ⟨line, hline, value, hvalue, hnode⟩ := hname
  obtain ⟨event, hevent, hadds⟩ := List.mem_filterMap.mp hline
  cases event with
  | emitted added =>
      cases hadds
      rw [List.append_nil] at hevent
      obtain ⟨before, after, rfl⟩ := List.append_of_mem hevent
      have hstatement := htyped last ⟨.refl _, fun _ htype => htype⟩ before line after rfl
      obtain ⟨type, htype⟩ := hstatement.exists_type? hvalue
      exact Expr.exists_resolve_of_type? value htype hnode
  | _ => cases hadds

/-! ## Programs -/

theorem dependencies_of_lift {d : Dialect} {function : StackFunction} {args : List TypeId}
    {bound : List Shader} {interface : Interface} {shader : Shader}
    (h : (lift d function args bound interface).outcome = .ok shader) : shader.dependencies = bound := by
  obtain ⟨-, within, last, -, rfl, -⟩ := lift_eq_ok_iff.mp (congrArg (Run.mk _) h)
  rfl

namespace Build

/-- The shaders that jobs build, in the order of the jobs. -/
def shaders (jobs : List Job) : List Shader :=
  (ofJobs jobs).filterMap shader?

theorem ofJobs_append_singleton (jobs : List Job) (job : Job) :
    ofJobs (jobs ++ [job]) = ofJobs jobs ++ [ofJob (ofJobs jobs) job] := by
  rw [ofJobs, List.foldl_append]
  rfl

/-- The shaders that a job binds were built before. -/
theorem mem_of_bind {earlier : List Build} {places : List Nat} {bound : List Shader}
    (h : (places.mapM fun place => earlier[place]?.bind shader?) = some bound) :
    ∀ g ∈ bound, g ∈ earlier.filterMap shader? := by
  induction places generalizing bound with
  | nil =>
      cases h
      exact fun g hmem => absurd hmem List.not_mem_nil
  | cons place places ih =>
      simp only [List.mapM_cons, Option.bind_eq_bind, Option.bind_eq_some_iff] at h
      obtain ⟨first, ⟨build, hbuild, hfirst⟩, rest, hrest, hbound⟩ := h
      cases hbound
      intro g hmem
      rcases List.mem_cons.mp hmem with rfl | hmem
      · exact List.mem_filterMap.mpr ⟨build, List.mem_of_getElem? hbuild, hfirst⟩
      · exact ih hrest g hmem

/-- A job that gives a shader lifts its function with shaders that were built before. -/
theorem ofJob_shader? {earlier : List Build} {job : Job} {s : Shader}
    (h : (ofJob earlier job).shader? = some s) :
    (lift job.dialect job.function job.args s.dependencies job.interface).outcome = .ok s ∧
      ∀ g ∈ s.dependencies, g ∈ earlier.filterMap shader? := by
  unfold ofJob at h
  split at h
  · rename_i bound hbound
    have hlift := Run.toOption_outcome_eq_some_iff.mp h
    rw [dependencies_of_lift hlift]
    exact ⟨hlift, mem_of_bind hbound⟩
  · cases h

/-- Every shader that jobs build was lifted by one of them, with shaders that jobs build. -/
theorem exists_job_of_mem_shaders {jobs : List Job} {s : Shader} (h : s ∈ shaders jobs) :
    (∃ job ∈ jobs,
        (lift job.dialect job.function job.args s.dependencies job.interface).outcome = .ok s) ∧
      ∀ g ∈ s.dependencies, g ∈ shaders jobs := by
  induction jobs using List.reverseRecOn with
  | nil => exact absurd h List.not_mem_nil
  | append_singleton jobs job ih =>
      have hshaders : shaders (jobs ++ [job]) =
          shaders jobs ++ [ofJob (ofJobs jobs) job].filterMap shader? := by
        rw [shaders, ofJobs_append_singleton, List.filterMap_append, shaders]
      rw [hshaders] at h ⊢
      rcases List.mem_append.mp h with hearlier | hlast
      · obtain ⟨⟨job', hjob', hlift⟩, hbound⟩ := ih hearlier
        exact ⟨⟨job', List.mem_append_left _ hjob', hlift⟩,
          fun g hg => List.mem_append_left _ (hbound g hg)⟩
      · obtain ⟨build, hbuild, hshader⟩ := List.mem_filterMap.mp hlast
        rw [List.mem_singleton.mp hbuild] at hshader
        obtain ⟨hlift, hbound⟩ := ofJob_shader? hshader
        exact ⟨⟨job, List.mem_append_right _ (List.mem_singleton_self job), hlift⟩,
          fun g hg => List.mem_append_left _ (hbound g hg)⟩

/-- In the full text of every shader that jobs build, each piece was lifted by a job, and each call in it refers to a
bound shader that earlier pieces define, with all that it binds, or else to a function of the dialect. -/
theorem definition_before_use {jobs : List Job} {s : Shader} (h : s ∈ shaders jobs) :
    s.text = "\n".intercalate (s.pieces.map Shader.ownText) ∧
      ∀ before piece after, s.pieces = before ++ piece :: after →
        ∃ job ∈ jobs,
          (lift job.dialect job.function job.args piece.dependencies job.interface).outcome = .ok piece ∧
          ∀ name, piece.CallsName name →
            (∃ g, piece.dependencies.find? (·.name == name) = some g ∧
              (Context.ofDialect job.dialect piece.dependencies).resolve name = some g.callable ∧
              Shader.DefinedIn before g) ∨
            (∃ callable, piece.dependencies.find? (·.name == name) = none ∧
              (Context.ofDialect job.dialect piece.dependencies).resolve name = some callable ∧
              job.dialect.functions.find? name = some callable) := by
  refine ⟨s.text_eq_intercalate, ?_⟩
  intro before piece after hpieces
  have hpiece : piece ∈ shaders jobs := by
    refine Shader.forall_mem_pieces (fun s hs => (exists_job_of_mem_shaders hs).2) h piece ?_
    rw [hpieces]
    exact List.mem_append_right _ List.mem_cons_self
  obtain ⟨⟨job, hjob, hlift⟩, -⟩ := exists_job_of_mem_shaders hpiece
  refine ⟨job, hjob, hlift, ?_⟩
  intro name hname
  obtain ⟨callable, hresolve⟩ := exists_resolve_of_callsName hlift hname
  have hlookup := Context.resolve_ofDialect job.dialect piece.dependencies name
  cases hfind : piece.dependencies.find? (·.name == name) with
  | some g =>
      rw [hfind, Option.map_some, Option.some_or] at hlookup
      have hdefined := s.definedBeforeUse_pieces before piece after hpieces g
        (List.mem_of_find?_eq_some hfind)
      exact .inl ⟨g, rfl, hlookup, hdefined⟩
  | none =>
      rw [hfind, Option.map_none, Option.none_or] at hlookup
      exact .inr ⟨callable, rfl, hresolve, hlookup.symm.trans hresolve⟩

/-- A function of one number that returns the result of a call. -/
def passing (name callee : String) : StackFunction where
  name := name
  params := ["x"]
  body := [.loadGlobal callee, .loadLocal "x", .call 1, .ret]

/-- Two functions that call the same one, and a function that binds both, the second one twice, and calls that. -/
def sharing : List Job :=
  [{ function := ⟨"base", ["x"], [.loadLocal "x", .ret]⟩, args := [.pos 2] },
    { function := passing "left" "base", args := [.pos 2], bind := [0] },
    { function := passing "right" "base", args := [.pos 2], bind := [0] },
    { function := passing "top" "right", args := [.pos 2], bind := [2, 1, 2] }]

theorem definition_before_use_sharing :
    ∃ s ∈ shaders sharing, s.pieces.map Shader.name =
        ["base", "right", "base", "left", "base", "right", "top"] ∧
      s.CallsName "right" ∧ ∃ before g, s.pieces = before ++ [s] ∧ g.name = "right" ∧
        Shader.DefinedIn before g := by
  have hpieces : (shaders sharing)[3]?.map (fun s => s.pieces.map Shader.name) =
      some ["base", "right", "base", "left", "base", "right", "top"] := by decide +kernel
  have hlines : (shaders sharing)[3]?.map Shader.body =
      some [⟨1, .ret (some (.call "right" [.var "x"]))⟩] := by rfl
  have hbound : ((shaders sharing)[3]?.bind fun s => s.dependencies.find? (·.name == "right")).isSome := by
    decide +kernel
  obtain ⟨s, hs, hnames⟩ := Option.map_eq_some_iff.mp hpieces
  rw [hs, Option.map_some] at hlines
  rw [hs, Option.bind_some] at hbound
  have hmem : s ∈ shaders sharing := List.mem_of_getElem? hs
  have hcalls : s.CallsName "right" := by
    refine ⟨⟨1, .ret (some (.call "right" [.var "x"]))⟩, ?_, _, rfl, List.mem_cons_self⟩
    rw [Option.some.inj hlines]
    exact List.mem_singleton_self _
  refine ⟨s, hmem, hnames, hcalls, s.dependencies.flatMap Shader.pieces, ?_⟩
  obtain ⟨job, -, -, hrefers⟩ := (definition_before_use hmem).2 _ s [] s.pieces_eq
  rcases hrefers "right" hcalls with ⟨g, hfind, -, hdefined⟩ | ⟨callable, hnone, -⟩
  · have hname := List.find?_some hfind
    exact ⟨g, s.pieces_eq, eq_of_beq hname, hdefined⟩
  · rw [hnone] at hbound
    cases hbound

end Build

end ShaderLift
