import Mathlib.Data.List.Induction
import Mathlib.Data.Set.Card
import ShaderLift.Session
import ShaderLift.Proofs.DependencyOrder

/-!
# Kept full texts

Whatever a session was asked for before, the full text of a shader consists of the own texts at the ends of all paths
that lead from the shader through what is bound, in post-order.

* `Session.Linked`: the places that are bound hold the shaders that are bound, and come before.
* `Session.Texts.Faithful`: a text that is kept is the full text of the shader at its place.
* `Session.coherent_after`: both hold after all calls.
* `Session.builds_after`: the jobs of a session give what they give on their own.
* `Session.Enumerates`: the paths from a place, in post-order, and the places to which they lead.
* `Session.render_after`: what rendering and linking give.
-/

namespace ShaderLift

namespace Build

/-- The shaders that a job binds are those at the places that it names. -/
theorem bind_of_ofJob {earlier : List Build} {job : Job} {s : Shader}
    (h : (ofJob earlier job).shader? = some s) :
    (job.bind.mapM fun place => earlier[place]?.bind shader?) = some s.dependencies := by
  unfold ofJob at h
  split at h
  · rename_i bound hbound
    rw [dependencies_of_lift (Run.toOption_outcome_eq_some_iff.mp h)]
    exact hbound
  · cases h

end Build

theorem map_eq_of_mapM_eq_some {α β : Type} {f : α → Option β} {xs : List α} {ys : List β}
    (h : xs.mapM f = some ys) : xs.map f = ys.map some := by
  induction xs generalizing ys with
  | nil =>
      cases h
      rfl
  | cons x xs ih =>
      simp only [List.mapM_cons, Option.bind_eq_bind, Option.bind_eq_some_iff] at h
      obtain ⟨y, hy, rest, hrest, hys⟩ := h
      cases hys
      rw [List.map_cons, List.map_cons, hy, ih hrest]

theorem Shader.text_eq_append (s : Shader) : s.text = dependencyText s.dependencies ++ s.ownText := by
  cases s
  rw [text]

namespace Session

/-! ## Places -/

theorem getElem?_reverse_cons {α : Type} (x : α) (xs : List α) (place : Nat) :
    (x :: xs).reverse[place]? = if place = xs.length then some x else xs.reverse[place]? := by
  rw [List.reverse_cons, List.getElem?_append, List.length_reverse]
  rcases Nat.lt_trichotomy place xs.length with hlt | rfl | hgt
  · rw [if_pos hlt, if_neg hlt.ne]
  · rw [if_neg (Nat.lt_irrefl _), if_pos rfl, Nat.sub_self]
    rfl
  · rw [if_neg (by omega), if_neg hgt.ne', List.getElem?_eq_none (by simp; omega),
      List.getElem?_eq_none (by simp; omega)]

theorem shaderAt_cons (item : Item) (items : List Item) (place : Nat) :
    shaderAt (item :: items) place =
      if place = items.length then item.build.shader? else shaderAt items place := by
  rw [shaderAt, List.map_cons, getElem?_reverse_cons, List.length_map]
  split <;> rfl

theorem lt_length_of_shaderAt {items : List Item} {place : Nat} {s : Shader}
    (h : shaderAt items place = some s) : place < items.length := by
  obtain ⟨build, hbuild, -⟩ := Option.bind_eq_some_iff.mp h
  simpa using (List.getElem?_eq_some_iff.mp hbuild).1

/-- The shaders before a job stay at their places. -/
theorem shaderAt_cons_of_shaderAt {items : List Item} {place : Nat} {s : Shader}
    (h : shaderAt items place = some s) (item : Item) : shaderAt (item :: items) place = some s := by
  rw [shaderAt_cons, if_neg (lt_length_of_shaderAt h).ne, h]

/-- The places of the shaders that the shader at a place binds, in order. -/
def boundAt (items : List Item) (place : Nat) : List Nat :=
  (items.reverse[place]?.map Item.bound).getD []

theorem boundAt_cons (item : Item) (items : List Item) (place : Nat) :
    boundAt (item :: items) place = if place = items.length then item.bound else boundAt items place := by
  rw [boundAt, getElem?_reverse_cons]
  split <;> rfl

/-- What is bound at the place of a shader comes before, and it is what the shader binds. -/
def Linked (items : List Item) : Prop :=
  ∀ place s, shaderAt items place = some s →
    (∀ next ∈ boundAt items place, next < place) ∧
      (boundAt items place).map (shaderAt items) = s.dependencies.map some

/-- The newest item binds shaders before it. -/
theorem Linked.head {item : Item} {items : List Item} (h : Linked (item :: items)) {s : Shader}
    (hs : item.build.shader? = some s) : item.bound.map (shaderAt items) = s.dependencies.map some := by
  obtain ⟨hlt, hbound⟩ := h items.length s (by rw [shaderAt_cons, if_pos rfl, hs])
  rw [boundAt_cons, if_pos rfl] at hlt hbound
  rw [← hbound]
  refine List.map_congr_left fun next hnext => ?_
  rw [shaderAt_cons, if_neg (hlt next hnext).ne]

theorem Linked.tail {item : Item} {items : List Item} (h : Linked (item :: items)) : Linked items := by
  intro place s hs
  have hplace := lt_length_of_shaderAt hs
  obtain ⟨hlt, hbound⟩ := h place s (shaderAt_cons_of_shaderAt hs item)
  rw [boundAt_cons, if_neg hplace.ne] at hlt hbound
  refine ⟨hlt, ?_⟩
  rw [← hbound]
  refine List.map_congr_left fun next hnext => ?_
  rw [shaderAt_cons, if_neg ((hlt next hnext).trans hplace).ne]

/-- A new item keeps all linked if it binds shaders before it. -/
theorem Linked.cons {item : Item} {items : List Item} (h : Linked items)
    (hitem : ∀ s, item.build.shader? = some s →
      item.bound.map (shaderAt items) = s.dependencies.map some) : Linked (item :: items) := by
  -- Places before the new one keep their shaders, so only the places bound at `place` matter.
  have hkeep : ∀ (places : List Nat) (shaders : List Shader),
      places.map (shaderAt items) = shaders.map some →
        (∀ next ∈ places, next < items.length) ∧
          places.map (shaderAt (item :: items)) = shaders.map some := by
    intro places shaders hplaces
    have hlt : ∀ next ∈ places, next < items.length := by
      intro next hnext
      obtain ⟨g, -, hg⟩ := List.mem_map.mp (hplaces ▸ List.mem_map_of_mem hnext)
      exact lt_length_of_shaderAt hg.symm
    refine ⟨hlt, ?_⟩
    rw [← hplaces]
    refine List.map_congr_left fun next hnext => ?_
    rw [shaderAt_cons, if_neg (hlt next hnext).ne]
  intro place s hs
  rw [shaderAt_cons] at hs
  rw [boundAt_cons]
  split at hs
  · rename_i hplace
    subst hplace
    rw [if_pos rfl]
    exact hkeep item.bound s.dependencies (hitem s hs)
  · rename_i hplace
    rw [if_neg hplace]
    obtain ⟨hlt, hbound⟩ := h place s hs
    exact ⟨hlt, (hkeep _ _ hbound).2⟩

/-- A job binds the shaders at the places that it names. -/
theorem linked_lift {s : Session} (h : Linked s.items) (job : Job) : Linked (s.lift job).items := by
  refine h.cons fun shader hshader => ?_
  exact map_eq_of_mapM_eq_some (Build.bind_of_ofJob hshader)

/-! ## Rendering -/

/-- Every text that is kept is the full text of the shader at its place. -/
def Texts.Faithful (texts : Texts) (shaders : Nat → Option Shader) : Prop :=
  ∀ place text, texts place = some text → ∃ s, shaders place = some s ∧ text = s.text

theorem Texts.Faithful.keep {texts : Texts} {shaders : Nat → Option Shader} (h : texts.Faithful shaders)
    {place : Nat} {s : Shader} (hs : shaders place = some s) :
    (texts.keep place s.text).Faithful shaders := by
  intro other text htext
  unfold Texts.keep at htext
  split at htext
  · rename_i hother
    cases htext
    exact ⟨s, hother ▸ hs, rfl⟩
  · exact h other text htext

theorem Texts.Faithful.mono {texts : Texts} {shaders shaders' : Nat → Option Shader}
    (h : texts.Faithful shaders) (hmono : ∀ place s, shaders place = some s → shaders' place = some s) :
    texts.Faithful shaders' := by
  intro place text htext
  obtain ⟨s, hs, htext⟩ := h place text htext
  exact ⟨s, hmono place s hs, htext⟩

/-- A way of rendering gives the full text of a shader at its place, and keeps only full texts. -/
def Renders (shaders : Nat → Option Shader) (render : Nat → Texts → String × Texts) (place : Nat)
    (s : Shader) : Prop :=
  ∀ texts : Texts, texts.Faithful shaders →
    (render place texts).1 = s.text ∧ (render place texts).2.Faithful shaders

/-- Rendering shaders one after another gives what stands before the own text of a shader that binds them. -/
theorem renderEach_eq {shaders : Nat → Option Shader} {render : Nat → Texts → String × Texts}
    {places : List Nat} {bound : List Shader} {at? : Nat → Option Shader}
    (hplaces : places.map at? = bound.map some)
    (hrender : ∀ place s, at? place = some s → Renders shaders render place s)
    {texts : Texts} (htexts : texts.Faithful shaders) :
    (renderEach render places texts).1 = Shader.dependencyText bound ∧
      (renderEach render places texts).2.Faithful shaders := by
  induction places generalizing bound texts with
  | nil =>
      cases bound with
      | nil => exact ⟨rfl, htexts⟩
      | cons first rest => cases hplaces
  | cons place places ih =>
      cases bound with
      | nil => cases hplaces
      | cons first rest =>
          obtain ⟨hfirst, hrest⟩ := List.cons.inj hplaces
          obtain ⟨htext, hkept⟩ := hrender place first hfirst texts htexts
          obtain ⟨htail, hkept⟩ := ih hrest hkept
          refine ⟨?_, hkept⟩
          show (render place texts).1 ++ "\n" ++ _ = _
          rw [htext, htail, Shader.dependencyText]

/-- Rendering at a place gives the full text of the shader there, whichever full texts are kept. -/
theorem renders_renderAt {items : List Item} {shaders : Nat → Option Shader} (hlinked : Linked items)
    (hshaders : ∀ place s, shaderAt items place = some s → shaders place = some s) {place : Nat}
    {s : Shader} (hs : shaderAt items place = some s) : Renders shaders (renderAt items) place s := by
  induction items generalizing place s with
  | nil => cases hs
  | cons item earlier ih =>
      have hearlier : ∀ place s, shaderAt earlier place = some s → Renders shaders (renderAt earlier) place s := by
        intro place s hs
        refine ih hlinked.tail (fun place s hs => ?_) hs
        exact hshaders place s (shaderAt_cons_of_shaderAt hs item)
      have hplace := hshaders place s hs
      rw [shaderAt_cons] at hs
      intro texts htexts
      unfold renderAt
      split at hs
      · rename_i hlast
        rw [if_pos hlast]
        split
        · rename_i text htext
          obtain ⟨s', hs', rfl⟩ := htexts place text htext
          rw [hplace] at hs'
          cases hs'
          exact ⟨rfl, htexts⟩
        · -- Nothing is kept for this shader; what it binds is rendered first.
          obtain ⟨hbefore, hkept⟩ := renderEach_eq (hlinked.head hs) hearlier htexts
          have htext : (renderEach (renderAt earlier) item.bound texts).1 ++ item.ownText = s.text := by
            rw [hbefore, Item.ownText, hs, s.text_eq_append]
            rfl
          dsimp only
          rw [htext]
          exact ⟨rfl, hkept.keep hplace⟩
      · rename_i hlast
        rw [if_neg hlast]
        exact hearlier place s hs texts htexts

/-! ## Calls -/

/-- What holds of a session at all times. -/
structure Coherent (s : Session) : Prop where
  linked : Linked s.items
  faithful : s.texts.Faithful s.shader?

theorem Coherent.lift {s : Session} (h : s.Coherent) (job : Job) : (s.lift job).Coherent where
  linked := linked_lift h.linked job
  faithful := h.faithful.mono fun _ _ hs => shaderAt_cons_of_shaderAt hs _

/-- Rendering gives the full text of the shader. -/
theorem Coherent.render {s : Session} (h : s.Coherent) {place : Nat} {shader : Shader}
    (hs : s.shader? place = some shader) :
    (s.render place).1 = some shader.text ∧ (s.render place).2.Coherent := by
  obtain ⟨htext, hkept⟩ := renders_renderAt h.linked (fun _ _ hs => hs) hs s.texts h.faithful
  unfold Session.render
  rw [hs]
  exact ⟨congrArg some htext, h.linked, hkept⟩

theorem Coherent.render_snd {s : Session} (h : s.Coherent) (place : Nat) : (s.render place).2.Coherent := by
  cases hs : s.shader? place with
  | none =>
      unfold Session.render
      rw [hs]
      exact h
  | some shader => exact (h.render hs).2

theorem link_fst (s : Session) (version : Option Nat) (place : Nat) :
    (s.link version place).1 = (s.render place).1.map ((version.map versionText).getD "" ++ ·) :=
  rfl

theorem Coherent.perform {s : Session} (h : s.Coherent) (call : Call) : (s.perform call).Coherent := by
  cases call with
  | lift job => exact h.lift job
  | render place => exact h.render_snd place
  | link version place => exact h.render_snd place

theorem after_append_singleton (calls : List Call) (call : Call) :
    after (calls ++ [call]) = (after calls).perform call := by
  rw [after, List.foldl_append]
  rfl

theorem coherent_after (calls : List Call) : (after calls).Coherent := by
  induction calls using List.reverseRecOn with
  | nil =>
      refine ⟨fun place s hs => ?_, fun place text htext => ?_⟩
      · cases hs
      · cases htext
  | append_singleton calls call ih =>
      rw [after_append_singleton]
      exact ih.perform call

/-- The job of a call, if the call performs one. -/
def Call.job? : Call → Option Job
  | lift job => some job
  | render _ => none
  | link _ _ => none

theorem items_render (s : Session) (place : Nat) : (s.render place).2.items = s.items := by
  unfold Session.render
  split <;> rfl

theorem builds_lift (s : Session) (job : Job) : (s.lift job).builds = s.builds ++ [Build.ofJob s.builds job] :=
  List.reverse_cons

/-- The jobs of a session give what they give on their own. -/
theorem builds_after (calls : List Call) : (after calls).builds = Build.ofJobs (calls.filterMap Call.job?) := by
  induction calls using List.reverseRecOn with
  | nil => rfl
  | append_singleton calls call ih =>
      have hrender : ∀ place, ((after calls).render place).2.builds = (after calls).builds := by
        intro place
        rw [builds, items_render, builds]
      rw [after_append_singleton, List.filterMap_append]
      cases call with
      | lift job =>
          show _ = Build.ofJobs (_ ++ [job])
          rw [Build.ofJobs_append_singleton, ← ih]
          exact builds_lift _ job
      | render place =>
          show _ = Build.ofJobs (_ ++ [])
          rw [List.append_nil, ← ih]
          exact hrender place
      | link version place =>
          show _ = Build.ofJobs (_ ++ [])
          rw [List.append_nil, ← ih]
          exact hrender place

/-! ## Paths -/

/-- The place to which a path leads from a place.  A path says for each step which of the bound shaders it goes to, by
position, so that a shader which is bound twice is reached by two paths. -/
def follow (s : Session) (place : Nat) : List Nat → Option Nat
  | [] => some place
  | position :: path => (boundAt s.items place)[position]?.bind fun next => s.follow next path

/-- The place to which a path leads that starts at one of the given places. -/
def followFrom (s : Session) (places : List Nat) : List Nat → Option Nat
  | [] => none
  | position :: path => places[position]?.bind fun next => s.follow next path

section followFrom

variable {s : Session} {places rest : List Nat} {position next : Nat}

theorem followFrom_eq_none (h : places.length ≤ position) : s.followFrom places (position :: rest) = none := by
  rw [followFrom, List.getElem?_eq_none h, Option.bind_none]

theorem followFrom_concat_of_lt (h : position < places.length) :
    s.followFrom (places ++ [next]) (position :: rest) = s.followFrom places (position :: rest) := by
  rw [followFrom, followFrom, List.getElem?_append_left h]

theorem followFrom_concat_length :
    s.followFrom (places ++ [next]) (places.length :: rest) = s.follow next rest := by
  rw [followFrom, List.getElem?_concat_length, Option.bind_some]

end followFrom

/-- The order in which a depth-first traversal leaves the shaders: a path comes after all paths that go on from its
end, and of two paths that part, the one that takes the earlier binding comes first. -/
inductive LeftBefore : List Nat → List Nat → Prop
  | beyond (position : Nat) (path : List Nat) : LeftBefore (position :: path) []
  | apart {position position' : Nat} (h : position < position') (path path' : List Nat) :
      LeftBefore (position :: path) (position' :: path')
  | along (position : Nat) {path path' : List Nat} (h : LeftBefore path path') :
      LeftBefore (position :: path) (position :: path')

theorem LeftBefore.ne {path path' : List Nat} (h : LeftBefore path path') : path ≠ path' := by
  induction h with
  | beyond position path => exact List.cons_ne_nil position path
  | apart hlt path path' =>
      intro heq
      exact hlt.ne (List.cons.inj heq).1
  | along position h ih =>
      intro heq
      exact ih (List.cons.inj heq).2

/-- The paths that lead somewhere, each once and in post-order, and the places to which they lead. -/
structure Enumerates (ends : List Nat → Option Nat) (paths : List (List Nat)) (places : List Nat) : Prop where
  mem_iff : ∀ path, path ∈ paths ↔ (ends path).isSome
  ordered : paths.Pairwise LeftBefore
  map_ends : paths.map ends = places.map some

namespace Enumerates

theorem nil (s : Session) : Enumerates (s.followFrom []) [] [] where
  mem_iff path := by cases path <;> simp [followFrom]
  ordered := List.Pairwise.nil
  map_ends := rfl

/-- A path through some places starts with the position of one of them. -/
theorem exists_position {s : Session} {places : List Nat} {paths : List (List Nat)} {ends : List Nat}
    (h : Enumerates (s.followFrom places) paths ends) {path : List Nat} (hmem : path ∈ paths) :
    ∃ position rest, path = position :: rest ∧ position < places.length := by
  have hsome := (h.mem_iff path).mp hmem
  cases path with
  | nil => cases hsome
  | cons position rest =>
      refine ⟨position, rest, rfl, ?_⟩
      by_contra hge
      rw [followFrom_eq_none (Nat.le_of_not_lt hge)] at hsome
      cases hsome

/-- The paths through the last of some places come after those through the others. -/
theorem concat {s : Session} {places : List Nat} {next : Nat} {paths paths' : List (List Nat)}
    {ends ends' : List Nat} (h : Enumerates (s.followFrom places) paths ends)
    (h' : Enumerates (s.follow next) paths' ends') :
    Enumerates (s.followFrom (places ++ [next])) (paths ++ paths'.map (places.length :: ·))
      (ends ++ ends') := by
  refine ⟨fun path => ?_, ?_, ?_⟩
  · rw [List.mem_append, List.mem_map, h.mem_iff]
    cases path with
    | nil => simp [followFrom]
    | cons position rest =>
        -- The path goes through an earlier place, through the last one, or nowhere.
        rcases Nat.lt_trichotomy position places.length with hlt | rfl | hgt
        · rw [followFrom_concat_of_lt hlt]
          simp [hlt.ne']
        · rw [followFrom_concat_length, followFrom_eq_none le_rfl]
          simp [h'.mem_iff]
        · rw [followFrom_eq_none hgt.le, followFrom_eq_none (by simp; omega)]
          simp [hgt.ne]
  · refine List.pairwise_append.mpr ⟨h.ordered, ?_, ?_⟩
    · exact List.pairwise_map.mpr (h'.ordered.imp fun hleft => .along _ hleft)
    · intro path hpath path' hpath'
      obtain ⟨position, rest, rfl, hlt⟩ := h.exists_position hpath
      obtain ⟨rest', -, rfl⟩ := List.mem_map.mp hpath'
      exact .apart hlt rest rest'
  · rw [List.map_append, List.map_append, ← h.map_ends, ← h'.map_ends, List.map_map]
    congr 1
    · refine List.map_congr_left fun path hpath => ?_
      obtain ⟨position, rest, rfl, hlt⟩ := h.exists_position hpath
      exact followFrom_concat_of_lt hlt
    · exact List.map_congr_left fun rest _ => followFrom_concat_length

/-- A shader is left after all that it binds. -/
theorem finish {s : Session} {place : Nat} {paths : List (List Nat)} {ends : List Nat}
    (h : Enumerates (s.followFrom (boundAt s.items place)) paths ends) :
    Enumerates (s.follow place) (paths ++ [[]]) (ends ++ [place]) := by
  have hne : [] ∉ paths := by
    intro hmem
    cases (h.mem_iff []).mp hmem
  have hsame : ∀ path, path ≠ [] → s.follow place path = s.followFrom (boundAt s.items place) path := by
    intro path hpath
    cases path with
    | nil => exact absurd rfl hpath
    | cons position rest => rfl
  refine ⟨fun path => ?_, ?_, ?_⟩
  · by_cases hpath : path = []
    · subst hpath
      simp [follow]
    · rw [hsame path hpath, ← h.mem_iff]
      simp [hpath]
  · refine List.pairwise_append.mpr ⟨h.ordered, List.pairwise_singleton _ _, ?_⟩
    intro path hpath path' hpath'
    rw [List.mem_singleton.mp hpath']
    cases path with
    | nil => exact absurd hpath hne
    | cons position rest => exact .beyond position rest
  · rw [List.map_append, List.map_append, ← h.map_ends]
    congr 1
    exact List.map_congr_left fun path hpath => hsame path fun heq => hne (heq ▸ hpath)

/-- A place comes up as many times as there are paths to it. -/
theorem count_eq {ends : List Nat → Option Nat} {paths : List (List Nat)} {places : List Nat}
    (h : Enumerates ends paths places) (other : Nat) :
    places.count other = {path | ends path = some other}.ncard := by
  have hset : {path | ends path = some other} =
      ((paths.filter (ends · == some other)).toFinset : Set (List Nat)) := by
    ext path
    simp only [Set.mem_ofPred_eq, List.coe_toFinset, List.mem_filter, beq_iff_eq, h.mem_iff]
    refine ⟨fun hpath => ⟨?_, hpath⟩, And.right⟩
    rw [hpath]
    rfl
  have hnodup : paths.Nodup := h.ordered.imp LeftBefore.ne
  calc places.count other
      = (places.map some).count (some other) :=
        (List.count_map_of_injective places some (Option.some_injective Nat) other).symm
    _ = (paths.filter (ends · == some other)).length := by
        rw [← h.map_ends, List.count, List.countP_map, List.countP_eq_length_filter]
        rfl
    _ = {path | ends path = some other}.ncard := by
        rw [hset, Set.ncard_coe_finset, List.toFinset_card_of_nodup (hnodup.filter _)]

end Enumerates

/-- The pieces of the shader at a place; none if there is no shader. -/
def piecesAt (s : Session) (place : Nat) : List Shader :=
  ((s.shader? place).map Shader.pieces).getD []

/-- The paths through some places, one after another, if there are such for each place. -/
theorem exists_enumerates_followFrom {s : Session} {places : List Nat}
    (h : ∀ next ∈ places, ∃ paths ends, Enumerates (s.follow next) paths ends ∧
      ends.map s.shader? = (s.piecesAt next).map some) :
    ∃ paths ends, Enumerates (s.followFrom places) paths ends ∧
      ends.map s.shader? = (places.flatMap s.piecesAt).map some := by
  induction places using List.reverseRecOn with
  | nil => exact ⟨[], [], .nil s, rfl⟩
  | append_singleton places next ih =>
      obtain ⟨paths, ends, hpaths, hends⟩ := ih fun place hmem => h place (List.mem_append_left _ hmem)
      obtain ⟨paths', ends', hpaths', hends'⟩ := h next (List.mem_append_right _ (List.mem_singleton_self next))
      refine ⟨_, _, hpaths.concat hpaths', ?_⟩
      rw [List.map_append, hends, hends', List.flatMap_append, List.map_append, List.flatMap_singleton]

/-- What is bound at a place gives the pieces of what the shader there binds. -/
theorem flatMap_piecesAt {s : Session} {places : List Nat} {bound : List Shader}
    (h : places.map s.shader? = bound.map some) : places.flatMap s.piecesAt = bound.flatMap Shader.pieces := by
  have hpieces : places.flatMap s.piecesAt =
      (places.map s.shader?).flatMap fun shader => (shader.map Shader.pieces).getD [] := by
    rw [List.flatMap_map]
    rfl
  rw [hpieces, h, List.flatMap_map]
  rfl

/-- The paths from a shader, in post-order, lead to its pieces. -/
theorem Coherent.exists_enumerates {s : Session} (h : s.Coherent) (place : Nat) {shader : Shader}
    (hs : s.shader? place = some shader) :
    ∃ paths ends, Enumerates (s.follow place) paths ends ∧ ends.map s.shader? = shader.pieces.map some := by
  -- What is bound at a place is at smaller places.
  induction place using Nat.strong_induction_on generalizing shader with
  | _ place ih =>
      obtain ⟨hlt, hbound⟩ := h.linked place shader hs
      have hnext : ∀ next ∈ boundAt s.items place, ∃ paths ends, Enumerates (s.follow next) paths ends ∧
          ends.map s.shader? = (s.piecesAt next).map some := by
        intro next hmem
        obtain ⟨g, -, hg⟩ := List.mem_map.mp (hbound ▸ List.mem_map_of_mem hmem)
        obtain ⟨paths, ends, hpaths, hends⟩ := ih next (hlt next hmem) hg.symm
        refine ⟨paths, ends, hpaths, ?_⟩
        rw [hends, piecesAt, shader?, ← hg]
        rfl
      obtain ⟨paths, ends, hpaths, hends⟩ := exists_enumerates_followFrom hnext
      refine ⟨_, _, hpaths.finish, ?_⟩
      rw [List.map_append, hends, flatMap_piecesAt hbound, shader.pieces_eq, List.map_append,
        List.map_singleton, hs, List.map_singleton]

/-- After any calls, the full text of a shader is made of the own texts at the ends of all paths from it, in
post-order.  The shader comes last, and each shader comes up as many times as there are paths to it.  Linking puts the
version line before that text, if a version is given. -/
theorem render_after (calls : List Call) {place : Nat} {shader : Shader}
    (h : (after calls).shader? place = some shader) :
    (boundAt (after calls).items place).map (after calls).shader? = shader.dependencies.map some ∧
      ∃ (paths : List (List Nat)) (places : List Nat) (pieces : List Shader),
        Enumerates ((after calls).follow place) paths places ∧
        places.map (after calls).shader? = pieces.map some ∧
        pieces.getLast? = some shader ∧
        (∀ other, places.count other = {path | (after calls).follow place path = some other}.ncard) ∧
        ((after calls).render place).1 = some ("\n".intercalate (pieces.map Shader.ownText)) ∧
        ((after calls).link none place).1 = some ("\n".intercalate (pieces.map Shader.ownText)) ∧
        ∀ version, ((after calls).link (some version) place).1 =
          some ("#version " ++ toString version ++ "\n" ++
            "\n".intercalate (pieces.map Shader.ownText)) := by
  have hcoherent := coherent_after calls
  obtain ⟨hrender, -⟩ := hcoherent.render h
  rw [shader.text_eq_intercalate] at hrender
  have hlink : ∀ version, ((after calls).link version place).1 =
      some ((version.map versionText).getD "" ++ "\n".intercalate (shader.pieces.map Shader.ownText)) := by
    intro version
    rw [link_fst, hrender, Option.map_some]
  obtain ⟨paths, places, hpaths, hplaces⟩ := hcoherent.exists_enumerates place h
  refine ⟨(hcoherent.linked place shader h).2, paths, places, shader.pieces, hpaths, hplaces, ?_,
    hpaths.count_eq, hrender, ?_, fun version => hlink (some version)⟩
  · rw [shader.pieces_eq, List.getLast?_concat]
  · rw [hlink none, Option.map_none, Option.getD_none, String.empty_append]

/-- Performs the jobs of `Build.sharing` and asks for two texts after each: before there is a shader at the place,
when there is one, and when its text is kept. -/
def sharingCalls : List Call :=
  Build.sharing.flatMap fun job => [.lift job, .render 1, .link (some 330) 2]

theorem render_after_sharing :
    ∃ shader, (after sharingCalls).shader? 3 = some shader ∧ shader.name = "top" ∧
      ∃ (places : List Nat) (pieces : List Shader), places.map (after sharingCalls).shader? = pieces.map some ∧
        places.count 0 = {path | (after sharingCalls).follow 3 path = some 0}.ncard ∧
        pieces.getLast? = some shader ∧
        ((after sharingCalls).link (some 450) 3).1 =
          some ("#version " ++ toString 450 ++ "\n" ++ "\n".intercalate (pieces.map Shader.ownText)) := by
  have hname : ((after sharingCalls).shader? 3).map Shader.name = some "top" := by decide +kernel
  obtain ⟨shader, hshader, hname⟩ := Option.map_eq_some_iff.mp hname
  obtain ⟨-, paths, places, pieces, -, hpieces, hlast, hcount, -, -, hlink⟩ :=
    render_after sharingCalls hshader
  exact ⟨shader, hshader, hname, places, pieces, hpieces, hcount 0, hlast, hlink 450⟩

end Session

end ShaderLift
