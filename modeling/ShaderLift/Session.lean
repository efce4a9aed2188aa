import ShaderLift.Program

/-!
# Sessions

A session performs jobs and makes the full texts of the shaders that they give, in any order.  A full text is made
when it is first asked for and is kept from then on.  Shaders are known by the places of their jobs, so that a text
which is kept for one shader serves all the shaders that bind it.
-/

namespace ShaderLift

namespace Session

/-- What became of a job, and the places of the shaders that it binds. -/
structure Item where
  build : Build
  bound : List Nat

/-- The own text of the shader that the job gave; no text if it gave none. -/
def Item.ownText (item : Item) : String :=
  (item.build.shader?.map Shader.ownText).getD ""

/-- The shader at a place.  The newest item comes first, so the place of an item is the number of items after it. -/
def shaderAt (items : List Item) (place : Nat) : Option Shader :=
  (items.map Item.build).reverse[place]?.bind Build.shader?

/-- The full texts that are kept, by place. -/
def Texts := Nat → Option String

/-- Keeps a full text. -/
def Texts.keep (texts : Texts) (place : Nat) (text : String) : Texts :=
  fun other => if other = place then some text else texts other

/-- Makes full texts in order, each followed by a newline. -/
def renderEach (render : Nat → Texts → String × Texts) : List Nat → Texts → String × Texts
  | [], texts => ("", texts)
  | place :: places, texts =>
      let (text, texts) := render place texts
      let (rest, texts) := renderEach render places texts
      (text ++ "\n" ++ rest, texts)

/-- The full text of the shader at a place: the one that is kept, or else one made from the full texts of the shaders
that it binds, which is then kept. -/
def renderAt : List Item → Nat → Texts → String × Texts
  | [], _, texts => ("", texts)
  | item :: earlier, place, texts =>
      if place = earlier.length then
        match texts place with
        | some text => (text, texts)
        | none =>
            let (before, texts) := renderEach (renderAt earlier) item.bound texts
            let text := before ++ item.ownText
            (text, texts.keep place text)
      else renderAt earlier place texts

end Session

/-- The jobs performed so far, the newest first, and the full texts that are kept. -/
structure Session where
  items : List Session.Item := []
  texts : Session.Texts := fun _ => none

namespace Session

/-- What became of the jobs, in their order. -/
def builds (s : Session) : List Build :=
  (s.items.map Item.build).reverse

/-- The shader at a place, if there is one. -/
def shader? (s : Session) (place : Nat) : Option Shader :=
  shaderAt s.items place

/-- Performs a job.  Its place is the number of jobs before it, and no text is kept for it yet. -/
def lift (s : Session) (job : Job) : Session :=
  { s with items := ⟨Build.ofJob s.builds job, job.bind⟩ :: s.items }

/-- The full text of the shader at a place, if there is one. -/
def render (s : Session) (place : Nat) : Option String × Session :=
  match s.shader? place with
  | none => (none, s)
  | some _ =>
      let (text, texts) := renderAt s.items place s.texts
      (some text, { s with texts })

/-- The full text of the shader at a place under a version line, if a version is given. -/
def link (s : Session) (version : Option Nat) (place : Nat) : Option String × Session :=
  let (text, s) := s.render place
  (text.map ((version.map versionText).getD "" ++ ·), s)

/-- Something that a session can be asked to do. -/
inductive Call where
  | lift (job : Job)
  | render (place : Nat)
  | link (version : Option Nat) (place : Nat)

/-- The session after a call. -/
def perform (s : Session) : Call → Session
  | .lift job => s.lift job
  | .render place => (s.render place).2
  | .link version place => (s.link version place).2

/-- The session after calls, made in order from the start. -/
def after (calls : List Call) : Session :=
  calls.foldl perform {}

end Session

end ShaderLift
