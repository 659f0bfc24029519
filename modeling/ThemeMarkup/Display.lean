import ThemeMarkup.View

namespace ThemeMarkup

/-- How compiled themes are loaded by name, and whether one that was loaded may be used again. -/
structure Loader where
  load : Text → Action Loaded
  isCurrent : Loaded → Store → Except Error Bool

/-- What rendering comes to: its outcome, or a theme that it asks for and how it goes on then. -/
inductive Rendering where
  | done (outcome : Except Error Text)
  | ask (name : Text) (next : Except Error Loaded → Rendering)

/-- A package that renders compiled themes and remembers those that it has loaded. -/
structure Templates where
  Memory : Type
  fresh : Memory
  /-- The theme that is remembered under a name. -/
  kept : Memory → Text → Option Loaded
  get : Loader → Text → Memory → Store → Except Error Loaded × Memory × Store
  render : Loaded → Table Data → Rendering

/-- What lasts between displays. -/
structure Session (templates : Templates) where
  store : Store := {}
  bindings : Table Data := ∅
  memory : templates.Memory := templates.fresh

abbrev Display (templates : Templates) := ExceptT Error (StateM (Session templates))

variable {templates : Templates}

namespace Session

def onStore {α : Type} (action : Action α) : Display templates α := fun session =>
  let (outcome, store) := action session.store
  (outcome, { session with store })

def setVariables (given : Table Data) (session : Session templates) : Session templates :=
  { session with bindings := session.bindings.union given }

def deleteVariables (names : List Text) (session : Session templates) : Session templates :=
  { session with bindings := names.foldl Table.erase session.bindings }

def clearVariables (session : Session templates) : Session templates :=
  { session with bindings := ∅ }

end Session

/-- Follows rendering to its outcome, getting the themes that it asks for. -/
def Rendering.run (get : Text → Display templates Loaded) : Rendering → Display templates Text
  | .done outcome => liftM outcome
  | .ask name next => fun session =>
    let (outcome, session) := get name session
    (next outcome).run get session

namespace View

def loader (view : View) : Loader where
  load := view.load
  isCurrent := Loaded.isCurrent

/-- Gets a compiled theme by its name, from the package that renders it. -/
def template (view : View) (name : Text) : Display templates Loaded := fun session =>
  let (outcome, memory, store) := templates.get view.loader name session.memory session.store
  (outcome, { session with store, memory })

/-- Sets variables and displays a theme. The variables stay set if displaying fails. -/
def display (view : View) (name : Text) (given : Table Data := ∅) (ending : Option Text := none) :
    Display templates Text := do
  modify (Session.setVariables given)
  let file ← view.find (← get).store name ending
  let loaded ← view.template file.toText
  (templates.render loaded (← get).bindings).run view.template

end View

end ThemeMarkup
