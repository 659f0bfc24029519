import ThemeMarkup.Display
import ThemeMarkup.Proofs.Operation

namespace ThemeMarkup

/-- What is known of a package that renders themes: one that it remembers is used again only after
it was asked whether this is current, and what goes wrong in asking or in loading is passed on. -/
structure Templates.Laws (templates : Templates) : Prop where
  kept_fresh : ∀ name, templates.kept templates.fresh name = none
  kept_of_get : ∀ loader name memory store other loaded,
    templates.kept (templates.get loader name memory store).2.1 other = some loaded →
      templates.kept memory other = some loaded ∨
        other = name ∧ (loader.load name store).1 = .ok loaded
  get_of_isCurrent : ∀ loader name memory store loaded e,
    templates.kept memory name = some loaded → loader.isCurrent loaded store = .error e →
      ∃ after, templates.get loader name memory store = (.error e, after, store)
  get_of_load : ∀ loader name memory store left e,
    (∀ loaded, templates.kept memory name = some loaded →
      loader.isCurrent loaded store = .ok false) →
    loader.load name store = (.error e, left) →
      ∃ after, templates.get loader name memory store = (.error e, after, left)

namespace Templates

/-- The theme that a text includes, if it is an inclusion and nothing else. -/
def includedName? (text : Text) : Option Text :=
  match Text.after? id "\x7b% include \"" text with
  | none => none
  | some rest =>
    match Text.cut? "\" %\x7d" rest with
    | some (name, []) => some name
    | _ => none

def loadInto (loader : Loader) (name : Text) (memory : Table Loaded) (store : Store) :
    Except Error Loaded × Table Loaded × Store :=
  match loader.load name store with
  | (.ok loaded, after) => (.ok loaded, memory.insert name loaded, after)
  | (.error e, after) => (.error e, memory, after)

/-- Gets a theme that is remembered if it is current, and loads it if not. -/
def getOrLoad (loader : Loader) (name : Text) (memory : Table Loaded) (store : Store) :
    Except Error Loaded × Table Loaded × Store :=
  match memory.get? name with
  | none => loadInto loader name memory store
  | some loaded =>
    match loader.isCurrent loaded store with
    | .ok true => (.ok loaded, memory, store)
    | .ok false => loadInto loader name memory store
    | .error e => (.error e, memory, store)

variable {loader : Loader} {name other : Text} {memory : Table Loaded} {store : Store}
  {loaded : Loaded}

theorem get?_loadInto (h : (loadInto loader name memory store).2.1.get? other = some loaded) :
    memory.get? other = some loaded ∨ other = name ∧ (loader.load name store).1 = .ok loaded := by
  rw [loadInto] at h
  split at h
  · next new after hload =>
    rw [Table.get?_insert] at h
    split at h
    · next he =>
      rw [hload, ← Option.some.inj h]
      exact .inr ⟨he, rfl⟩
    · exact .inl h
  · exact .inl h

theorem get?_getOrLoad (h : (getOrLoad loader name memory store).2.1.get? other = some loaded) :
    memory.get? other = some loaded ∨ other = name ∧ (loader.load name store).1 = .ok loaded := by
  rw [getOrLoad] at h
  split at h
  · exact get?_loadInto h
  · split at h
    · exact .inl h
    · exact get?_loadInto h
    · exact .inl h

theorem getOrLoad_of_isCurrent {e : Error} (hget : memory.get? name = some loaded)
    (hcurrent : loader.isCurrent loaded store = .error e) :
    getOrLoad loader name memory store = (.error e, memory, store) := by
  rw [getOrLoad, hget]
  dsimp only
  rw [hcurrent]

theorem getOrLoad_of_load {left : Store} {e : Error}
    (hcurrent : ∀ loaded, memory.get? name = some loaded →
      loader.isCurrent loaded store = .ok false)
    (hload : loader.load name store = (.error e, left)) :
    getOrLoad loader name memory store = (.error e, memory, left) := by
  have hreload : loadInto loader name memory store = (.error e, memory, left) := by
    rw [loadInto, hload]
  rw [getOrLoad]
  split
  · exact hreload
  · next loaded hget =>
    rw [hcurrent loaded hget]
    exact hreload

/-- Templates that are one inclusion or plain text. -/
def single : Templates where
  Memory := Table Loaded
  fresh := ∅
  kept := Table.get?
  get := getOrLoad
  render loaded _ :=
    match includedName? loaded.text with
    | none => .done (.ok loaded.text)
    | some name => .ask name fun included => .done (included.map Loaded.text)

theorem laws_single : single.Laws where
  kept_fresh _ := rfl
  kept_of_get _ _ _ _ _ _ := get?_getOrLoad
  get_of_isCurrent _ _ memory _ _ _ hget hcurrent := ⟨memory, getOrLoad_of_isCurrent hget hcurrent⟩
  get_of_load _ _ memory _ _ _ hcurrent hload := ⟨memory, getOrLoad_of_load hcurrent hload⟩

end Templates

variable {templates : Templates}

/-- Whether an operation, also one that fails, leaves a session with some property if it finds one.
-/
def Display.Keeps {α : Type} (P : Session templates → Prop) (action : Display templates α) : Prop :=
  ∀ session, P session → P (action session).2

namespace Rendering

variable {get : Text → Display templates Loaded} {rendering : Rendering}
  {session after : Session templates} {other : Text}

@[simp] theorem run_done (outcome : Except Error Text) (session : Session templates) :
    (done outcome).run get session = (outcome, session) := by
  rw [run, Operation.lift_apply]

@[simp] theorem run_ask (name : Text) (next : Except Error Loaded → Rendering)
    (session : Session templates) :
    (ask name next).run get session =
      (next (get name session).1).run get (get name session).2 := by
  rw [run]
  rfl

theorem keeps_run {P : Session templates → Prop} (h : ∀ name, Display.Keeps P (get name))
    (rendering : Rendering) : Display.Keeps P (rendering.run get) := by
  induction rendering with
  | done outcome =>
    intro session hs
    rwa [run_done]
  | ask name next ih =>
    intro session hs
    rw [run_ask]
    exact ih _ _ (h name session hs)

/-- Rendering comes to an inclusion of a theme, which fails it if this theme cannot be got: what is
asked for before is got, or its failure is passed over. -/
inductive Comes (get : Text → Display templates Loaded) :
    Rendering → Session templates → Text → Session templates → Prop where
  | here {other : Text} {next : Except Error Loaded → Rendering} {session : Session templates}
      (fails : ∀ e, next (.error e) = .done (.error e)) :
      Comes get (.ask other next) session other session
  | later {name other : Text} {next : Except Error Loaded → Rendering}
      {session after : Session templates}
      (comes : Comes get (next (get name session).1) (get name session).2 other after) :
      Comes get (.ask name next) session other after

theorem Comes.run_eq {e : Error} (h : Comes get rendering session other after)
    (he : (get other after).1 = .error e) :
    rendering.run get session = (.error e, (get other after).2) := by
  induction h with
  | here fails => rw [run_ask, he, fails, run_done]
  | later _ ih => rw [run_ask, ih he]

theorem Comes.keeps {P : Session templates → Prop} (h : Comes get rendering session other after)
    (hget : ∀ name, Display.Keeps P (get name)) (hs : P session) : P after := by
  induction h with
  | here _ => exact hs
  | later _ ih => exact ih (hget _ _ hs)

end Rendering

namespace View

theorem display_apply (view : View) (name : Text) (given : Table Data) (ending : Option Text)
    (session : Session templates) :
    view.display name given ending session =
      match view.find session.store name ending with
      | .error e => (.error e, session.setVariables given)
      | .ok file =>
        match view.template file.toText (session.setVariables given) with
        | (.error e, after) => (.error e, after)
        | (.ok loaded, after) =>
          (templates.render loaded after.bindings).run view.template after := by
  simp only [display, Operation.bind_apply, Operation.modify_apply, Operation.get_apply,
    Operation.lift_apply]
  rw [show (session.setVariables given).store = session.store from rfl]
  cases view.find session.store name ending with
  | error e => rfl
  | ok file =>
    dsimp only
    obtain ⟨outcome, after⟩ := view.template file.toText (session.setVariables given)
    cases outcome <;> rfl

theorem keeps_display {view : View} {P : Session templates → Prop}
    (h : ∀ name, Display.Keeps P (view.template name))
    (hb : ∀ session bindings, P session → P { session with bindings }) (name : Text)
    (given : Table Data) (ending : Option Text) :
    Display.Keeps P (view.display name given ending) := by
  intro session hs
  have hset : P (session.setVariables given) := hb session _ hs
  rw [display_apply]
  split
  · exact hset
  · next file _ =>
    have hgot := h file.toText _ hset
    split
    · next e after he => rwa [he] at hgot
    · next loaded after hl =>
      rw [hl] at hgot
      exact Rendering.keeps_run h _ after hgot

end View

theorem Session.get?_deleteVariables (names : List Text) (session : Session templates)
    (name : Text) :
    (session.deleteVariables names).bindings.get? name =
      if name ∈ names then none else session.bindings.get? name := by
  rw [deleteVariables]
  dsimp only
  generalize session.bindings = bindings
  induction names generalizing bindings with
  | nil => rfl
  | cons first names ih =>
    rw [List.foldl_cons, ih, Table.get?_erase]
    grind

end ThemeMarkup
