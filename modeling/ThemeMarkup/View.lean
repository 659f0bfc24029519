import ThemeMarkup.Cache
import ThemeMarkup.Config.Engine
import ThemeMarkup.Data

namespace ThemeMarkup

/-- An engine and where it finds themes. -/
structure View where
  engine : Engine
  config : ViewConfig := {}

/-- A compiled theme as it was read from its cache file. -/
structure Loaded where
  file : Path
  cache : Path
  /-- When the cache file was last changed. -/
  modified : Int
  text : Text
  deriving DecidableEq, Repr

/-- Whether a loaded theme is what its cache holds, and the cache is not stale. -/
def Loaded.isCurrent (loaded : Loaded) (store : Store) : Except Error Bool := do
  if ← Cache.isStale store loaded.file loaded.cache then return false
  return (← store.timeOf loaded.cache) = loaded.modified

namespace View

def ofConfig [Marker.Serials] (config : Config) : View where
  engine := config.engine
  config := config.view

/-- The path that a theme name stands for. A name with a suffix is taken as it is; to any other the
given ending is added, or else the suffix of theme files. -/
def pathOf (view : View) (name : Text) (ending : Option Text := none) : Except Error Path :=
  let name := Text.strip name
  let path := Path.ofText name
  match view.config.themePath with
  | none => if path.suffix = [] then .error (.config .noThemePath) else .ok path
  | some themes =>
    if path.suffix = [] then
      let ending := (ending.filter (· ≠ [])).getD view.config.suffix
      .ok (themes.join (.ofText (name ++ ending)))
    else .ok (themes.join path)

/-- The file of a theme, given by its path or its name. -/
def find (view : View) (store : Store) (name : Text) (ending : Option Text := none) :
    Except Error Path :=
  if store.isFile (.ofText name) then .ok (.ofText name)
  else do
    let path ← view.pathOf name ending
    if store.isFile path then return path
    throw (.missingSource path.toText)

def cacheOf (view : View) (store : Store) (file : Path) : Path :=
  Cache.pathFor store.workingDirectory file view.config.cachePath

/-- Compiles a theme file into its cache file if that is stale. -/
def compile (view : View) (file : Path) : Action Path := do
  let store ← get
  let cache := view.cacheOf store file
  if ← Cache.isStale store file cache then
    let _ ← Cache.compileFile view.engine file (some cache)
  return cache

/-- The file of a theme that is to be loaded, a missing one being reported by its name. -/
def findToLoad (view : View) (store : Store) (name : Text) : Except Error Path :=
  match view.find store name with
  | .ok path => .ok path
  | .error (.missingSource _) => .error (.missingTheme name)
  | .error (.config _) => .error (.missingTheme name)
  | .error e => .error e

/-- The text of a cache file without its first line, which is the header. -/
def withoutHeader (text : Text) : Text :=
  (text.dropWhile (· ≠ '\n')).tail

def load (view : View) (name : Text) : Action Loaded := do
  let file ← view.findToLoad (← get) name
  let cache ← view.compile file
  let store ← get
  let modified ← store.timeOf cache
  let text ← store.read cache
  return { file, cache, modified, text := withoutHeader text }

end View

end ThemeMarkup
