import ThemeMarkup.Config.Check
import ThemeMarkup.Store
import ThemeMarkup.Yaml.Document

namespace ThemeMarkup.Config

def findFrom? (store : Store) (directory : Path) : Option Path :=
  (directory.withParents.map fun place => place.join ⟨[], [fileName]⟩).find? store.present

def here (store : Store) : Path :=
  ⟨['/'], store.workingDirectory⟩

/-- The nearest configuration file from a directory, or from the working directory if none is given.
-/
def find? (store : Store) (start : Option Path := none) : Option Path :=
  findFrom? store (start.getD (here store))

/-- The error of reading a configuration file. -/
def readError : Error → Error
  | .utf8 fault => .utf8 (if fault.reason = .ending then { fault with offset := 0 } else fault)
  | e => e

def readText (store : Store) (path : Path) : Except Error Text :=
  if store.present path then (store.read path).mapError readError
  else .error (.config (.missingFile path.toText))

/-- The entries of the mapping in the text of the configuration file at a path; a file that holds
nothing has none. -/
def entriesOf (path : Path) (text : Text) : Except Error (List (Data × Data)) :=
  match Yaml.parse text with
  | .error .malformed => .error (.config (.malformed path.toText))
  | .error fault => .error (.yaml fault)
  | .ok data =>
    if data.isBlank then .ok []
    else
      match data with
      | .map entries => .ok entries
      | _ => .error (.config (.notMapping path.toText))

def load (store : Store) (path : Path) : Except Error Config := do
  let text ← readText store path
  let entries ← entriesOf path text
  match ofEntries entries with
  | .ok config => return config.resolve path.parent
  | .error (.problems problems) => throw (.config (.invalid path.toText problems))
  | .error e => throw e

/-- The configuration of a file if one is given, else of the nearest, else the default one. -/
def get (store : Store) (path : Option Path := none) : Except Error Config :=
  match path.or (find? store) with
  | some path => load store path
  | none => .ok {}

end ThemeMarkup.Config
