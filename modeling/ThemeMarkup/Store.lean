import ThemeMarkup.Error
import ThemeMarkup.Path
import ThemeMarkup.Table

namespace ThemeMarkup

/-- A file: its octets and the time of its last change. -/
structure File where
  octets : Octets
  modified : Int
  deriving DecidableEq, Repr

/-- The names that lead from the root to a file or directory. -/
abbrev Location := List Text

/-- Files and directories. -/
structure Store where
  workingDirectory : Location := []
  files : List (Location × File) := []
  directories : List Location := []
  /-- When the entries of a directory last changed. -/
  directoryTimes : Location → Int := fun _ => 0
  /-- The time at which the next cache file is written. -/
  clock : Int := 0
  /-- The time as cache files show it. -/
  stamp : Text := []

abbrev Action := ExceptT Error (StateM Store)

namespace Store

def file? (store : Store) (location : Location) : Option File :=
  store.files.lookup location

def isDirectoryAt (store : Store) (location : Location) : Bool :=
  location = [] || store.directories.contains location

/-- Where some names lead from a location; every location on the way must be a directory. -/
def walk (store : Store) (location : Location) : List Text → Option Location
  | [] => some location
  | part :: parts =>
    if store.isDirectoryAt location then
      store.walk (if part = ['.', '.'] then location.dropLast else location ++ [part]) parts
    else none

def base (store : Store) (path : Path) : Location :=
  if path.isAbsolute then [] else store.workingDirectory

/-- The location that a path leads to, whether or not something is there. -/
def locate? (store : Store) (path : Path) : Option Location :=
  store.walk (store.base path) path.parts

def fileAt? (store : Store) (path : Path) : Option File :=
  (store.locate? path).bind store.file?

def isFile (store : Store) (path : Path) : Bool :=
  (store.fileAt? path).isSome

def isDirectory (store : Store) (path : Path) : Bool :=
  (store.locate? path).any store.isDirectoryAt

def present (store : Store) (path : Path) : Bool :=
  store.isFile path || store.isDirectory path

/-- Whether names lead from a location through a file, which no name can follow. -/
def passesFile (store : Store) (location : Location) : List Text → Bool
  | [] => false
  | part :: parts =>
    if store.isDirectoryAt location then
      store.passesFile (if part = ['.', '.'] then location.dropLast else location ++ [part]) parts
    else (store.file? location).isSome

def absence (store : Store) (path : Path) : Error :=
  if store.isDirectory path then .isDirectory path.toText
  else if store.passesFile (store.base path) path.parts then .notDirectory path.toText
  else .missingFile path.toText

/-- The file that a path leads to, or why there is none. -/
def find (store : Store) (path : Path) : Except Error File :=
  match store.fileAt? path with
  | some file => .ok file
  | none => .error (store.absence path)

/-- When what a path leads to last changed, or why nothing is there. -/
def timeOf (store : Store) (path : Path) : Except Error Int :=
  match store.fileAt? path, (store.locate? path).filter store.isDirectoryAt with
  | some file, _ => .ok file.modified
  | none, some location => .ok (store.directoryTimes location)
  | none, none => .error (store.absence path)

/-- The text of the file that a path leads to, as it is. -/
def readExact (store : Store) (path : Path) : Except Error Text := do
  let file ← store.find path
  match Utf8.decode file.octets with
  | .ok text => return text
  | .error fault => throw (.utf8 fault)

end Store

/-- A text with every line end, of two characters or one, as a line feed. -/
def Text.unifyLineEnds : Text → Text
  | '\r' :: '\n' :: text => '\n' :: unifyLineEnds text
  | '\r' :: text => '\n' :: unifyLineEnds text
  | c :: text => c :: unifyLineEnds text
  | [] => []

namespace Store

/-- The text of the file that a path leads to, its line ends unified. -/
def read (store : Store) (path : Path) : Except Error Text :=
  Text.unifyLineEnds <$> store.readExact path

/-- The store with directories made along some names from a location; `path` is the whole path. -/
def makeAlong (path : Path) (store : Store) (location : Location) :
    List Text → Except Error Store
  | [] => .ok store
  | part :: parts =>
    let next := if part = ['.', '.'] then location.dropLast else location ++ [part]
    if store.isDirectoryAt next then makeAlong path store next parts
    else if (store.file? next).isSome then
      .error (if parts = [] then .pathTaken path.toText else .notDirectory path.toText)
    else makeAlong path { store with directories := next :: store.directories } next parts

/-- The store with a directory at a path, and those that lead to it. -/
def makeDirectory (store : Store) (path : Path) : Except Error Store :=
  makeAlong path store (store.base path) path.parts

/-- The store with a file at a path, and the directories that lead to it. -/
def write (store : Store) (path : Path) (file : File) : Except Error Store := do
  let store ← store.makeDirectory path.parent
  match store.locate? path with
  | none => throw (.missingFile path.toText)
  | some location =>
    if store.isDirectoryAt location then throw (.isDirectory path.toText)
    else return { store with files := setEntry location file store.files }

def remove (store : Store) (path : Path) : Except Error Store := do
  let _ ← store.find path
  return { store with
    files := store.files.filter fun (location, _) => some location ≠ store.locate? path }

/-- The store with another time of change for what a path leads to. -/
def touch (store : Store) (path : Path) (modified : Int) : Except Error Store :=
  match store.fileAt? path, (store.locate? path).filter store.isDirectoryAt with
  | some file, _ => store.write path { file with modified }
  | none, some location =>
    .ok { store with
      directoryTimes := fun other =>
        if other = location then modified else store.directoryTimes other }
  | none, none => .error (store.absence path)

def filesUnder (store : Store) (location : Location) : List Location :=
  store.files.filterMap fun (l, _) => location.isPrefixOf? l

end Store

end ThemeMarkup
