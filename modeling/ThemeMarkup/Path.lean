import ThemeMarkup.Text.Basic

namespace ThemeMarkup

/-- A path: the slashes of its root, none if it is relative, and the names that lead to its end. -/
structure Path where
  root : Text := []
  parts : List Text := []
  deriving DecidableEq, Repr, Inhabited

namespace Path

def rootOf (text : Text) : Text :=
  match (text.takeWhile (· = '/')).length with
  | 0 => []
  | 2 => ['/', '/']
  | _ => ['/']

def ofText (text : Text) : Path where
  root := rootOf text
  parts := (text.splitOn '/').filter fun part => part ≠ [] && part ≠ ['.']

/-- The text of a path; a point stands for the path without names. -/
def toText (path : Path) : Text :=
  match path.root ++ List.intercalate ['/'] path.parts with
  | [] => ['.']
  | text => text

def isAbsolute (path : Path) : Bool :=
  path.root ≠ []

/-- A path taken from another one; an absolute path stays as it is. -/
def join (base path : Path) : Path :=
  if path.isAbsolute then path else { base with parts := base.parts ++ path.parts }

/-- The last name of a path, empty if there is none. -/
def name (path : Path) : Text :=
  path.parts.getLastD []

/-- A name in two parts, the second from the last point on; a point at either end does not count. -/
def splitName (name : Text) : Text × Text :=
  let ending := (name.reverse.takeWhile (· ≠ '.')).reverse
  let start := name.take (name.length - ending.length - 1)
  if ending = [] || start = [] || !name.contains '.' then (name, []) else (start, '.' :: ending)

def stem (path : Path) : Text :=
  (splitName path.name).1

/-- The suffix of the last name of a path, empty if there is none. -/
def suffix (path : Path) : Text :=
  (splitName path.name).2

def parent (path : Path) : Path :=
  { path with parts := path.parts.dropLast }

/-- A path followed by the paths that lead to it, the nearest first. -/
def withParents (path : Path) : List Path :=
  (List.range (path.parts.length + 1)).map fun n =>
    { path with parts := path.parts.take (path.parts.length - n) }

/-- The names left when each pair of points takes back the name before it. -/
def collapse (parts : List Text) : List Text :=
  parts.foldl
    (fun before part => if part = ['.', '.'] then before.dropLast else before ++ [part]) []

/-- The absolute path without pairs of points that a path names, taken from a directory. -/
def resolve (base path : Path) : Path where
  root := ['/']
  parts := collapse (base.join path).parts

/-- Whether names come before others or are the same, name by name. -/
def namesLe : List Text → List Text → Bool
  | [], _ => true
  | _ :: _, [] => false
  | name :: names, other :: others =>
    if name = other then namesLe names others else Text.le name other

/-- Whether a path comes before another one or is the same, name by name. -/
def le (a b : Path) : Bool :=
  namesLe (a.root :: a.parts) (b.root :: b.parts)

end Path

end ThemeMarkup
