import ThemeMarkup.Double

namespace ThemeMarkup

inductive Data where
  | null
  | truth (value : Bool)
  | whole (value : Int)
  | real (value : Double)
  | text (value : Text)
  | list (items : List Data)
  | map (entries : List (Data × Data))
  | moment (shown : Text)
  deriving Inhabited

namespace Data

/-- The number that a datum counts as. Truth values count as one and zero. -/
def number? : Data → Option Double
  | .truth b => some (.finite (if b then 1 else 0))
  | .whole n => some (.finite n)
  | .real value => some value
  | _ => none

def isName : Data → Bool
  | .list _ | .map _ => false
  | _ => true

/-- Whether two data are the same name. Numbers are the same if their values are. -/
def sameName : Data → Data → Bool
  | .null, .null => true
  | .text a, .text b => a = b
  | .moment a, .moment b => a = b
  | a, b =>
    match a.number?, b.number? with
    | some a, some b => a = b
    | _, _ => false

/-- Sets a name among entries; a name that is there already keeps its place and its form. -/
def setName (name value : Data) : List (Data × Data) → List (Data × Data)
  | [] => [(name, value)]
  | (n, v) :: entries =>
    if n.sameName name then (n, value) :: entries else (n, v) :: setName name value entries

def ofEntries (entries : List (Data × Data)) : Data :=
  .map (entries.foldl (fun set (name, value) => setName name value set) [])

/-- Whether a datum counts as nothing: null, false, zero or empty. -/
def isBlank : Data → Bool
  | .null => true
  | .truth b => !b
  | .whole n => n = 0
  | .real value => value = .finite 0
  | .text t => t.isEmpty
  | .list items => items.isEmpty
  | .map entries => entries.isEmpty
  | .moment _ => false

/-- The text that a datum is shown as where one line of it is wanted. -/
def show? : Data → Option Text
  | .null => some "None"
  | .truth b => some (if b then "True" else "False")
  | .whole n => some (Text.ofInt n)
  | .real value => some value.toText
  | .text t => some t
  | .moment shown => some shown
  | .list _ | .map _ => none

/-- The datum under a name in a list of entries, the last one set. -/
def field? (name : Text) : List (Data × Data) → Option Data
  | [] => none
  | (.text key, value) :: entries =>
    match field? name entries with
    | some found => some found
    | none => if key = name then some value else none
  | _ :: entries => field? name entries

end Data

end ThemeMarkup
