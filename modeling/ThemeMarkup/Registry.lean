import ThemeMarkup.Table
import ThemeMarkup.Text.Lowercase
import ThemeMarkup.Error

namespace ThemeMarkup

/-- What stands before and after the inside of a tag. -/
structure Delimiters where
  left : Text
  right : Text
  deriving DecidableEq, Repr

/-- The delimiters of the three categories of tags. -/
structure DelimiterSet where
  literal : Delimiters := ⟨"\x7b%", "%\x7d"⟩
  code : Delimiters := ⟨"\x7b\x7b", "\x7d\x7d"⟩
  node : Delimiters := ⟨"\x7b%", "%\x7d"⟩
  deriving DecidableEq, Repr

/-- A node tag: the name that its nodes bear, and whether it may stand without a tail tag. -/
structure NodeTag where
  name : Text
  single : Bool := false
  deriving DecidableEq, Repr

/-- The tags that are recognised. -/
structure Registry where
  code : Table Text := ∅
  node : Table NodeTag := ∅

namespace Registry

/-- The registry of some code tags and node tags; the names of node tags are put in lower case. -/
def ofTags (code : Table Text) (node : Table NodeTag) : Registry where
  code := code
  node := Table.ofList (node.entries.map fun (name, tag) => (Text.lower name, tag))

/-- Names in the order in which they are tried: the longer before the shorter. -/
def byLength (names : List Text) : List Text :=
  names.mergeSort fun a b => b.length ≤ a.length

def codeRoutine (registry : Registry) (name : Text) : Except Error Text :=
  match registry.code.get? name with
  | some base => .ok (base ++ "Code")
  | none => .error (.noEntry name)

def nodeRoutine (name : Text) : Text :=
  name ++ "Node"

def nodeTag (registry : Registry) (key : Text) : Except Error NodeTag :=
  match registry.node.get? key with
  | some tag => .ok tag
  | none => .error (.noEntry key)

/-- Whether nodes of a name may stand without a tail tag, as the first tag for them says. -/
def isSingle (registry : Registry) (name : Text) : Bool :=
  match registry.node.entries.find? fun (_, tag) => tag.name = name with
  | some (_, tag) => tag.single
  | none => false

end Registry

end ThemeMarkup
