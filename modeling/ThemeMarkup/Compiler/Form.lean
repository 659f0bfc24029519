import ThemeMarkup.Compiler.Basic

namespace ThemeMarkup

inductive Form where
  | bracket
  | protect
  | hide
  | element
  | angle
  | drop
  | double
  | source
  deriving DecidableEq, Repr

namespace Form

/-- The identifier of a node's routine and its content in brackets. -/
def bracketed (node : Node) : Text :=
  "[" ++ node.routine.getD "None" ++ ":" ++ node.content ++ "]"

/-- The attributes of a node by name, each after a space. -/
def attributesText (node : Node) : Text :=
  (node.givenAttributes.entries.mergeSort fun a b => Text.le a.1 b.1).flatMap fun (key, value) =>
    " " ++ key ++ "=" ++ value.getD "None"

variable [Marker.Serials]

def write (form : Form) (node : Node) : Text :=
  match form with
  | .bracket => bracketed node
  | .protect => Marker.encode .code (bracketed node)
  | .hide => Marker.encode .literal node.content
  | .element =>
    let name := node.name.getD "None"
    "[" ++ name ++ attributesText node ++ "]" ++ node.bodyContent ++ "[/" ++ name ++ "]"
  | .angle => "<" ++ node.content ++ ">"
  | .drop => []
  | .double => node.content ++ node.content
  | .source => node.source

def routine (form : Form) : Routine :=
  Compiler.writing fun node => return form.write node

end Form

def Compiler.ofForms [Marker.Serials] (code : Table Text) (node : Table NodeTag)
    (known required : Table (List Text)) (forms : Table Form) : Compiler :=
  .ofTags code node known required (forms.map Form.routine)

end ThemeMarkup
