import ThemeMarkup.Tag.Scan
import ThemeMarkup.Registry

namespace ThemeMarkup.Literal

def opening (d : Delimiters) : List TagPart :=
  [.literal d.left, .blanks, .literal "tagself", .blanks, .literal d.right]

def closing (d : Delimiters) : List TagPart :=
  [.literal d.left, .blanks, .literal ":", .blanks, .literal "tagself", .blanks, .literal d.right]

def afterClosing? (d : Delimiters) (text : Text) : Option Text :=
  (TagPart.restsOfAll (closing d) text).head?

/-- The interior that runs from an opening tag to the next closing tag, at least one character, and
what follows the closing tag. -/
def read? (d : Delimiters) (text : Text) : Option (Text × Text) :=
  (TagPart.restsOfAll (opening d) text).findSome? fun
    | [] => none
    | c :: body => (Text.cutAt? (afterClosing? d) body).map fun (interior, rest) =>
        (c :: interior, rest)

/-- The literal spans of a text as nodes whose content is the interior without outer blanks. -/
def nodes (d : Delimiters) (text : Text) : List Node :=
  (Found.scan (read? d) text).map fun found =>
    { source := found.source
      content := Text.strip found.value
      routine := some "global"
      span := found.span text }

end ThemeMarkup.Literal
