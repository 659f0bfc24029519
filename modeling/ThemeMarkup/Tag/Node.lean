import ThemeMarkup.Tag.Scan
import ThemeMarkup.Registry

namespace ThemeMarkup

/-- A tag that opens or closes a node, with the name that the node bears. -/
structure Tag where
  kind : TagKind
  name : Text
  argument : Text := []
  source : Text
  span : Span
  deriving DecidableEq, Repr

namespace Tag

/-- A tag as a node of its own. -/
def toNode (tag : Tag) : Node :=
  { source := tag.source
    content := tag.argument
    span := tag.span
    name := some tag.name
    kind := some tag.kind
    argument := tag.argument }

/-- A tag as it is written: its kind, its name and what stands between the name with its qualifier
and the right delimiter. -/
structure Written where
  kind : TagKind
  name : Text
  argument : Text
  deriving DecidableEq, Repr

/-- The kinds of tag that a text can go on with: a colon makes a tail. -/
def kinds : Text → List (TagKind × Text)
  | ':' :: text => [(.tail, text), (.head, ':' :: text)]
  | text => [(.head, text)]

/-- Whether a character may stand in an argument: it is none of the right delimiter's. -/
def isInner (d : Delimiters) (c : Char) : Bool :=
  !(d.right.map Text.lowerAscii).contains (Text.lowerAscii c)

/-- What may follow the qualifier of a name: the text after it, and the text itself. -/
def afterQualifier (d : Delimiters) (text : Text) : List Text :=
  match text with
  | ':' :: rest =>
    let inQualifier c := isInner d c && !Text.isAsciiBlank c
    match rest.takeWhile inQualifier with
    | [] => [text]
    | _ :: _ => [rest.dropWhile inQualifier, text]
  | _ => [text]

/-- The argument of a tag, with the blank before it, and what follows the tag. -/
def readArgument? (d : Delimiters) (text : Text) : Option (Text × Text) :=
  let withArgument :=
    match text with
    | [] => none
    | c :: rest =>
      if Text.isAsciiBlank c then
        (Text.after? Text.lowerAscii d.right (rest.dropWhile (isInner d))).map fun after =>
          (c :: rest.takeWhile (isInner d), after)
      else none
  match withArgument with
  | some result => some result
  | none => (Text.after? Text.lowerAscii d.right text).map fun after => ([], after)

/-- The node tag at the beginning of a text, and what follows it. -/
def read? (d : Delimiters) (names : List Text) (text : Text) : Option (Written × Text) :=
  match Text.after? Text.lowerAscii d.left text with
  | none => none
  | some text =>
    (Text.afterBlanks Text.isAsciiBlank text).findSome? fun text =>
    (kinds text).findSome? fun (kind, text) =>
    (Text.afterBlanks Text.isAsciiBlank text).findSome? fun text =>
    names.findSome? fun name =>
      match Text.after? Text.lowerAscii name text with
      | none => none
      | some rest =>
        (afterQualifier d rest).findSome? fun rest =>
          (readArgument? d rest).map fun (argument, rest) =>
            (⟨kind, text.take name.length, argument⟩, rest)

def scan (registry : Registry) (d : Delimiters) (text : Text) : Except Error (List Tag) :=
  (Found.scan (read? d (Registry.byLength registry.node.keys)) text).mapM fun found => do
    let entry ← registry.nodeTag (Text.lower found.value.name)
    return { kind := found.value.kind
             name := entry.name
             argument := if found.value.kind = .head then Text.strip found.value.argument else []
             source := found.source
             span := found.span text }

end Tag

end ThemeMarkup
