import ThemeMarkup.Tag.Scan
import ThemeMarkup.Registry

namespace ThemeMarkup.Code

/-- The name and the payload of the code tag at the beginning of a text, and what follows it. -/
def read? (d : Delimiters) (names : List Text) (text : Text) : Option ((Text × Text) × Text) :=
  match Text.after? id d.left text with
  | none => none
  | some text =>
    (Text.afterBlanks Text.isBlank text).findSome? fun text =>
      names.findSome? fun name =>
        match Text.after? id name text with
        | none => none
        | some text => (Text.cut? d.right text).map fun (payload, rest) => ((name, payload), rest)

/-- The code tags of a text as nodes whose content is the payload without outer blanks. -/
def nodes (registry : Registry) (d : Delimiters) (text : Text) : Except Error (List Node) :=
  (Found.scan (read? d (Registry.byLength registry.code.keys)) text).mapM fun found => do
    let name := Text.strip found.value.1
    let routine ← registry.codeRoutine name
    return { source := found.source
             content := Text.strip found.value.2
             routine := some routine
             name := some name
             span := found.span text }

end ThemeMarkup.Code
