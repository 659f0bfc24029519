import ThemeMarkup.Text.Blank
import ThemeMarkup.Text.Lowercase
import ThemeMarkup.Node.Basic

namespace ThemeMarkup

/-- Something found in a text: where it begins, the text it spans and its value. -/
structure Found (α : Type) where
  offset : Nat
  source : Text
  value : α

namespace Found

variable {α : Type}

/-- The finds of a reader in a text that begins at `offset`. -/
def scanFrom (read : Text → Option (α × Text)) (offset : Nat) : Text → List (Found α)
  | [] => []
  | c :: text =>
    match read (c :: text) with
    | none => scanFrom read (offset + 1) text
    | some (value, rest) =>
      if rest.length ≤ text.length then
        let size := (c :: text).length - rest.length
        ⟨offset, (c :: text).take size, value⟩ :: scanFrom read (offset + size) rest
      else scanFrom read (offset + 1) text
termination_by text => text.length

def scan (read : Text → Option (α × Text)) (text : Text) : List (Found α) :=
  scanFrom read 0 text

/-- Where a find stands in the text in which it was found. -/
def span (found : Found α) (text : Text) : Span :=
  Span.ofRange text found.offset found.source.length

end Found

namespace Text

/-- What may follow the blanks at the beginning of a text, the longest run of blanks being passed
over first and each shorter one after it. -/
def afterBlanks (isBlank : Char → Bool) : Text → List Text
  | [] => [[]]
  | c :: text => if isBlank c then afterBlanks isBlank text ++ [c :: text] else [c :: text]

end Text

inductive TagPart where
  | literal (text : Text)
  | blanks
  deriving DecidableEq, Repr

/-- What may follow a part of a tag. -/
def TagPart.rests : TagPart → Text → List Text
  | .literal lead, text => (Text.after? Text.lowerAscii lead text).toList
  | .blanks, text => Text.afterBlanks Text.isAsciiBlank text

/-- What may follow the parts of a tag, the preferred reading first. -/
def TagPart.restsOfAll : List TagPart → Text → List Text
  | [], text => [text]
  | part :: parts, text => (part.rests text).flatMap (restsOfAll parts)

end ThemeMarkup
