import ThemeMarkup.Error

namespace ThemeMarkup

/-- The least number that is too great to count characters or lines with. -/
def countLimit : Nat := 0x8000000000000000

/-- The least number of characters that is too great for a text to be held. -/
def roomLimit : Nat := 0x100000000

/-- The number of characters in a span, which may end just before it begins. -/
def Span.length (span : Span) : Except Error Nat :=
  let length := if span.isLocated then span.last - span.first + 1 else 0
  if length < 0 then .error .reversedSpan
  else if length < countLimit then .ok length.toNat
  else .error .uncountable

/-- A character written a number of times, not at all if the number is negative. -/
def Text.repeated (held : Text) (c : Char) (count : Int) : Except Error Text :=
  let isPossible (limit : Nat) : Bool := count < limit ∨ count ≤ held.length
  if count < -countLimit ∨ !isPossible countLimit then .error .uncountable
  else if isPossible roomLimit then .ok (List.replicate count.toNat c)
  else .error .noRoom

/-- The line and the carets under it that show a span of located text. -/
def Span.excerpt (span : Span) (text line : Text) : Except Error Text := do
  let width :=
    if span.lastLine = span.firstLine then span.lastColumn - span.firstColumn + 1
    else line.length - span.firstColumn
  let blanks ← Text.repeated text ' ' span.firstColumn
  let carets ← Text.repeated text '^' (max width 1)
  return ['\n'] ++ line ++ ['\n'] ++ blanks ++ carets

/-- The place of a span: its line and column, the file if there is one, and an excerpt of the text
if that is given and has the line. A negative line counts from the last line. -/
def Span.location (span : Span) (text : Option Text) (file : Option Text) : Except Error Text :=
  let place : Text :=
    "Line:" ++ Text.ofInt span.firstLine ++ "; column:" ++ Text.ofInt span.firstColumn ++
      "; file:" ++ (match file with
        | none | some [] => "None"
        | some file => file) ++ "."
  match text with
  | none => .ok place
  | some text =>
    let lines := text.lines
    if !span.isLocated || lines.length ≤ span.firstLine then .ok place
    else
      let index := if span.firstLine < 0 then lines.length + span.firstLine else span.firstLine
      if span.firstLine < -countLimit then .error .uncountableLine
      else if index < 0 then .error .noLine
      else (place ++ ·) <$> span.excerpt text (lines.getD index.toNat [])

/-- The error with its place in a text attached, unless it has one. -/
def TagError.locateIn (e : TagError) (text : Text) (file : Option Text) : Except Error TagError :=
  match e.location with
  | some _ => .ok e
  | none => (e.span.location (some text) file).map fun location =>
    { e with location := some location }

end ThemeMarkup
