import ThemeMarkup.Text.Utf8
import ThemeMarkup.Yaml.Scalar

namespace ThemeMarkup.Yaml

/-- A tag as it is written: the handle that stands for its beginning, if there is one, and the rest
of it. -/
structure WrittenTag where
  handle : Option Text
  suffix : Text
  deriving DecidableEq

inductive Directive where
  | version (major : Nat)
  | handle (name beginning : Text)
  | unknown

/-- Whether a character may stand in the name of an anchor or a handle. -/
def isNameChar (c : Char) : Bool :=
  c.isAlphanum || c = '-' || c = '_'

/-- The name that follows the mark of an anchor or an alias. -/
def readName? (c : Cursor) : Option (Text × Cursor) :=
  let (name, place) := c.next.span isNameChar
  let mayFollow (d : Char) : Bool := isGap d || "?:,]%@".contains d || d = '\x7d' || d.toNat = 96
  if name ≠ [] && endsOr mayFollow place.rest then some (name, place) else none

def isTagChar (c : Char) : Bool :=
  c.isAlphanum || "-;/?:@&=+$,_.!~*'()[]%".contains c

def percentOctets? : Text → Option Octets
  | [] => some []
  | '%' :: a :: b :: text =>
    if isHexDigit a && isHexDigit b then
      (UInt8.ofNat (ofDigits 16 [a, b]) :: ·) <$> percentOctets? text
    else none
  | _ => none

/-- The text of a tag with the octets in it read: a percent sign and two digits for each, and
adjacent ones are read together. `pending` are the signs and digits just passed. -/
def unescapeTag? (pending : Text) : Text → Option Text
  | '%' :: a :: b :: text => unescapeTag? (pending ++ ['%', a, b]) text
  | text => do
    let octets ← percentOctets? pending
    let before ← (Utf8.decode octets).toOption
    match text with
    | [] => return before
    | c :: text => if c = '%' then none else return before ++ c :: (← unescapeTag? [] text)

def readTagText? (c : Cursor) : Option (Text × Cursor) :=
  let (text, place) := c.span isTagChar
  if text = [] then none else (unescapeTag? [] text).map (·, place)

/-- The handle of a tag that stands here, with its exclamation marks. -/
def readHandle? (c : Cursor) : Option (Text × Cursor) :=
  if c.rest.head? ≠ some '!' then none
  else
    let (name, place) := c.next.span isNameChar
    if place.rest.head? = some '!' then some ('!' :: name ++ ['!'], place.next)
    else if name = [] && place.rest.head? = some ' ' then some (['!'], place)
    else none

def readTagStart? (c : Cursor) : Option (WrittenTag × Cursor) := do
  if c.next.rest.head? = some '<' then
    let (text, place) ← readTagText? (c.advance 2)
    if place.rest.head? = some '>' then return (⟨none, text⟩, place.next) else none
  else if endsOr isGap c.next.rest then return (⟨none, ['!']⟩, c.next)
  else if (c.next.rest.takeWhile fun d => d ≠ ' ' && !isBreak d).contains '!' then
    let (handle, place) ← readHandle? c
    let (text, place) ← readTagText? place
    return (⟨some handle, text⟩, place)
  else
    let (text, place) ← readTagText? c.next
    return (⟨some ['!'], text⟩, place)

/-- Whether a text ends or goes on with a space or a line end. -/
def endsWord (text : Text) : Bool :=
  endsOr (fun d => isSpace d || isBreak d) text

def readTag? (c : Cursor) : Option (WrittenTag × Cursor) :=
  (readTagStart? c).filter fun (_, place) => endsWord place.rest

def readNumber? (c : Cursor) : Option (Nat × Cursor) :=
  let (digits, place) := c.span Char.isDigit
  if digits = [] then none else some (ofDigits 10 digits, place)

def readDirectiveValue? (name : Text) (c : Cursor) : Option (Directive × Cursor) := do
  if name = "YAML".toList then
    let (major, place) ← readNumber? (c.span isSpace).2
    if place.rest.head? ≠ some '.' then none
    let (_, place) ← readNumber? place.next
    if endsWord place.rest then return (.version major, place) else none
  else if name = "TAG".toList then
    let (handle, place) ← readHandle? (c.span isSpace).2
    if place.rest.head? ≠ some ' ' then none
    let (beginning, place) ← readTagText? (place.span isSpace).2
    if endsWord place.rest then return (.handle handle beginning, place) else none
  else return (.unknown, (c.span (!isBreak ·)).2)

def readDirective? (c : Cursor) : Option (Directive × Cursor) := do
  let (name, place) := c.next.span isNameChar
  if name = [] || !endsWord place.rest then none
  let (directive, place) ← readDirectiveValue? name place
  return (directive, ← place.closeLine?)

end ThemeMarkup.Yaml
