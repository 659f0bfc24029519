import ThemeMarkup.Text.Basic

namespace ThemeMarkup.Yaml

def isBreak (c : Char) : Bool :=
  c = '\n' || c = '\r' || c.toNat = 0x85 || c.toNat = 0x2028 || c.toNat = 0x2029

def isSpace (c : Char) : Bool :=
  c = ' '

def isBlank (c : Char) : Bool :=
  c = ' ' || c = '\t'

def isGap (c : Char) : Bool :=
  isBlank c || isBreak c

/-- Whether a text ends or goes on with a character of a class. -/
def endsOr (inClass : Char → Bool) : Text → Bool
  | [] => true
  | c :: _ => inClass c

def isAllowed (c : Char) : Bool :=
  let n := c.toNat
  n = 9 || n = 10 || n = 13 || 0x20 ≤ n && n ≤ 0x7E || n = 0x85 ||
    0xA0 ≤ n && n ≠ 0xFFFE && n ≠ 0xFFFF

/-- The character that marks the byte order of a text and counts for no column. -/
def byteOrderMark : Char :=
  Char.ofNat 0xFEFF

/-- The text that a line end stands for by itself: the two separators of Unicode stay. -/
def lineEnd (c : Char) : Char :=
  if c.toNat = 0x2028 || c.toNat = 0x2029 then c else '\n'

/-- The text that line ends within a scalar stand for: a single line feed is a space, and of several
the first is left out. -/
def folded : Text → Text
  | [] => []
  | '\n' :: [] => [' ']
  | '\n' :: more => more
  | breaks => breaks

/-- A place in a text: what follows it, the number of characters before it, its line and its column.
-/
structure Cursor where
  rest : Text
  offset : Nat := 0
  line : Nat := 0
  column : Nat := 0

namespace Cursor

def next (c : Cursor) : Cursor :=
  match c.rest with
  | [] => c
  | char :: rest =>
    if isBreak char then ⟨rest, c.offset + 1, c.line + 1, 0⟩
    else ⟨rest, c.offset + 1, c.line, if char = byteOrderMark then c.column else c.column + 1⟩

def advance (c : Cursor) : Nat → Cursor
  | 0 => c
  | n + 1 => c.next.advance n

/-- The characters of a class that follow, and the place after them. -/
def span (inClass : Char → Bool) (c : Cursor) : Text × Cursor :=
  let text := c.rest.takeWhile inClass
  (text, c.advance text.length)

/-- The number of characters up to the next token: spaces, line ends and comments. -/
def skipLength (inComment : Bool) : Text → Nat
  | [] => 0
  | c :: text =>
    if isBreak c then skipLength false text + 1
    else if inComment || c = '#' then skipLength true text + 1
    else if isSpace c then skipLength false text + 1
    else 0

def skip (c : Cursor) : Cursor :=
  c.advance (skipLength false c.rest)

/-- Whether a mark of three characters stands at the beginning of this line. -/
def atMark (char : Char) (c : Cursor) : Bool :=
  c.column = 0 && c.rest.take 3 = [char, char, char] && endsOr isGap (c.rest.drop 3)

def atDocumentMark (c : Cursor) : Bool :=
  c.atMark '-' || c.atMark '.'

/-- The text that blanks and line ends in a scalar stand for, and the place after them: blanks on
one line are kept, and around line ends they are not. -/
def gap (blank : Char → Bool) (c : Cursor) : Text × Cursor :=
  let (text, after) := c.span fun d => blank d || isBreak d
  let breaks := text.filter isBreak
  (if breaks = [] then text else folded (breaks.map lineEnd), after)

def break? (c : Cursor) : Option (Char × Cursor) :=
  match c.rest with
  | char :: _ => if isBreak char then some (lineEnd char, c.next) else none
  | [] => none

/-- The place after the spaces, the comment and the line end that may close a line; none if
something else stands there. -/
def closeLine? (c : Cursor) : Option Cursor :=
  let (_, place) := c.span isSpace
  let place := if place.rest.head? = some '#' then (place.span (!isBreak ·)).2 else place
  if endsOr isBreak place.rest then some place.next else none

end Cursor

end ThemeMarkup.Yaml
