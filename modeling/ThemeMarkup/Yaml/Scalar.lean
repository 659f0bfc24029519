import ThemeMarkup.Yaml.Cursor
import ThemeMarkup.Yaml.Fault

namespace ThemeMarkup.Yaml

def flowMarks : List Char :=
  [',', '?', '[', ']', '\x7b', '\x7d']

/-- Whether the text after a colon makes it the mark of a value. -/
def marksValue (flow : Bool) (text : Text) : Bool :=
  endsOr (fun c => isGap c || flow && c ≠ '?' && flowMarks.contains c) text

/-- The part of a plain scalar up to the next gap or the next mark. -/
def plainChunk (flow : Bool) : Text → Text
  | [] => []
  | c :: text =>
    if isGap c || c = ':' && marksValue flow text || flow && flowMarks.contains c then []
    else c :: plainChunk flow text

def beginsPlain (flow : Bool) : Text → Bool
  | [] => false
  | c :: text =>
    let isMark := ("-?:,[]#&*!|>'%@".toList ++ ['\x7b', '\x7d', '"', Char.ofNat 96]).contains c
    !isGap c && !isMark ||
      !endsOr isGap text && (c = '-' || !flow && (c = '?' || c = ':'))

/-- Whether a plain scalar goes on at a place after a gap: on a further line it must be indented,
unless it stands in brackets or braces. -/
def goesOn (flow : Bool) (indent : Nat) (place : Cursor) : Bool :=
  !place.atDocumentMark && place.rest.head? ≠ some '#' && (flow || indent ≤ place.column) &&
    plainChunk flow place.rest ≠ []

def readPlain (flow : Bool) (indent : Nat) (c : Cursor) : Text × Cursor :=
  let chunk := plainChunk flow c.rest
  let (gap, place) := (c.advance chunk.length).gap isSpace
  if _ : place.rest.length < c.rest.length ∧ gap ≠ [] ∧ goesOn flow indent place then
    let (more, last) := readPlain flow indent place
    (chunk ++ gap ++ more, last)
  else (chunk, c.advance chunk.length)
termination_by c.rest.length
decreasing_by rename_i h; exact h.1

def escapes : List (Char × Nat) :=
  [('0', 0), ('a', 7), ('b', 8), ('t', 9), ('\t', 9), ('n', 10), ('v', 11), ('f', 12), ('r', 13),
    ('e', 27), (' ', 32), ('"', 34), ('\\', 92), ('/', 47), ('N', 0x85), ('_', 0xA0),
    ('L', 0x2028), ('P', 0x2029)]

/-- The number of hexadecimal digits that a letter after a backslash announces. -/
def escapeDigits : Char → Nat
  | 'x' => 2
  | 'u' => 4
  | 'U' => 8
  | _ => 0

def isHexDigit (c : Char) : Bool :=
  c.isDigit || 'a' ≤ c && c ≤ 'f' || 'A' ≤ c && c ≤ 'F'

def digitValue (c : Char) : Nat :=
  if c.isDigit then c.toNat - 48 else if 'a' ≤ c then c.toNat - 87 else c.toNat - 55

def ofDigits (base : Nat) (digits : Text) : Nat :=
  digits.foldl (fun n c => n * base + digitValue c) 0

def hexNumber? (count : Nat) (c : Cursor) : Option Nat :=
  let digits := c.rest.take count
  if digits.length = count && digits.all isHexDigit then some (ofDigits 16 digits) else none

/-- The text of an escape after the backslash, and the place after it. -/
def readEscape (c : Cursor) : Except Fault (Text × Cursor) :=
  match c.break? with
  | some (_, place) =>
    let (gap, after) := place.span isGap
    if after.atDocumentMark then .error .malformed
    else .ok ((gap.filter isBreak).map lineEnd, after)
  | none =>
    match c.rest with
    | [] => .error .malformed
    | letter :: _ =>
      match escapes.lookup letter, escapeDigits letter with
      | some n, _ => .ok ([Char.ofNat n], c.next)
      | none, 0 => .error .malformed
      | none, count =>
        match hexNumber? count c.next with
        | some n => if n < 0x110000 then .ok ([Char.ofNat n], c.advance (count + 1))
          else .error .noCodePoint
        | none => .error .malformed

/-- A piece of what stands between quotes: a character, an escape or a gap. -/
def readQuotedPiece (quote : Char) (c : Cursor) : Except Fault (Text × Cursor) :=
  match c.rest with
  | [] => .error .malformed
  | char :: _ =>
    if quote = '"' && char = '\\' then readEscape c.next
    else if char = quote then .ok ([quote], c.advance 2)
    else if isGap char then
      let (gap, place) := c.gap isBlank
      if place.atDocumentMark then .error .malformed else .ok (gap, place)
    else .ok ([char], c.next)

/-- Whether the quote that stands here closes a scalar: a single quote is written twice in one. -/
def closesQuoted (quote : Char) (text : Text) : Bool :=
  text.head? = some quote && !(quote = '\'' && text[1]? = some quote)

/-- What stands between quotes of a kind, the first of them passed, and the place after the other.
-/
def readQuoted (quote : Char) (c : Cursor) : Except Fault (Text × Cursor) :=
  if closesQuoted quote c.rest then .ok ([], c.next)
  else
    match readQuotedPiece quote c with
    | .error fault => .error fault
    | .ok (piece, place) =>
      if _ : place.rest.length < c.rest.length then
        match readQuoted quote place with
        | .error fault => .error fault
        | .ok (more, last) => .ok (piece ++ more, last)
      else .error .malformed
termination_by c.rest.length

/-- What becomes of the line ends after the last line of a block. -/
inductive Chomp where
  | strip
  | clip
  | keep
  deriving DecidableEq

/-- What the signs after the mark of a block say: what becomes of its last line ends and, if it is
given, its indentation beyond that of the collection it stands in; and the place after them. -/
def readBlockSigns (c : Cursor) : Chomp × Option Nat × Cursor :=
  let chomp? (c : Cursor) : Option Chomp :=
    match c.rest.head? with
    | some '+' => some .keep
    | some '-' => some .strip
    | _ => none
  let width? (c : Cursor) : Option Nat :=
    match c.rest.head? with
    | some d => if d.isDigit && d ≠ '0' then some (digitValue d) else none
    | none => none
  match chomp? c, width? c with
  | some chomp, _ =>
    match width? c.next with
    | some width => (chomp, some width, c.advance 2)
    | none => (chomp, none, c.next)
  | none, some width =>
    match chomp? c.next with
    | some chomp => (chomp, some width, c.advance 2)
    | none => (.clip, some width, c.next)
  | none, none => (.clip, none, c)

def indented (column : Nat) (c : Cursor) : Cursor :=
  c.advance ((c.rest.take (column - c.column)).takeWhile isSpace).length

/-- The line ends of empty lines and the place after them and the indentation of the line there. -/
def emptyLines (indent : Nat) (c : Cursor) : Text × Cursor :=
  match (indented indent c).break? with
  | none => ([], indented indent c)
  | some (char, place) =>
    if _ : place.rest.length < c.rest.length then
      let (more, last) := emptyLines indent place
      (char :: more, last)
    else ([char], place)
termination_by c.rest.length

/-- The line ends of empty lines, the greatest indentation of these lines and the next one, and the
place of the first character that is neither a space nor a line end. -/
def detectIndent (c : Cursor) : Text × Nat × Cursor :=
  let (text, place) := c.span fun d => isSpace d || isBreak d
  let widths := (text.splitOnP isBreak).map List.length
  ((text.filter isBreak).map lineEnd, widths.foldl max 0, place)

/-- The text from a line of a block on, which begins at a place with this indentation, and the place
after the block. -/
def readBlockLines (fold : Bool) (chomp : Chomp) (indent : Nat) (c : Cursor) : Text × Cursor :=
  let (line, place) := c.span (!isBreak ·)
  match place.break? with
  | none => (line, place)
  | some (char, place) =>
    let (breaks, next) := emptyLines indent place
    let isFlush (c : Cursor) : Bool := !c.rest.head?.any isBlank
    if _ : next.rest.length < c.rest.length ∧ next.column = indent ∧ next.rest ≠ [] then
      let joint :=
        if fold && char = '\n' && isFlush c && isFlush next then
          if breaks = [] then [' '] else []
        else [char]
      let (more, last) := readBlockLines fold chomp indent next
      (line ++ joint ++ breaks ++ more, last)
    else
      (line ++ (if chomp = .strip then [] else [char]) ++ (if chomp = .keep then breaks else []),
        next)
termination_by c.rest.length
decreasing_by rename_i h; exact h.1

/-- A block of lines, its mark passed, in a collection whose entries are indented by less than a
least indentation; and the place after it. -/
def readBlock (fold : Bool) (least : Nat) (c : Cursor) : Except Fault (Text × Cursor) :=
  let (chomp, width, place) := readBlockSigns c
  match endsOr (fun d => isSpace d || isBreak d) place.rest, place.closeLine? with
  | true, some place =>
    let (breaks, indent, place) :=
      match width with
      | some width =>
        let indent := least + width - 1
        let (breaks, place) := emptyLines indent place
        (breaks, indent, place)
      | none =>
        let (breaks, indent, place) := detectIndent place
        (breaks, max least indent, place)
    if place.column = indent && place.rest ≠ [] then
      let (text, last) := readBlockLines fold chomp indent place
      .ok (breaks ++ text, last)
    else .ok (if chomp = .keep then breaks else [], place)
  | _, _ => .error .malformed

end ThemeMarkup.Yaml
