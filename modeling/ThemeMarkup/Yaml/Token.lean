import ThemeMarkup.Yaml.Property

namespace ThemeMarkup.Yaml

inductive Token where
  | directive (directive : Directive)
  | documentStart
  | documentEnd
  | blockList
  | blockMap
  | blockEnd
  | listOpen
  | listClose
  | mapOpen
  | mapClose
  | comma
  | item
  | key
  | value
  | alias (name : Text)
  | anchor (name : Text)
  | tag (tag : WrittenTag)
  | scalar (text : Text) (plain : Bool)
  | broken (fault : Fault)

/-- A place where the name of an entry may have begun. -/
structure Candidate where
  /-- The number of tokens before the place. -/
  index : Nat
  /-- Whether nothing else than a name may stand there. -/
  required : Bool
  offset : Nat
  line : Nat
  column : Nat

/-- The greatest number of characters between the beginning of a name and its colon, unless the name
is marked. -/
def maxNameLength : Nat := 1024

/-- Whether the colon of a name that begins at a candidate can no longer come. -/
def Candidate.isStale (candidate : Candidate) (place : Cursor) : Bool :=
  candidate.line ≠ place.line || candidate.offset + maxNameLength < place.offset

/-- A candidate that has become stale is given up, unless it is required. -/
def Candidate.refresh (place : Cursor) : Option Candidate → Except Fault (Option Candidate)
  | none => .ok none
  | some candidate =>
    if !candidate.isStale place then .ok (some candidate)
    else if candidate.required then .error .malformed
    else .ok none

structure Scan where
  cursor : Cursor
  tokens : Array Token := #[]
  /-- The columns of the indented collections that are open, the innermost first. -/
  columns : List Nat := []
  /-- Whether the name of an entry may begin at the next token. -/
  mayName : Bool := true
  /-- The candidate in the innermost collection. -/
  candidate : Option Candidate := none
  /-- The candidates in the collections around each open bracket or brace, the innermost first. -/
  outer : List (Option Candidate) := []

namespace Scan

def inFlow (s : Scan) : Bool :=
  !s.outer.isEmpty

/-- The least column of what belongs to the innermost indented collection. -/
def indent (s : Scan) : Nat :=
  match s.columns with
  | [] => 0
  | column :: _ => column + 1

def emit (s : Scan) (token : Token) (place : Cursor) : Scan :=
  { s with tokens := s.tokens.push token, cursor := place }

/-- Ends the innermost indented collections as long as their columns are of a kind. -/
def close (s : Scan) (ends : Nat → Bool) : Scan :=
  if s.inFlow then s
  else
    let closed := s.columns.takeWhile ends
    { s with
      tokens := s.tokens ++ Array.replicate closed.length .blockEnd
      columns := s.columns.drop closed.length }

/-- Goes to the next token. -/
def settle (s : Scan) : Except Fault Scan := do
  let isMarked := s.cursor.offset = 0 && s.cursor.rest.head? = some byteOrderMark
  let place := (if isMarked then s.cursor.next else s.cursor).skip
  let candidate ← Candidate.refresh place s.candidate
  let outer ← s.outer.mapM (Candidate.refresh place)
  let mayName := s.mayName || !s.inFlow && place.line ≠ s.cursor.line
  return { s with cursor := place, candidate, outer, mayName }.close (place.column < ·)

/-- Gives up the candidate in the innermost collection, which must not be required. -/
def discard (s : Scan) : Except Fault Scan :=
  if s.candidate.any (·.required) then .error .malformed else .ok { s with candidate := none }

/-- Makes the next token a candidate if a name may begin there. -/
def propose (s : Scan) : Except Fault Scan :=
  if s.mayName then do
    let place := s.cursor
    let required := !s.inFlow && s.columns.head? = some place.column
    let candidate : Candidate :=
      { index := s.tokens.size, required, offset := place.offset, line := place.line
        column := place.column }
    return { ← s.discard with candidate := some candidate }
  else .ok s

/-- Begins an indented collection in a column, its token being put at an index, unless the column
belongs to one that is open. -/
def openAt (s : Scan) (token : Token) (column index : Nat) : Scan :=
  if !s.inFlow && s.indent ≤ column then
    { s with
      columns := column :: s.columns
      tokens := s.tokens.insertIdxIfInBounds index token }
  else s

def readDocumentMark (s : Scan) (token : Token) : Except Fault Scan := do
  let s ← (s.close fun _ => true).discard
  return { s with mayName := false }.emit token (s.cursor.advance 3)

def readOpening (s : Scan) (token : Token) : Except Fault Scan := do
  let s ← s.propose
  return { s with mayName := true, candidate := none, outer := s.candidate :: s.outer }.emit token
    s.cursor.next

def readClosing (s : Scan) (token : Token) : Except Fault Scan := do
  let s ← s.discard
  match s.outer with
  | [] => .error .malformed
  | candidate :: outer =>
    return { s with mayName := false, candidate, outer }.emit token s.cursor.next

def readComma (s : Scan) : Except Fault Scan := do
  let s ← s.discard
  return { s with mayName := true }.emit .comma s.cursor.next

/-- Reads the mark of an item, or that of a name if a question mark stands before it; the collection
begins with it if none is open in its column. -/
def readMark (s : Scan) (opening token : Token) (mayName : Bool) : Except Fault Scan := do
  if !s.inFlow && !s.mayName then throw .malformed
  let s ← (s.openAt opening s.cursor.column s.tokens.size).discard
  return { s with mayName }.emit token s.cursor.next

/-- Reads the colon before a value. If there is a candidate, the name of the value begins there. -/
def readColon (s : Scan) : Except Fault Scan :=
  match s.candidate with
  | some candidate =>
    let named := { s with
      tokens := s.tokens.insertIdxIfInBounds candidate.index .key
      candidate := none
      mayName := false }
    .ok ((named.openAt .blockMap candidate.column candidate.index).emit .value s.cursor.next)
  | none => s.readMark .blockMap .value !s.inFlow

def readContent (s : Scan) (token : Token) (place : Cursor) : Except Fault Scan := do
  return { ← s.propose with mayName := false }.emit token place

def readBlockScalar (s : Scan) (fold : Bool) : Except Fault Scan := do
  let s ← s.discard
  let (text, place) ← readBlock fold (max 1 s.indent) s.cursor.next
  return { s with mayName := true }.emit (.scalar text false) place

def readDirective (s : Scan) : Except Fault Scan := do
  let s ← (s.close fun _ => true).discard
  match readDirective? s.cursor with
  | some (directive, place) => return { s with mayName := false }.emit (.directive directive) place
  | none => throw .malformed

/-- Reads something that begins with a character and belongs to an entry or an item. -/
def readNode (s : Scan) (char : Char) : Except Fault Scan := do
  let place := s.cursor
  let property (token : Text → Token) : Except Fault Scan :=
    match readName? place with
    | some (name, after) => s.readContent (token name) after
    | none => .error .malformed
  if char = '*' then property .alias
  else if char = '&' then property .anchor
  else if char = '!' then
    match readTag? place with
    | some (tag, after) => s.readContent (.tag tag) after
    | none => .error .malformed
  else if (char = '|' || char = '>') && !s.inFlow then s.readBlockScalar (char = '>')
  else if char = '\'' || char = '"' then do
    let (text, after) ← readQuoted char place.next
    s.readContent (.scalar text false) after
  else if beginsPlain s.inFlow place.rest then
    let (text, after) := readPlain s.inFlow s.indent place
    let mayName := (after.gap isSpace).2.line ≠ after.line
    return { ← s.readContent (.scalar text true) after with mayName }
  else .error .malformed

def readToken (s : Scan) : Except Fault Scan :=
  match s.cursor.rest with
  | [] => .ok s
  | char :: rest =>
    let isMark := s.inFlow || endsOr isGap rest
    if char = '%' && s.cursor.column = 0 then s.readDirective
    else if s.cursor.atMark '-' then s.readDocumentMark .documentStart
    else if s.cursor.atMark '.' then s.readDocumentMark .documentEnd
    else if char = '[' then s.readOpening .listOpen
    else if char = '\x7b' then s.readOpening .mapOpen
    else if char = ']' then s.readClosing .listClose
    else if char = '\x7d' then s.readClosing .mapClose
    else if char = ',' then s.readComma
    else if char = '-' && endsOr isGap rest then s.readMark .blockList .item true
    else if char = '?' && isMark then s.readMark .blockMap .key !s.inFlow
    else if char = ':' && isMark then s.readColon
    else s.readNode char

/-- The tokens of a text that cannot be read further for a fault. -/
def breakOff (s : Scan) (fault : Fault) : List Token :=
  let candidates := (if s.mayName then s.outer else s.candidate :: s.outer).filterMap id
  let settled := candidates.foldl (fun n candidate => min n candidate.index) s.tokens.size
  s.tokens.toList.take settled ++ [.broken fault]

/-- The tokens of a text that has been read to its end. -/
def finish (s : Scan) : List Token :=
  match (s.close fun _ => true).discard with
  | .ok s => s.tokens.toList
  | .error fault => s.breakOff fault

/-- The tokens of a text, of which some have been read. -/
def run (s : Scan) : List Token :=
  match s.settle with
  | .error fault => s.breakOff fault
  | .ok settled =>
    if settled.cursor.rest = [] then settled.finish
    else
      match settled.readToken with
      | .error fault => settled.breakOff fault
      | .ok next =>
        if _ : next.cursor.rest.length < s.cursor.rest.length then next.run
        else settled.breakOff .malformed
termination_by s.cursor.rest.length

end Scan

def Token.ofText (text : Text) : List Token :=
  Scan.run { cursor := { rest := text } }

end ThemeMarkup.Yaml
