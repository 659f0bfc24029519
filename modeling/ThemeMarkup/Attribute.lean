import ThemeMarkup.Tag.Scan
import ThemeMarkup.Text.Word

namespace ThemeMarkup.Attribute

def isNameStart (c : Char) : Bool :=
  c.isAlpha || c = '_'

def isNameChar (c : Char) : Bool :=
  Text.isWord c || c = '-'

def isBare (c : Char) : Bool :=
  !Text.isBlank c && c ≠ '"' && c ≠ '\''

/-- The value between quotes of a kind, after the first of them, and what follows. -/
def readQuoted? (quote : Char) (text : Text) : Option (Text × Text) :=
  match text.dropWhile (· ≠ quote) with
  | [] => none
  | _ :: rest => some (text.takeWhile (· ≠ quote), rest)

def readValue? : Text → Option (Text × Text)
  | [] => none
  | c :: text =>
    if c = '"' ∨ c = '\'' then readQuoted? c text
    else if isBare c then some (c :: text.takeWhile isBare, text.dropWhile isBare)
    else none

/-- What follows the equals sign of a pair, blanks around it passed over. A double sign is none. -/
def afterEquals? (text : Text) : Option Text :=
  match Text.stripLeft text with
  | '=' :: '=' :: _ => none
  | '=' :: rest => some (Text.stripLeft rest)
  | _ => none

/-- The name and the value at the beginning of a text, and what follows. -/
def read? : Text → Option ((Text × Text) × Text)
  | [] => none
  | c :: text =>
    if isNameStart c then
      match afterEquals? (text.dropWhile isNameChar) with
      | none => none
      | some rest => (readValue? rest).map fun (value, rest) =>
          ((c :: text.takeWhile isNameChar, value), rest)
    else none

/-- The pairs of a text in order. -/
def pairsFrom (free : Bool) : Text → List (Text × Text)
  | [] => []
  | c :: text =>
    match if free then read? (c :: text) else none with
    | none => pairsFrom (Text.isBlank c) text
    | some (pair, rest) =>
      if rest.length ≤ text.length then pair :: pairsFrom false rest
      else pairsFrom (Text.isBlank c) text
termination_by text => text.length

/-- The attributes that a text gives, names in lower case; a later one replaces an earlier one of
the same name. -/
def parse (text : Text) (default? : Option Text) : Table Text :=
  let text := Text.strip text
  match pairsFrom true text with
  | [] =>
    match text, default? with
    | _ :: _, some (c :: default) => Table.ofList [(c :: default, text)]
    | _, _ => ∅
  | pair :: pairs =>
    Table.ofList ((pair :: pairs).map fun (name, value) => (Text.lower name, value))

end ThemeMarkup.Attribute
