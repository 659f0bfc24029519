import ThemeMarkup.Tag.Scan
import ThemeMarkup.Text.Base64
import ThemeMarkup.Text.Word
import ThemeMarkup.Error

namespace ThemeMarkup

/-- What a marker protects. -/
inductive Marker where
  | code
  | literal
  deriving DecidableEq, Repr

namespace Marker

def word : Marker → Text
  | .code => "revert"
  | .literal => "global"

/-- The numbers drawn for markers, by the word of the kind and the content. -/
class Serials where
  number : Text → Text → Nat

@[reducible]
def Serials.sample : Serials :=
  ⟨fun _ _ => 1234567⟩

def opening (kind : Text) : Text :=
  "__##" ++ kind ++ "##START##"

def closing (kind : Text) : Text :=
  "##END##" ++ kind ++ "##__"

section

variable [Serials]

/-- The serial number that a marker is written with; readers take any. -/
def serial (kind content : Text) : Text :=
  Text.ofNat (Serials.number kind content)

/-- The marker that holds some content, for a kind given by its word. -/
def encodeAs (kind content : Text) : Text :=
  opening kind ++ serial kind content ++ ['@'] ++ Base64.encode (Utf8.encode content) ++
    closing kind

def encode (kind : Marker) (content : Text) : Text :=
  encodeAs kind.word content

end

def decode (payload : Text) : Except Error Text :=
  match Base64.decode payload with
  | .error fault => .error (.base64 fault)
  | .ok octets =>
    match Utf8.decode octets with
    | .error fault => .error (.utf8 fault)
    | .ok text => .ok text

/-- The payload, of one character or more on one line, that runs to the nearest closing. -/
def readPayload? (kind : Marker) : Text → Option (Text × Text)
  | [] => none
  | c :: text =>
    match Text.cut? (closing kind.word) text with
    | none => none
    | some (payload, rest) =>
      if (c :: payload).contains '\n' then none else some (c :: payload, rest)

/-- The payload of the marker at the beginning of a text, and what follows the marker. -/
def read? (kind : Marker) (text : Text) : Option (Text × Text) :=
  match Text.after? id (opening kind.word) text with
  | none => none
  | some text =>
    match text.takeWhile Text.isDigit, text.dropWhile Text.isDigit with
    | _ :: _, '@' :: payload => readPayload? kind payload
    | _, _ => none

def routine : Marker → Text
  | .code => "revert"
  | .literal => "globalrevert"

/-- The markers of a kind in a text as nodes whose content is the payload. -/
def nodes (kind : Marker) (text : Text) : List Node :=
  (Found.scan (read? kind) text).map fun found =>
    { source := found.source
      content := found.value
      routine := some kind.routine
      span := found.span text }

end Marker

end ThemeMarkup
