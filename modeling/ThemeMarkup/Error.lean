import ThemeMarkup.Span.Basic
import ThemeMarkup.Text.Quoted
import ThemeMarkup.Text.Base64
import ThemeMarkup.Yaml.Fault

namespace ThemeMarkup

/-- What is wrong with a tag of a template. -/
inductive TagFault where
  | crossing (span other : Span)
  | unpaired (name : Text)
  | missingAttribute (name key : Text)
  deriving DecidableEq, Repr

/-- A fault of a tag, where it is, and the place as shown to the author once it is known. -/
structure TagError where
  fault : TagFault
  span : Span
  location : Option Text := none
  deriving DecidableEq, Repr

def TagFault.message : TagFault → Text
  | .crossing s o =>
    "Template engine tag library does not support cross: [" ++ Text.ofInt s.first ++ ", " ++
      Text.ofInt s.last ++ "] crosses [" ++ Text.ofInt o.first ++ ", " ++ Text.ofInt o.last ++ "]."
  | .unpaired name =>
    name ++ " type nodes must be used in pairs, and no corresponding tail tags are found."
  | .missingAttribute name key =>
    "The node " ++ name ++ " lacks the required property: " ++ key ++ "."

/-- The wording of a fault, with its place on the lines below if that is known. -/
def TagError.message (e : TagError) : Text :=
  match e.location with
  | some location => e.fault.message ++ ['\n'] ++ location
  | none => e.fault.message

inductive Problem.Kind where
  | missing
  | notText
  | emptyText
  | notTruthValue
  | unreadableTruthValue
  | notMapping
  | notList
  | notSection
  | notPath
  | unknownCategory (name : Text)
  deriving DecidableEq, Repr

/-- A value of a configuration that is not accepted, under the names that lead to it. -/
structure Problem where
  location : List Text
  kind : Problem.Kind
  deriving DecidableEq, Repr

/-- The wording of a problem that is not a matter of a value's type alone. -/
def Problem.Kind.message? : Problem.Kind → Option Text
  | .unknownCategory name =>
    some ("Value error, Tag category '" ++ name ++
      "' has no delimiters (expected one of: global, code, node)")
  | _ => none

inductive ConfigError where
  | missingFile (path : Text)
  | malformed (path : Text)
  | notMapping (path : Text)
  | invalid (path : Text) (problems : List Problem)
  | noThemePath
  | noDirectory
  | missingDirectory (path : Text)
  deriving DecidableEq, Repr

def ConfigError.message : ConfigError → Text
  | .missingFile path => "Config file not found: " ++ path
  | .malformed path => "Failed to parse YAML in " ++ path ++ ":"
  | .notMapping path => path ++ " must hold a mapping at the top level"
  | .invalid path _ => "Invalid config " ++ path ++ ":"
  | .noThemePath => "Theme path must be set."
  | .noDirectory => "No view dir given and view.theme_path is not set."
  | .missingDirectory path => "View dir `" ++ path ++ "` does not exist."

/-- Every way in which an operation of the library can fail. -/
inductive Error where
  | tag (error : TagError)
  | unknownRoutine (identifier : Text)
  | noEntry (name : Text)
  | noText
  | base64 (fault : Base64.Fault)
  | utf8 (fault : Utf8.Fault)
  | reversedSpan
  | noLine
  | uncountableLine
  | uncountable
  | noRoom
  | unknownPass (name : Text)
  | missingSource (path : Text)
  | missingFile (path : Text)
  | isDirectory (path : Text)
  | notDirectory (path : Text)
  | pathTaken (path : Text)
  | missingTheme (name : Text)
  | config (error : ConfigError)
  | yaml (fault : Yaml.Fault)
  | problems (problems : List Problem)
  | foreignName
  | badPattern
  | rendering (kind message : Text)
  deriving DecidableEq, Repr

def Utf8.Reason.message : Utf8.Reason → Text
  | .start => "invalid start byte"
  | .continuation => "invalid continuation byte"
  | .ending => "unexpected end of data"

def Utf8.Fault.message (f : Utf8.Fault) : Text :=
  (if f.count = 1 then
    "'utf-8' codec can't decode byte 0x" ++ Text.hex 2 f.octet.toNat ++ " in position " ++
      Text.ofNat f.offset
  else
    "'utf-8' codec can't decode bytes in position " ++ Text.ofNat f.offset ++ "-" ++
      Text.ofNat (f.offset + f.count - 1)) ++ ": " ++ f.reason.message

def Base64.Fault.message : Base64.Fault → Text
  | .foreign => "string argument should contain only ASCII characters"
  | .loneDigit digits =>
    "Invalid base64-encoded string: number of data characters (" ++ Text.ofNat digits ++
      ") cannot be 1 more than a multiple of 4"
  | .padding => "Incorrect padding"

def Error.message : Error → Text
  | .tag e => e.message
  | .unknownRoutine identifier => "Compile routine not registered: " ++ identifier
  | .noEntry name => Text.quoted name
  | .noText => []
  | .base64 fault => fault.message
  | .utf8 fault => fault.message
  | .reversedSpan => "__len__() should return >= 0"
  | .noLine => "list index out of range"
  | .uncountableLine | .uncountable => "cannot fit 'int' into an index-sized integer"
  | .noRoom => []
  | .unknownPass name => "Unknown pass: " ++ name
  | .missingSource path => "File " ++ path ++ " does not exist."
  | .missingFile path => "[Errno 2] No such file or directory: " ++ Text.quoted path
  | .isDirectory path => "[Errno 21] Is a directory: " ++ Text.quoted path
  | .notDirectory path => "[Errno 20] Not a directory: " ++ Text.quoted path
  | .pathTaken path => "[Errno 17] File exists: " ++ Text.quoted path
  | .missingTheme name => name
  | .config e => e.message
  | .yaml fault => fault.message
  | .problems _ => []
  | .foreignName => "keywords must be strings"
  | .badPattern => "Invalid pattern: '**' can only be an entire path component"
  | .rendering _ message => message

end ThemeMarkup
