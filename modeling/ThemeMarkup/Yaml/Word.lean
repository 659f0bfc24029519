import ThemeMarkup.Data
import ThemeMarkup.Text.Lowercase
import ThemeMarkup.Yaml.Moment

namespace ThemeMarkup.Yaml

inductive Kind where
  | null
  | truth
  | whole
  | decimal
  | moment
  | text
  | merge
  | default
  deriving DecidableEq, Repr

def among (words : List String) (word : Text) : Bool :=
  words.any fun w => w.toList = word

/-- A word without a sign at its beginning, and whether that sign is a minus. -/
def unsigned : Text → Bool × Text
  | '-' :: word => (true, word)
  | '+' :: word => (false, word)
  | word => (false, word)

/-- Whether a word has only characters of a class, and at least one. -/
def allOf (inClass : Char → Bool) (word : Text) : Bool :=
  word ≠ [] && word.all inClass

def isDigit (c : Char) : Bool :=
  c.isDigit || c = '_'

/-- Whether a word has only decimal digits and underscores, a digit first. -/
def isNumeral (word : Text) : Bool :=
  word.head?.any Char.isDigit && word.all isDigit

/-- Whether a text is a part of a number in base sixty: below sixty, in one or two digits. -/
def isSixtieth (part : Text) : Bool :=
  allOf Char.isDigit part && (part.length = 1 || part.length = 2 && part.head?.any (· ≤ '5'))

/-- Whether a word without sign is a whole number: decimal, in base two, eight or sixteen, or parts
in base sixty. -/
def isWhole (word : Text) : Bool :=
  match word with
  | '0' :: 'b' :: digits => allOf (fun c => c = '0' || c = '1' || c = '_') digits
  | '0' :: 'x' :: digits => allOf (fun c => isHexDigit c || c = '_') digits
  | '0' :: digits => digits.all fun c => '0' ≤ c && c ≤ '7' || c = '_'
  | _ =>
    match word.splitOn ':' with
    | first :: parts => isNumeral first && parts.all isSixtieth
    | [] => false

def isExponent : Text → Bool
  | [] => true
  | e :: sign :: digits =>
    (e = 'e' || e = 'E') && (sign = '+' || sign = '-') && allOf Char.isDigit digits
  | _ => false

/-- Whether a word with its sign is a decimal number or a number that is not finite. -/
def isDecimal (word : Text) : Bool :=
  let (_, digits) := unsigned word
  among [".inf", ".Inf", ".INF"] digits || among [".nan", ".NaN", ".NAN"] word ||
    match digits.splitOn '.' with
    | [whole, places] =>
      let exponent := places.dropWhile isDigit
      match whole.splitOn ':' with
      | [[]] => digits = word && places.head?.any Char.isDigit && isExponent exponent
      | [whole] => isNumeral whole && isExponent exponent
      | first :: parts => isNumeral first && parts.all isSixtieth && exponent = []
      | [] => false
    | _ => false

def Kind.ofWord (word : Text) : Kind :=
  if word = [] || among ["~", "null", "Null", "NULL"] word then .null
  else if among ["yes", "Yes", "YES", "true", "True", "TRUE", "on", "On", "ON",
      "no", "No", "NO", "false", "False", "FALSE", "off", "Off", "OFF"] word then .truth
  else if word = ['<', '<'] then .merge
  else if word = ['='] then .default
  else if isWhole (unsigned word).2 then .whole
  else if isDecimal word then .decimal
  else if (Moment.ofText? word).isSome then .moment
  else .text

/-- The number that digits of a base write, all of them. -/
def readDigits (base : Nat) (digits : Text) : Except Fault Nat :=
  let count := (digits.takeWhile Char.isDigit).length
  if base = 10 && maxDigits < count then .error (.tooManyDigits count)
  else if digits = [] || !digits.all (fun c => isHexDigit c && digitValue c < base) then
    .error (.noWhole base digits)
  else .ok (ofDigits base digits)

/-- The whole number that a word stands for. Underscores count for nothing. -/
def readWhole (word : Text) : Except Fault Int := do
  let (negative, digits) := unsigned (word.filter (· ≠ '_'))
  let n ←
    match digits with
    | [] => throw .noText
    | ['0'] => pure 0
    | '0' :: 'b' :: digits => readDigits 2 digits
    | '0' :: 'x' :: digits => readDigits 16 digits
    | '0' :: _ => readDigits 8 digits
    | _ => do
      let parts ← (digits.splitOn ':').mapM (readDigits 10)
      pure (parts.foldl (fun n part => n * 60 + part) 0)
  return if negative then -n else n

/-- The number that decimal digits with a point and an exponent write. -/
def readDecimalPart? (text : Text) : Option Double :=
  let whole := text.takeWhile Char.isDigit
  let rest := text.dropWhile Char.isDigit
  let places := (rest.drop 1).takeWhile Char.isDigit
  let exponent := (rest.drop 1).dropWhile Char.isDigit
  if (rest = [] || rest.head? = some '.') && whole ++ places ≠ [] && isExponent exponent then
    let (negative, digits) := unsigned (exponent.drop 1)
    let power : Int := ofDigits 10 digits
    some (.ofDecimal false (ofDigits 10 (whole ++ places))
      ((if negative then -power else power) - places.length))
  else none

/-- The number that a word for a decimal number stands for: rounded, part by part in base sixty. -/
def readDecimal (word : Text) : Except Fault Double :=
  let (negative, digits) := unsigned (word.filter (· ≠ '_'))
  let lower := digits.map Text.lowerAscii
  if word.all (· = '_') then .error .noText
  else if among [".inf"] lower then .ok (.infinite negative)
  else if among [".nan"] lower then .ok .undefined
  else
    match (digits.splitOn ':').mapM readDecimalPart? with
    | some parts =>
      let sum := parts.reverse.zipIdx.foldl
        (fun sum (part, i) => sum.add (part.scaleBy (Nat.pow 60 i))) (.finite 0)
      .ok (if negative then sum.negate else sum)
    | none => .error (.noDecimal word)

def Kind.read (kind : Kind) (word : Text) : Except Fault Data :=
  match kind with
  | .null => .ok .null
  | .truth =>
    let lower := word.map Text.lowerAscii
    if among ["yes", "true", "on"] lower then .ok (.truth true)
    else if among ["no", "false", "off"] lower then .ok (.truth false)
    else .error (.noTruthValue lower)
  | .whole => .whole <$> readWhole word
  | .decimal => .real <$> readDecimal word
  | .moment =>
    match Moment.ofText? word with
    | none => .error .noDate
    | some date =>
      match date.fault? with
      | some fault => .error fault
      | none => .ok (.moment date.toText)
  | .text => .ok (.text word)
  | .merge | .default => .error .malformed

end ThemeMarkup.Yaml
