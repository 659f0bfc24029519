import ThemeMarkup.Text.Quoted

namespace ThemeMarkup.Yaml

inductive Fault where
  | malformed
  | noCodePoint
  | noText
  | noWhole (base : Nat) (text : Text)
  | tooManyDigits (count : Nat)
  | noDecimal (text : Text)
  | noTruthValue (text : Text)
  | noDate
  | noYear (year : Nat)
  | noMonth
  | noDay
  | noHour
  | noMinute
  | noSecond
  | farZone (days seconds : Int)
  deriving DecidableEq, Repr

/-- The greatest number of decimal digits that a whole number may have. -/
def maxDigits : Nat := 4300

/-- The greatest number of characters that are shown of a text that is no number. -/
def maxShown : Nat := 200

/-- A length of time of some days and seconds, not both zero, as it is shown. -/
def durationText (days seconds : Int) : Text :=
  let dayText : Text := "days=" ++ Text.ofInt days
  let secondText : Text := "seconds=" ++ Text.ofInt seconds
  let parts : Text :=
    if seconds = 0 then dayText else if days = 0 then secondText else dayText ++ ", " ++ secondText
  "datetime.timedelta(" ++ parts ++ ")"

def Fault.message : Fault → Text
  | .malformed | .noDate => []
  | .noText => "string index out of range"
  | .noCodePoint => "chr() arg not in range(0x110000)"
  | .noWhole base text =>
    "invalid literal for int() with base " ++ Text.ofNat base ++ ": " ++
      (Text.quoted text).take maxShown
  | .tooManyDigits count =>
    "Exceeds the limit (" ++ Text.ofNat maxDigits ++
      " digits) for integer string conversion: value has " ++ Text.ofNat count ++
      " digits; use sys.set_int_max_str_digits() to increase the limit"
  | .noDecimal text => "could not convert string to float: " ++ Text.quoted text
  | .noTruthValue text => Text.quoted text
  | .noYear year => "year " ++ Text.ofNat year ++ " is out of range"
  | .noMonth => "month must be in 1..12"
  | .noDay => "day is out of range for month"
  | .noHour => "hour must be in 0..23"
  | .noMinute => "minute must be in 0..59"
  | .noSecond => "second must be in 0..59"
  | .farZone days seconds =>
    "offset must be a timedelta strictly between -timedelta(hours=24) and timedelta(hours=24), not "
      ++ durationText days seconds ++ "."

end ThemeMarkup.Yaml
