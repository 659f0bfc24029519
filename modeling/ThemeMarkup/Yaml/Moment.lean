import ThemeMarkup.Yaml.Scalar

namespace ThemeMarkup.Yaml

/-- A time of the day, and the minutes that its zone is ahead if that is given. -/
structure TimeOfDay where
  hour : Nat
  minute : Nat
  second : Nat
  micros : Nat := 0
  zone : Option Int := none
  deriving DecidableEq, Repr

/-- A date, with a time of the day if it is given. -/
structure Moment where
  year : Nat
  month : Nat
  day : Nat
  time : Option TimeOfDay := none
  deriving DecidableEq, Repr

namespace Moment

/-- The number that digits at the beginning of a text write, at least and at most some of them, and
the text after them. -/
def digits? (least most : Nat) (text : Text) : Option (Nat × Text) :=
  let digits := (text.take most).takeWhile Char.isDigit
  if least ≤ digits.length then some (ofDigits 10 digits, text.drop digits.length) else none

def after? (c : Char) : Text → Option Text
  | [] => none
  | d :: text => if d = c then some text else none

/-- The minutes that a time zone is ahead, and the text after it: `Z`, or hours and perhaps minutes
after a sign. -/
def zone? : Text → Option (Int × Text)
  | [] => none
  | sign :: text =>
    if sign = 'Z' then some (0, text)
    else if sign = '+' || sign = '-' then do
      let (hours, text) ← digits? 1 2 text
      let (minutes, text) :=
        match after? ':' text >>= digits? 2 2 with
        | some (minutes, text) => (minutes, text)
        | none => (0, text)
      let ahead : Int := hours * 60 + minutes
      return (if sign = '-' then -ahead else ahead, text)
    else none

/-- The millionths of a second that digits after a point write, of which six count. -/
def microsOf (digits : Text) : Nat :=
  ofDigits 10 ((digits ++ List.replicate 6 '0').take 6)

def timeOfDay? (text : Text) : Option TimeOfDay := do
  let (hour, text) ← digits? 1 2 text
  let (minute, text) ← after? ':' text >>= digits? 2 2
  let (second, text) ← after? ':' text >>= digits? 2 2
  let (fraction, text) :=
    match after? '.' text with
    | some text => (text.takeWhile Char.isDigit, text.dropWhile Char.isDigit)
    | none => ([], text)
  let micros := microsOf fraction
  if text = [] then return { hour, minute, second, micros }
  let (zone, text) ← zone? (text.dropWhile isBlank)
  if text = [] then return { hour, minute, second, micros, zone := some zone } else none

/-- The moment that a text writes. The month and the day have two digits unless a time follows. -/
def ofText? (text : Text) : Option Moment := do
  let (year, text) ← digits? 4 4 text
  let text ← after? '-' text
  let (month, afterMonth) ← digits? 1 2 text
  let afterMonth ← after? '-' afterMonth
  let (day, rest) ← digits? 1 2 afterMonth
  if rest = [] then
    if text.length = 5 then return { year, month, day } else none
  let clock ← if isBlank (rest.headD 'x') then some (rest.dropWhile isBlank)
    else after? 'T' rest <|> after? 't' rest
  return { year, month, day, time := some (← timeOfDay? clock) }

def daysIn (year month : Nat) : Nat :=
  let isLong := year % 4 = 0 && (year % 100 ≠ 0 || year % 400 = 0)
  [31, if isLong then 29 else 28, 31, 30, 31, 30, 31, 31, 30, 31, 30, 31].getD (month - 1) 0

/-- What is wrong with a moment that there never is. The time zone is looked at before all else. -/
def fault? (moment : Moment) : Option Fault :=
  let time := moment.time.getD ⟨0, 0, 0, 0, none⟩
  let zone := time.zone.getD 0
  if 24 * 60 ≤ zone.natAbs then some (.farZone (zone.fdiv (24 * 60)) (zone.fmod (24 * 60) * 60))
  else if moment.year = 0 then some (.noYear 0)
  else if moment.month = 0 ∨ 12 < moment.month then some .noMonth
  else if moment.day = 0 ∨ daysIn moment.year moment.month < moment.day then some .noDay
  else if 23 < time.hour then some .noHour
  else if 59 < time.minute then some .noMinute
  else if 59 < time.second then some .noSecond
  else none

def zoneText (zone : Int) : Text :=
  if zone = 0 then "datetime.timezone.utc"
  else
    "datetime.timezone(" ++
      durationText (zone.fdiv (24 * 60)) (zone.fmod (24 * 60) * 60) ++ ")"

/-- A moment as it is shown: its numbers in order, without seconds and fractions that are zero. -/
def toText (moment : Moment) : Text :=
  let listed (numbers : List Nat) : Text := [',', ' '].intercalate (numbers.map Text.ofNat)
  let date := [moment.year, moment.month, moment.day]
  match moment.time with
  | none => "datetime.date(" ++ listed date ++ ")"
  | some time =>
    let rest :=
      if time.micros ≠ 0 then [time.second, time.micros]
      else if time.second ≠ 0 then [time.second]
      else []
    let zone : Text :=
      match time.zone with
      | some zone => ", tzinfo=" ++ zoneText zone
      | none => []
    "datetime.datetime(" ++ listed (date ++ [time.hour, time.minute] ++ rest) ++ zone ++ ")"

end Moment

end ThemeMarkup.Yaml
