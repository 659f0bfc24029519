import ThemeMarkup.Text.Basic

namespace ThemeMarkup

inductive Double where
  | finite (value : Rat)
  | infinite (negative : Bool)
  | undefined
  deriving DecidableEq, Inhabited

namespace Double

/-- The whole number nearest to a fraction, the even one of two that are equally near. -/
def nearest (num den : Nat) : Nat :=
  let quotient := num / den
  let rest := 2 * (num % den)
  if rest < den then quotient else if den < rest then quotient + 1 else quotient + quotient % 2

/-- The fraction `num / den` with its value multiplied by `base` to the power of `exponent`. -/
def scale (base num den : Nat) (exponent : Int) : Nat × Nat :=
  if exponent < 0 then (num, den * Nat.pow base (-exponent).toNat)
  else (num * Nat.pow base exponent.toNat, den)

def signed (negative : Bool) (num den : Nat) : Rat :=
  mkRat (if negative then -num else num) den

/-- The power of two that the last binary digit of the number nearest to a fraction stands for. -/
def lastExponent (num den : Nat) : Int :=
  let guess : Int := (num.log2 : Int) - den.log2 - 52
  let (n, d) := scale 2 num den (-guess)
  max (if n < d * Nat.pow 2 52 then guess - 1 else guess) (-1074)

def ofFraction (negative : Bool) (num den : Nat) : Double :=
  if num = 0 then .finite 0
  else
    let exponent := lastExponent num den
    let (n, d) := scale 2 num den (-exponent)
    let (value, unit) := scale 2 (nearest n d) 1 exponent
    if Nat.pow 2 1024 ≤ value / unit then .infinite negative
    else .finite (signed negative value unit)

def ofRat (value : Rat) : Double :=
  ofFraction (value.num < 0) value.num.natAbs value.den

/-- The number nearest to a whole number times a power of ten. -/
def ofDecimal (negative : Bool) (mantissa : Nat) (power : Int) : Double :=
  let places : Int := (Text.ofNat mantissa).length + power
  if mantissa = 0 ∨ places < -400 then .finite 0
  else if 400 < places then .infinite negative
  else
    let (num, den) := scale 10 mantissa 1 power
    ofFraction negative num den

def add : Double → Double → Double
  | .finite a, .finite b => ofRat (Rat.add a b)
  | .finite _, b => b
  | a, .finite _ => a
  | .infinite a, .infinite b => if a = b then .infinite a else .undefined
  | _, _ => .undefined

def negate : Double → Double
  | .finite a => .finite (Rat.neg a)
  | .infinite negative => .infinite !negative
  | .undefined => .undefined

/-- The nearest number to the product with a whole number that is not zero. -/
def scaleBy (factor : Nat) : Double → Double
  | .finite a =>
    match ofRat (factor : Rat) with
    | .finite b => ofRat (Rat.mul a b)
    | b => if a = 0 then .undefined else b
  | a => a

def whole? : Double → Option Int
  | .finite value => if value.den = 1 then some value.num else none
  | _ => none

/-- The power of ten that the first decimal digit of a fraction stands for. -/
def firstExponent (num den : Nat) : Int :=
  let guess : Int := (Text.ofNat num).length - (Text.ofNat den).length
  let (n, d) := scale 10 num den (-guess)
  if n < d then guess - 1 else guess

/-- Of the two decimals with a number of digits next to a fraction, the nearest that is rounded to
the fraction, and the power of ten that its last digit stands for. -/
def decimal? (num den count : Nat) : Option (Nat × Int) :=
  let unit := firstExponent num den - count + 1
  let (n, d) := scale 10 num den (-unit)
  let near := nearest n d
  let far := if near = n / d then near + 1 else n / d
  ([near, far].find? fun digits =>
    let (value, divisor) := scale 10 digits 1 unit
    ofFraction false value divisor = .finite (signed false num den)).map (·, unit)

/-- The fewest digits that are rounded to a fraction, and the power of ten of the last one. -/
def shortest (num den : Nat) : Nat × Int :=
  ((List.range 17).findSome? fun i => decimal? num den (i + 1)).getD (0, 0)

/-- Decimal digits, the point after the first `point` of them; with an exponent if the point is far
from them. -/
def layOut (digits : Text) (point : Int) : Text :=
  if -4 < point ∧ point ≤ 16 then
    let whole := digits.take point.toNat ++ List.replicate (point.toNat - digits.length) '0'
    let places := List.replicate (-point).toNat '0' ++ digits.drop point.toNat
    (if whole = [] then ['0'] else whole) ++ ['.'] ++ (if places = [] then ['0'] else places)
  else
    let power := point - 1
    digits.take 1 ++ (if digits.length ≤ 1 then [] else ['.'] ++ digits.drop 1) ++ ['e'] ++
      [if power < 0 then '-' else '+'] ++ List.replicate (if power.natAbs < 10 then 1 else 0) '0' ++
      Text.ofNat power.natAbs

def toText : Double → Text
  | .undefined => "nan".toList
  | .infinite negative => (if negative then "-inf" else "inf").toList
  | .finite value =>
    if value = 0 then "0.0".toList
    else
      let (number, unit) := shortest value.num.natAbs value.den
      let written := Text.ofNat number
      let digits := (written.reverse.dropWhile (· = '0')).reverse
      (if value.num < 0 then ['-'] else []) ++ layOut digits (written.length + unit)

end Double

end ThemeMarkup
