import ThemeMarkup.Text.Utf8

namespace ThemeMarkup.Base64

def digit (n : Nat) : Char :=
  if n < 26 then Char.ofNat (65 + n)
  else if n < 52 then Char.ofNat (71 + n)
  else if n < 62 then Char.ofNat (n - 4)
  else if n = 62 then '+'
  else '/'

def digit? (c : Char) : Option Nat :=
  let n := c.toNat
  if 65 ≤ n ∧ n ≤ 90 then some (n - 65)
  else if 97 ≤ n ∧ n ≤ 122 then some (n - 71)
  else if 48 ≤ n ∧ n ≤ 57 then some (n + 4)
  else if c = '+' then some 62
  else if c = '/' then some 63
  else none

def encode : Octets → Text
  | [] => []
  | [a] => [digit (a.toNat / 4), digit (a.toNat % 4 * 16), '=', '=']
  | [a, b] =>
    [digit (a.toNat / 4), digit (a.toNat % 4 * 16 + b.toNat / 16), digit (b.toNat % 16 * 4), '=']
  | a :: b :: c :: octets =>
    digit (a.toNat / 4) :: digit (a.toNat % 4 * 16 + b.toNat / 16) ::
      digit (b.toNat % 16 * 4 + c.toNat / 64) :: digit (c.toNat % 64) :: encode octets

/-- The whole octets that the first digits of a group hold. -/
def octets : List Nat → Octets
  | [a, b] => [UInt8.ofNat (a * 4 + b / 16)]
  | [a, b, c] => [UInt8.ofNat (a * 4 + b / 16), UInt8.ofNat (b % 16 * 16 + c / 4)]
  | [a, b, c, d] =>
    [UInt8.ofNat (a * 4 + b / 16), UInt8.ofNat (b % 16 * 16 + c / 4), UInt8.ofNat (c % 4 * 64 + d)]
  | _ => []

inductive Fault where
  | foreign
  | loneDigit (digits : Nat)
  | padding
  deriving DecidableEq, Repr

/-- The octets of a text that follows `groups` whole groups, the digits `held` of an unfinished one
and `pads` equals signs after the last of these digits. -/
def decodeFrom (groups : Nat) (held : List Nat) (pads : Nat) : Text → Except Fault Octets
  | [] =>
    match held with
    | [] => .ok []
    | [_] => .error (.loneDigit (4 * groups + 1))
    | _ => .error .padding
  | c :: text =>
    if c = '=' then
      if held.length < 2 then decodeFrom groups held pads text
      else if held.length + (pads + 1) < 4 then decodeFrom groups held (pads + 1) text
      else .ok (octets held)
    else
      match digit? c with
      | none => decodeFrom groups held pads text
      | some n =>
        if held.length = 3 then
          (octets (held ++ [n]) ++ ·) <$> decodeFrom (groups + 1) [] 0 text
        else decodeFrom groups (held ++ [n]) 0 text

def decode (text : Text) : Except Fault Octets :=
  if text.all fun c => c.toNat < 128 then decodeFrom 0 [] 0 text else .error .foreign

end ThemeMarkup.Base64
