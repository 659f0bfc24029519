import ThemeMarkup.Text.Basic

namespace ThemeMarkup

abbrev Octets := List UInt8

namespace Utf8

/-- The octet that continues a character with the lowest six bits of a number. -/
def tailOctet (n : Nat) : UInt8 :=
  UInt8.ofNat (0x80 + n % 0x40)

def encodeChar (c : Char) : Octets :=
  let n := c.toNat
  if n < 0x80 then [UInt8.ofNat n]
  else if n < 0x800 then [UInt8.ofNat (0xC0 + n / 0x40), tailOctet n]
  else if n < 0x10000 then
    [UInt8.ofNat (0xE0 + n / 0x1000), tailOctet (n / 0x40), tailOctet n]
  else
    [UInt8.ofNat (0xF0 + n / 0x40000), tailOctet (n / 0x1000), tailOctet (n / 0x40), tailOctet n]

def encode (text : Text) : Octets :=
  text.flatMap encodeChar

inductive Reason where
  | start
  | continuation
  | ending
  deriving DecidableEq, Repr

/-- Octets that are not UTF-8: the offset of the first and how many are at fault. -/
structure Fault where
  reason : Reason
  octet : UInt8
  offset : Nat
  count : Nat
  deriving DecidableEq, Repr

/-- A character of which some octets are still owed: the next must lie between `low` and `high`. -/
structure Pending where
  octet : UInt8
  taken : Nat
  owed : Nat
  low : Nat
  high : Nat
  value : Nat
  deriving DecidableEq, Repr

/-- What the first octet of a character of several octets announces. -/
def pending? (octet : UInt8) : Option Pending :=
  let n := octet.toNat
  if n < 0xC2 then none
  else if n < 0xE0 then some ⟨octet, 1, 1, 0x80, 0xBF, n - 0xC0⟩
  else if n = 0xE0 then some ⟨octet, 1, 2, 0xA0, 0xBF, 0⟩
  else if n = 0xED then some ⟨octet, 1, 2, 0x80, 0x9F, 0xD⟩
  else if n < 0xF0 then some ⟨octet, 1, 2, 0x80, 0xBF, n - 0xE0⟩
  else if n = 0xF0 then some ⟨octet, 1, 3, 0x90, 0xBF, 0⟩
  else if n < 0xF4 then some ⟨octet, 1, 3, 0x80, 0xBF, n - 0xF0⟩
  else if n = 0xF4 then some ⟨octet, 1, 3, 0x80, 0x8F, 4⟩
  else none

/-- The text of octets that begin at `offset`, after the octets of an unfinished character. -/
def decodeFrom (offset : Nat) : Option Pending → Octets → Except Fault Text
  | none, [] => .ok []
  | some p, [] => .error ⟨.ending, p.octet, offset - p.taken, p.taken⟩
  | none, octet :: octets =>
    if octet.toNat < 0x80 then
      (Char.ofNat octet.toNat :: ·) <$> decodeFrom (offset + 1) none octets
    else
      match pending? octet with
      | none => .error ⟨.start, octet, offset, 1⟩
      | some p => decodeFrom (offset + 1) (some p) octets
  | some p, octet :: octets =>
    if p.low ≤ octet.toNat ∧ octet.toNat ≤ p.high then
      let value := p.value * 0x40 + (octet.toNat - 0x80)
      if p.owed = 1 then
        (Char.ofNat value :: ·) <$> decodeFrom (offset + 1) none octets
      else
        decodeFrom (offset + 1) (some ⟨p.octet, p.taken + 1, p.owed - 1, 0x80, 0xBF, value⟩) octets
    else .error ⟨.continuation, p.octet, offset - p.taken, p.taken⟩

def decode (octets : Octets) : Except Fault Text :=
  decodeFrom 0 none octets

end Utf8

end ThemeMarkup
