import ThemeMarkup.Text.Basic

namespace ThemeMarkup

/-- A span of text, both ends included. -/
structure Span where
  first : Int
  last : Int
  firstLine : Int := 0
  lastLine : Int := 0
  firstColumn : Int := 0
  lastColumn : Int := 0
  deriving DecidableEq, Repr, Inhabited

namespace Span

def nowhere : Span := ⟨-1, -1, -1, -1, -1, -1⟩

/-- Whether a span lies in a text at all. -/
def isLocated (span : Span) : Bool :=
  0 ≤ span.first

def lineAt (text : Text) (offset : Nat) : Nat :=
  (text.take offset).count '\n'

/-- The number of characters between the last line feed before an offset and the offset. -/
def columnAt (text : Text) (offset : Nat) : Nat :=
  ((text.take offset).reverse.takeWhile (· ≠ '\n')).length

/-- The span of `length` characters from offset `first` on, at least one. -/
def ofRange (text : Text) (first length : Nat) : Span :=
  let last := first + length - 1
  { first, last
    firstLine := lineAt text first
    lastLine := lineAt text last
    firstColumn := columnAt text first
    lastColumn := columnAt text last }

/-- The span of the first occurrence of `needle` that does not begin before `start`. -/
def locate (text needle : Text) (start : Int) : Span :=
  let start := if start < 0 then (text.length + start).toNat else start.toNat
  match needle with
  | [] => nowhere
  | _ :: _ =>
    match Text.findFrom? needle start text with
    | some first => ofRange text first needle.length
    | none => nowhere

/-- The characters of a text that a span covers. -/
def read (span : Span) (text : Text) : Text :=
  text.slice span.first (span.last + 1)

/-- The span in `template` of what `span` covers in `text`: the occurrence that as many occurrences
precede there as in `text`. -/
def relocate? (span : Span) (text template : Text) : Option Span :=
  let needle := span.read text
  if span.isLocated ∧ needle ≠ [] then
    let before := Text.occurrences needle 0 (text.slice 0 span.first)
    (Text.occurrences needle 0 template)[before.length]?.map fun first =>
      ofRange template first needle.length
  else none

end Span

end ThemeMarkup
