import ThemeMarkup.Text.Basic

namespace ThemeMarkup

/-- A set of characters as a list of closed ranges of code points. -/
abbrev CharRanges := List (Nat × Nat)

def CharRanges.contains (ranges : CharRanges) (c : Char) : Bool :=
  ranges.any fun (first, last) => first ≤ c.toNat && c.toNat ≤ last

/-- A character of the first 128 code points. -/
def Text.isAscii (c : Char) : Bool :=
  c.toNat < 128

end ThemeMarkup
