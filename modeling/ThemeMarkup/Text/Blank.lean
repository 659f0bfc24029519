import ThemeMarkup.Text.Basic

namespace ThemeMarkup.Text

/-- The blanks of ASCII: tab, line feed, vertical tab, form feed, carriage return and space. -/
def isAsciiBlank (c : Char) : Bool :=
  c.toNat = 32 || 9 ≤ c.toNat && c.toNat ≤ 13

/-- Every blank of Unicode, with the separators of files, groups, records and units. -/
def isBlank (c : Char) : Bool :=
  isAsciiBlank c || 28 ≤ c.toNat && c.toNat ≤ 31 ||
  [0x85, 0xA0, 0x1680, 0x2028, 0x2029, 0x202F, 0x205F, 0x3000].contains c.toNat ||
  0x2000 ≤ c.toNat && c.toNat ≤ 0x200A

theorem isBlank_of_isAsciiBlank {c : Char} (h : isAsciiBlank c = true) : isBlank c = true := by
  simp [isBlank, h]

def stripLeft (text : Text) : Text :=
  text.dropWhile isBlank

def stripRight (text : Text) : Text :=
  (text.reverse.dropWhile isBlank).reverse

/-- A text without the blanks at its two ends. -/
def strip (text : Text) : Text :=
  stripRight (stripLeft text)

end ThemeMarkup.Text
