import ThemeMarkup.Text.Basic

namespace ThemeMarkup.Target

def output (expression : Text) : Text :=
  "\x7b\x7b " ++ expression ++ " \x7d\x7d"

def statement (inner : Text) : Text :=
  "\x7b% " ++ inner ++ " %\x7d"

def comment (inner : Text) : Text :=
  "\x7b# " ++ inner ++ " #\x7d"

/-- The text of a literal between quotes, the first of them passed; a backslash takes the next
character literally. -/
def readLiteral? (quote : Char) : Text → Option Text
  | '\\' :: c :: text => (readLiteral? quote text).map (c :: ·)
  | c :: text =>
    if c = quote then if text = [] then some [] else none
    else (readLiteral? quote text).map (c :: ·)
  | [] => none

end ThemeMarkup.Target
