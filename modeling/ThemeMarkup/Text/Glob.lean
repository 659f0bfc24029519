import ThemeMarkup.Text.Basic

namespace ThemeMarkup.Glob

inductive Part where
  | char (c : Char)
  | anyChar
  | anyText
  | oneOf (negated : Bool) (ranges : List (Char × Char))
  deriving DecidableEq, Repr

/-- The ranges of characters between brackets; a minus sign joins its two neighbours. -/
def ranges : Text → List (Char × Char)
  | a :: '-' :: b :: text => (a, b) :: ranges text
  | a :: text => (a, a) :: ranges text
  | [] => []

/-- The set after an opening bracket, and what follows its closing bracket; a bracket that closes at
once is a member. -/
def readSet? (text : Text) : Option (Part × Text) :=
  let negated := text.head? = some '!'
  let body := if negated then text.tail else text
  match body with
  | [] => none
  | first :: more =>
    match more.dropWhile (· ≠ ']') with
    | _ :: rest =>
      some (.oneOf negated (ranges (first :: more.takeWhile (· ≠ ']'))), rest)
    | [] => none

/-- The parts of a pattern. -/
def parse (pattern : Text) : List Part :=
  match pattern with
  | [] => []
  | '*' :: rest => .anyText :: parse rest
  | '?' :: rest => .anyChar :: parse rest
  | '[' :: rest =>
    match readSet? rest with
    | some (set, after) =>
      if after.length < rest.length then set :: parse after else .char '[' :: parse rest
    | none => .char '[' :: parse rest
  | c :: rest => .char c :: parse rest
termination_by pattern.length

def fits : List Part → Text → Bool
  | [], name => name.isEmpty
  | .anyText :: parts, [] => fits parts []
  | .anyText :: parts, c :: name => fits parts (c :: name) || fits (.anyText :: parts) name
  | _ :: _, [] => false
  | .char d :: parts, c :: name => c = d && fits parts name
  | .anyChar :: parts, _ :: name => fits parts name
  | .oneOf negated ranges :: parts, c :: name =>
    (ranges.any fun (a, b) => a ≤ c && c ≤ b) != negated && fits parts name
termination_by parts name => (name.length, parts.length)

end ThemeMarkup.Glob
