import ThemeMarkup.Config.Basic
import ThemeMarkup.Data

namespace ThemeMarkup

abbrev Checked := Except (List Problem)

namespace Checked

variable {α β γ : Type}

def fail (location : List Text) (kind : Problem.Kind) : Checked α :=
  .error [⟨location, kind⟩]

def both (f : α → β → γ) : Checked α → Checked β → Checked γ
  | .ok a, .ok b => .ok (f a b)
  | .ok _, .error problems => .error problems
  | .error problems, .ok _ => .error problems
  | .error first, .error second => .error (first ++ second)

def all : List (Checked α) → Checked (List α)
  | [] => .ok []
  | value :: values => both List.cons value (all values)

def text (location : List Text) : Data → Checked Text
  | .text t => .ok t
  | _ => fail location .notText

def filledText (location : List Text) : Data → Checked Text
  | .text [] => fail location .emptyText
  | .text t => .ok t
  | _ => fail location .notText

def path (location : List Text) : Data → Checked Path
  | .text t => .ok (.ofText t)
  | _ => fail location .notPath

def optionalPath (location : List Text) : Data → Checked (Option Path)
  | .null => .ok none
  | datum => some <$> path location datum

def truthOfWord? (word : Text) : Option Bool :=
  let word := word.map Text.lowerAscii
  let among (words : List String) := words.any fun w => w.toList = word
  if among ["1", "on", "t", "true", "y", "yes"] then some true
  else if among ["0", "off", "f", "false", "n", "no"] then some false
  else none

/-- The least number that is too great to be held in 64 bits with a sign. -/
def wordLimit : Int := 0x8000000000000000

def truthOfWhole (location : List Text) (n : Int) : Checked Bool :=
  if n = 0 then .ok false
  else if n = 1 then .ok true
  else fail location .unreadableTruthValue

/-- A truth value: itself, the number one or zero, or a word for it. -/
def truth (location : List Text) : Data → Checked Bool
  | .truth b => .ok b
  | .text t =>
    match truthOfWord? t with
    | some b => .ok b
    | none => fail location .unreadableTruthValue
  | .whole n =>
    if -wordLimit ≤ n ∧ n < wordLimit then truthOfWhole location n
    else fail location .notTruthValue
  | .real value =>
    match value.whole? with
    | some n =>
      if -wordLimit < n ∧ n < wordLimit then truthOfWhole location n
      else fail location .notTruthValue
    | none => fail location .notTruthValue
  | _ => fail location .notTruthValue

def list (item : List Text → Data → Checked α) (location : List Text) : Data → Checked (List α)
  | .list items => all (items.zipIdx.map fun (datum, i) => item (location ++ [Text.ofNat i]) datum)
  | _ => fail location .notList

/-- The value of a name in a section: checked if it is given, else a default. -/
def fieldOr (entries : List (Data × Data)) (location : List Text) (name : Text) (default : α)
    (check : List Text → Data → Checked α) : Checked α :=
  match Data.field? name entries with
  | some datum => check (location ++ [name]) datum
  | none => .ok default

/-- The value of a name in a section that must be given. -/
def field (entries : List (Data × Data)) (location : List Text) (name : Text)
    (check : List Text → Data → Checked α) : Checked α :=
  match Data.field? name entries with
  | some datum => check (location ++ [name]) datum
  | none => fail (location ++ [name]) .missing

def delimiters (location : List Text) : Data → Checked Delimiters
  | .map entries =>
    both Delimiters.mk (field entries location "left" filledText)
      (field entries location "right" filledText)
  | _ => fail location .notSection

/-- The name under which a problem with an entry is reported. -/
def keyName : Data → Text
  | .truth b => if b then ['1'] else ['0']
  | key => key.show?.getD []

def category (location : List Text) : Data × Data → Checked (Text × Delimiters)
  | (key, datum) =>
    let here := location ++ [keyName key]
    both Prod.mk (text (here ++ ["[key]".toList]) key) (delimiters here datum)

def setCategory (location : List Text) (set : DelimiterSet) :
    Text × Delimiters → Checked DelimiterSet
  | (name, d) =>
    if name = "global".toList then .ok { set with literal := d }
    else if name = "code".toList then .ok { set with code := d }
    else if name = "node".toList then .ok { set with node := d }
    else fail location (.unknownCategory name)

/-- The delimiters of all categories, those not given being the defaults. -/
def delimiterSet (location : List Text) : Data → Checked DelimiterSet
  | .map entries => do
    let categories ← all (entries.map (category location))
    categories.foldlM (setCategory location) {}
  | _ => fail location .notMapping

def parserSection (location : List Text) : Data → Checked (DelimiterSet × Bool)
  | .map entries =>
    both Prod.mk (fieldOr entries location "tags" {} delimiterSet)
      (fieldOr entries location "strict_pairing" false truth)
  | _ => fail location .notSection

def viewSection (location : List Text) : Data → Checked ViewConfig
  | .map entries =>
    let default : ViewConfig := {}
    both (fun f x => f x)
      (both (fun f x => f x)
        (both (fun f x => f x)
          (both (fun f x => f x)
            (ViewConfig.mk <$> fieldOr entries location "theme_path" default.themePath optionalPath)
            (fieldOr entries location "cache_path" default.cachePath path))
          (fieldOr entries location "suffix" default.suffix text))
        (fieldOr entries location "paths" default.paths (list path)))
      (fieldOr entries location "exclude" default.exclude (list text))
  | _ => fail location .notSection

def config (entries : List (Data × Data)) : Checked Config :=
  both (fun (delimiters, strictPairing) view => { delimiters, strictPairing, view })
    (fieldOr entries [] "parser" ({}, false) parserSection)
    (fieldOr entries [] "view" {} viewSection)

end Checked

def Data.isText : Data → Bool
  | .text _ => true
  | _ => false

/-- The configuration that the entries of a mapping give, or why they give none. -/
def Config.ofEntries (entries : List (Data × Data)) : Except Error Config :=
  if entries.all fun (key, _) => key.isText then
    match Checked.config entries with
    | .ok config => .ok config
    | .error problems => .error (.problems problems)
  else .error .foreignName

end ThemeMarkup
