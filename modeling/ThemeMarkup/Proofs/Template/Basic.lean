import Mathlib.Data.List.Infix
import ThemeMarkup.Compiler.Standard
import ThemeMarkup.Proofs.Attribute
import ThemeMarkup.Proofs.Tag.Literal
import ThemeMarkup.Proofs.Tag.Node

namespace ThemeMarkup

def Text.Avoids (text characters : Text) : Prop :=
  ∀ c ∈ text, c ∉ characters

instance (text characters : Text) : Decidable (text.Avoids characters) :=
  decidable_of_iff (text.all (!characters.contains ·) = true) (by simp [Text.Avoids])

structure Value where
  text : Text
  filled : text.IsFilled
  plain : text.Avoids "\"%\x7b\x7d#"

inductive Sigil where
  | value
  | echo
  | note
  | statement

inductive Single where
  | elseif (condition : Value)
  | otherwise
  | inclusion (file : Value) (suffix : Option Value)
  | assignment (name : Value) (value : Option Value)
  | leave
  | resume

inductive Block where
  | condition (value : Value)
  | loop (iterable : Value) (key value index : Option Value)

/-- A template: its first piece and what follows. -/
inductive Template where
  | nil
  | text (content : Text) (next : Template)
  | code (sigil : Sigil) (payload : Text) (next : Template)
  | literal (interior : Text) (next : Template)
  | single (tag : Single) (next : Template)
  | block (tag : Block) (body next : Template)

/-- How the pieces of a template are written. Plain text always stands as it is. -/
structure Writer where
  code : Sigil → Text → Text
  literal : Text → Text
  single : Single → Text
  opening : Block → Text
  closing : Block → Text

def Template.write (w : Writer) : Template → Text
  | nil => []
  | text content next => content ++ next.write w
  | code sigil payload next => w.code sigil payload ++ next.write w
  | literal interior next => w.literal interior ++ next.write w
  | single tag next => w.single tag ++ next.write w
  | block tag body next => w.opening tag ++ body.write w ++ w.closing tag ++ next.write w

def Sigil.name : Sigil → Text
  | .value => "$"
  | .echo => ":"
  | .note => "#"
  | .statement => "~"

namespace Single

def name : Single → Text
  | elseif _ => "elseif"
  | otherwise => "else"
  | inclusion _ _ => "include"
  | assignment _ _ => "assign"
  | leave => "break"
  | resume => "continue"

/-- The attributes that are known for a tag, in order, with the values of those that are given. -/
def attributes : Single → List (Text × Option Text)
  | elseif condition => [("condition", some condition.text)]
  | otherwise => []
  | inclusion file suffix => [("file", some file.text), ("ext", suffix.map Value.text)]
  | assignment name value => [("name", some name.text), ("value", value.map Value.text)]
  | leave => []
  | resume => []

end Single

namespace Block

def name : Block → Text
  | condition _ => "if"
  | loop _ _ _ _ => "list"

/-- The attributes that are known for a tag, in order, with the values of those that are given. -/
def attributes : Block → List (Text × Option Text)
  | condition value => [("condition", some value.text)]
  | loop iterable key value index =>
    [("for", some iterable.text), ("key", key.map Value.text), ("value", value.map Value.text),
      ("index", index.map Value.text)]

end Block

def Attribute.argument (attributes : List (Text × Option Text)) : Text :=
  written (present attributes) ++ [' ']

/-- Templates as their source text. A payload follows the name of its tag at once; blanks between
the two are the payload's. -/
def Writer.source : Writer where
  code sigil payload := "\x7b\x7b " ++ sigil.name ++ payload ++ " \x7d\x7d"
  literal interior := "\x7b% tagself %\x7d" ++ interior ++ "\x7b% :tagself %\x7d"
  single tag := Tag.written .head tag.name (Attribute.argument tag.attributes)
  opening tag := Tag.written .head tag.name (Attribute.argument tag.attributes)
  closing tag := Tag.written .tail tag.name [' ']

open Expression (toTarget quote)

def Sigil.meaning (sigil : Sigil) (payload : Text) : Text :=
  match sigil with
  | .value => Target.output (toTarget (Text.strip payload))
  | .echo => Target.output (toTarget (Text.strip payload))
  | .note => Target.comment (Text.strip payload)
  | .statement => Target.statement (Text.strip payload)

/-- What a tag that stands alone means, for a suffix of theme files. -/
def Single.meaning (suffix : Text) : Single → Text
  | elseif condition => Target.statement ("elif " ++ toTarget condition.text)
  | otherwise => Target.statement "else"
  | inclusion file suffix? =>
    let name := Standard.withSuffix (Text.strip file.text) (suffix?.elim suffix Value.text)
    Target.statement ("include " ++ quote name)
  | assignment name value =>
    let value : Text := value.elim "none" fun value => toTarget value.text
    Target.statement ("set " ++ toTarget name.text ++ " = " ++ value)
  | leave => Target.statement "break"
  | resume => Target.statement "continue"

namespace Block

/-- What a loop goes over: the items of a list, or of a table if their keys have a name. -/
def range (iterable : Value) (key value : Option Value) : Text :=
  let value : Text := value.elim "value" fun value => toTarget value.text
  match key with
  | none => "for " ++ value ++ " in " ++ toTarget iterable.text
  | some key =>
    "for " ++ toTarget key.text ++ ", " ++ value ++ " in " ++ toTarget iterable.text ++ ".items()"

def opening : Block → Text
  | condition value => Target.statement ("if " ++ toTarget value.text)
  | loop iterable key value none => Target.statement (range iterable key value)
  | loop iterable key value (some index) =>
    Target.statement (range iterable key value) ++
      Target.statement ("set " ++ toTarget index.text ++ " = loop.index0")

def closing : Block → Text
  | condition _ => Target.statement "endif"
  | loop _ _ _ _ => Target.statement "endfor"

end Block

/-- Templates as what they mean, for a suffix of theme files. -/
def Writer.target (suffix : Text) : Writer where
  code := Sigil.meaning
  literal interior := Target.statement "raw" ++ Text.strip interior ++ Target.statement "endraw"
  single := Single.meaning suffix
  opening := Block.opening
  closing := Block.closing

namespace Template

/-- The source text of a template. -/
def print (t : Template) : Text :=
  t.write .source

/-- What a template means, for a suffix of theme files. -/
def translate (suffix : Text) (t : Template) : Text :=
  t.write (.target suffix)

inductive Token where
  | text (content : Text)
  | code (sigil : Sigil) (payload : Text)
  | literal (interior : Text)
  | single (tag : Single)
  | opening (tag : Block)
  | closing (tag : Block)

def tokens : Template → List Token
  | nil => []
  | text content next => .text content :: next.tokens
  | code sigil payload next => .code sigil payload :: next.tokens
  | literal interior next => .literal interior :: next.tokens
  | single tag next => .single tag :: next.tokens
  | block tag body next => .opening tag :: (body.tokens ++ .closing tag :: next.tokens)

/-- A token that is read as what it is. -/
def Token.IsProper : Token → Prop
  | .text content => '\x7b' ∉ content ∧ ¬ ("##" : Text) <:+: content
  | .code _ payload =>
    '\x7b' ∉ payload ∧ ¬ ("\x7d\x7d" : Text) <:+: payload ∧ ¬ ("##" : Text) <:+: payload
  | .literal interior => interior.IsFilled ∧ ¬ Literal.EndsIn interior
  | .single _ => True
  | .opening _ => True
  | .closing _ => True

/-- Whether a token may stand after another one: a text may not stand after a text. -/
def Token.MayPrecede : Token → Token → Prop
  | .text _, .text _ => False
  | _, _ => True

instance (token : Token) : Decidable token.IsProper :=
  match token with
  | .text _ => inferInstanceAs (Decidable (_ ∧ _))
  | .code _ _ => inferInstanceAs (Decidable (_ ∧ _ ∧ _))
  | .literal _ => inferInstanceAs (Decidable (_ ∧ _))
  | .single _ => inferInstanceAs (Decidable True)
  | .opening _ => inferInstanceAs (Decidable True)
  | .closing _ => inferInstanceAs (Decidable True)

instance (token next : Token) : Decidable (token.MayPrecede next) :=
  match token, next with
  | .text _, .text _ => .isFalse id
  | .text _, .code _ _ => .isTrue trivial
  | .text _, .literal _ => .isTrue trivial
  | .text _, .single _ => .isTrue trivial
  | .text _, .opening _ => .isTrue trivial
  | .text _, .closing _ => .isTrue trivial
  | .code _ _, _ => .isTrue trivial
  | .literal _, _ => .isTrue trivial
  | .single _, _ => .isTrue trivial
  | .opening _, _ => .isTrue trivial
  | .closing _, _ => .isTrue trivial

/-- A template that is read as what it is. -/
def IsProper (t : Template) : Prop :=
  (∀ token ∈ t.tokens, token.IsProper) ∧ t.tokens.IsChain Token.MayPrecede

instance (t : Template) : Decidable t.IsProper :=
  inferInstanceAs (Decidable (_ ∧ _))

end Template

end ThemeMarkup
