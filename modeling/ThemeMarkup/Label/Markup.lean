import ThemeMarkup.Error

namespace ThemeMarkup

/-- A language of labels, in which tags in square brackets set styles: how text is written in it so
that no tag takes effect, and what a label shows. -/
structure Markup where
  escape : Text → Text
  render : Text → Except Error Text

namespace Markup

/-- A stretch of markup: a character, or a tag without its brackets and the backslashes before it.
-/
inductive Token where
  | char (c : Char)
  | tag (slashes : Nat) (body : Text)
  deriving DecidableEq, Repr

def isTagStart (c : Char) : Bool :=
  'a' ≤ c && c ≤ 'z' || c = '#' || c = '/' || c = '@'

/-- The tag at the beginning of a text, without its brackets, and what follows it. -/
def readTag? : Text → Option (Text × Text)
  | '[' :: c :: text =>
    let inTag c := c ≠ '[' && c ≠ ']'
    match isTagStart c, text.dropWhile inTag with
    | true, ']' :: rest => some (c :: text.takeWhile inTag, rest)
    | _, _ => none
  | _ => none

def tokensAfter (slashes : Nat) (text : Text) : List Token :=
  match text with
  | [] => List.replicate slashes (.char '\\')
  | c :: rest =>
    if c = '\\' then tokensAfter (slashes + 1) rest
    else
      match readTag? (c :: rest) with
      | none => List.replicate slashes (.char '\\') ++ .char c :: tokensAfter 0 rest
      | some (body, after) =>
        if after.length ≤ rest.length then .tag slashes body :: tokensAfter 0 after
        else List.replicate slashes (.char '\\') ++ .char c :: tokensAfter 0 rest
termination_by text.length

def tokens (text : Text) : List Token :=
  tokensAfter 0 text

def bracketed (body : Text) : Text :=
  "[" ++ body ++ "]"

/-- A stretch of text written so that it is shown as it is. -/
def Token.escape : Token → Text
  | .char c => [c]
  | .tag slashes body => List.replicate (2 * slashes + 1) '\\' ++ bracketed body

/-- What stretches of markup show, given how plain text is shown; `pending` is the plain text since
the last tag, in reverse. -/
def shownFrom (plain : Text → Text) (pending : Text) : List Token → Text
  | [] => plain pending.reverse
  | .char c :: tokens => shownFrom plain (c :: pending) tokens
  | .tag slashes body :: tokens =>
    plain pending.reverse ++ List.replicate (slashes / 2) '\\' ++
      (if slashes % 2 = 1 then plain (bracketed body) else []) ++ shownFrom plain [] tokens

def shown (plain : Text → Text) (text : Text) : Text :=
  shownFrom plain [] (tokens text)

def unslash : Text → Text
  | '\\' :: '[' :: text => '[' :: unslash text
  | c :: text => c :: unslash text
  | [] => []

theorem unslash_cons {c : Char} (hc : c ≠ '\\') (text : Text) :
    unslash (c :: text) = c :: unslash text := by
  rw [unslash]
  rintro rest rfl -
  exact hc rfl

theorem count_unslash (text : Text) : (unslash text).count '[' = text.count '[' := by
  fun_induction unslash text with
  | case1 text ih => simp [ih]
  | case2 c text hne ih => rw [List.count_cons, List.count_cons, ih]
  | case3 => rfl

/-- Markup of which the styles are not drawn, any tag being allowed. -/
def unstyled : Markup where
  escape text :=
    let escaped := (tokens text).flatMap Token.escape
    match escaped.reverse with
    | '\\' :: '\\' :: _ => escaped
    | '\\' :: _ => escaped ++ ['\\']
    | _ => escaped
  render text := .ok (shown unslash text)

end Markup

end ThemeMarkup
