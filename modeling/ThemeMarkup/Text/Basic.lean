namespace ThemeMarkup

/-- Text is a sequence of characters. -/
abbrev Text := List Char

instance : Coe String Text := ⟨String.toList⟩

namespace Text

/-- What follows `lead` in a text that begins with it, characters being compared after `fold`. -/
def after? (fold : Char → Char) : Text → Text → Option Text
  | [], text => some text
  | _ :: _, [] => none
  | c :: lead, d :: text => if fold c = fold d then after? fold lead text else none

theorem append_of_after? {lead text rest : Text} (h : after? id lead text = some rest) :
    lead ++ rest = text := by
  induction lead generalizing text with
  | nil => simp_all [after?]
  | cons c lead ih =>
    cases text with
    | nil => simp [after?] at h
    | cons d text =>
      simp only [after?, id_eq] at h
      split at h
      · next hc => rw [List.cons_append, ih h, hc]
      · contradiction

/-- The text passed over before `close` first succeeds, and what `close` leaves. -/
def cutAt? (close : Text → Option Text) (text : Text) : Option (Text × Text) :=
  match close text with
  | some rest => some ([], rest)
  | none =>
    match text with
    | [] => none
    | c :: text => (cutAt? close text).map fun (before, rest) => (c :: before, rest)

def cut? (needle : Text) : Text → Option (Text × Text) :=
  cutAt? (after? id needle)

theorem append_of_cut? {needle text before rest : Text}
    (h : cut? needle text = some (before, rest)) : before ++ needle ++ rest = text := by
  induction text generalizing before with
  | nil =>
    unfold cut? cutAt? at h
    split at h
    · next hr => cases h; exact append_of_after? hr
    · contradiction
  | cons c text ih =>
    unfold cut? cutAt? at h
    split at h
    · next hr => cases h; exact append_of_after? hr
    · obtain ⟨⟨b, r⟩, hb, heq⟩ := Option.map_eq_some_iff.1 h
      cases heq
      simp [← ih hb]

def find? (needle text : Text) : Option Nat :=
  (cut? needle text).map fun (before, _) => before.length

/-- The offset of the first occurrence of `needle` that does not begin before `start`. -/
def findFrom? (needle : Text) (start : Nat) (text : Text) : Option Nat :=
  if start ≤ text.length then (find? needle (text.drop start)).map (start + ·) else none

/-- The offsets of the occurrences of `needle` that are met from the left, each after the end of the
one before it; `offset` is where `text` stands. -/
def occurrences (needle : Text) (offset : Nat) (text : Text) : List Nat :=
  match cut? needle text with
  | none => []
  | some (before, rest) =>
    let here := offset + before.length
    here :: if rest.length < text.length then
      occurrences needle (here + needle.length) rest
    else []
termination_by text.length

/-- An offset as a text of the given length takes it: a negative one counts from the end, and one
outside the text falls on the nearer end. -/
def clamp (length : Nat) (offset : Int) : Nat :=
  if offset < 0 then (length + offset).toNat else min offset.toNat length

/-- The characters from offset `first` up to offset `stop`, which is not included. -/
def slice (text : Text) (first stop : Int) : Text :=
  let first := clamp text.length first
  (text.drop first).take (clamp text.length stop - first)

/-- Whether a text comes before another one or is the same, character by character. -/
def le : Text → Text → Bool
  | [], _ => true
  | _ :: _, [] => false
  | c :: text, d :: other => if c = d then le text other else c < d

/-- The lines of a text, without the line feeds between them. -/
def lines (text : Text) : List Text :=
  text.splitOn '\n'

def ofNat (n : Nat) : Text :=
  Nat.toDigits 10 n

/-- Decimal digits of a number, after a minus sign if it is negative. -/
def ofInt : Int → Text
  | .ofNat n => ofNat n
  | .negSucc n => '-' :: ofNat (n + 1)

end Text

end ThemeMarkup
