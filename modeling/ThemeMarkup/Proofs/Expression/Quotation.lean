import ThemeMarkup.Proofs.Expression.Rewriting
import ThemeMarkup.Proofs.Template.Basic

namespace ThemeMarkup

def Text.IsMark (c : Char) : Prop :=
  c = '"' ∨ c = '\''

instance (c : Char) : Decidable (Text.IsMark c) :=
  inferInstanceAs (Decidable (_ ∨ _))

namespace Expression

theorem isApart_of_isMark {c : Char} (h : Text.IsMark c) : IsApart c := by
  cases h with
  | inl h =>
    subst h
    exact ⟨by decide, by decide, by decide, rfl⟩
  | inr h =>
    subst h
    exact ⟨by decide, by decide, by decide, rfl⟩

/-- A string literal: text between quotation marks of one kind. -/
structure Quotation where
  mark : Char
  inner : Text
  isMark : Text.IsMark mark
  closed : mark ∉ inner

/-- An expression: code without quotation marks, in which literals stand, each with the code after
it. -/
structure Source where
  code : Text
  rest : List (Quotation × Text)
  code_unquoted : code.Avoids "\"'"
  rest_unquoted : ∀ part ∈ rest, part.2.Avoids "\"'"

/-- Literals, each with the code after it, when something is done to the code and to what stands in
the literals. -/
def joined (onCode onInner : Text → Text) (rest : List (Quotation × Text)) : Text :=
  rest.flatMap fun (quotation, code) =>
    quotation.mark :: (onInner quotation.inner ++ quotation.mark :: onCode code)

namespace Source

/-- The text of an expression when something is done to the code and to what stands in the literals.
-/
def print (onCode onInner : Text → Text) (source : Source) : Text :=
  onCode source.code ++ joined onCode onInner source.rest

def written (source : Source) : Text :=
  source.print id id

end Source

theorem joined_cons (onCode onInner : Text → Text) (quotation : Quotation) (code : Text)
    (rest : List (Quotation × Text)) :
    joined onCode onInner ((quotation, code) :: rest) = quotation.mark ::
      (onInner quotation.inner ++ quotation.mark ::
        (onCode code ++ joined onCode onInner rest)) := by
  simp [joined]

theorem rewritten_append_joined (code : Text) (rest : List (Quotation × Text)) :
    rewritten (code ++ joined id id rest) = rewritten code ++ joined rewritten rewritten rest := by
  induction rest generalizing code with
  | nil => simp [joined]
  | cons part rest ih =>
    obtain ⟨quotation, after⟩ := part
    have hmark := isApart_of_isMark quotation.isMark
    rw [joined_cons, joined_cons, hmark.rewritten_append_cons, hmark.rewritten_append_cons, ← ih]
    rfl

theorem ink_joined (rest : List (Quotation × Text)) :
    Text.ink (joined rewritten rewritten rest) ≤ Text.ink (joined rewritten id rest) ∧
      (Text.ink (joined rewritten id rest) ≤ Text.ink (joined rewritten rewritten rest) →
        ∀ part ∈ rest, IsInert part.1.inner) := by
  induction rest with
  | nil => exact ⟨Nat.le_refl _, fun _ => List.forall_mem_nil _⟩
  | cons part rest ih =>
    obtain ⟨quotation, code⟩ := part
    obtain ⟨hle, hinert⟩ := ih
    have hinner := ink_rewritten_le quotation.inner
    simp only [joined_cons, Text.ink_cons, Text.ink_append, id_eq]
    refine ⟨by omega, fun h => List.forall_mem_cons.2 ⟨?_, hinert (by omega)⟩⟩
    apply rewritten_eq_self_iff.1
    apply rewritten_eq_self_of_ink
    dsimp only
    omega

theorem joined_of_isInert {rest : List (Quotation × Text)}
    (h : ∀ part ∈ rest, IsInert part.1.inner) :
    joined rewritten rewritten rest = joined rewritten id rest := by
  apply List.flatMap_congr
  intro part hp
  dsimp only
  rw [rewritten_eq_self_iff.2 (h part hp)]
  rfl

/-- An expression becomes its parts rewritten one by one, without outer blanks. Its literals come
through as they are just if all of them are inert. -/
theorem toTarget_source (source : Source) :
    toTarget source.written = Text.strip (source.print rewritten rewritten) ∧
      (toTarget source.written = Text.strip (source.print rewritten id) ↔
        ∀ part ∈ source.rest, IsInert part.1.inner) := by
  have hparts : rewritten source.written = source.print rewritten rewritten :=
    rewritten_append_joined source.code source.rest
  have htarget := (toTarget_eq_strip source.written).trans (congrArg Text.strip hparts)
  refine ⟨htarget, ?_⟩
  rw [htarget]
  constructor
  · intro h
    have hink := congrArg Text.ink h
    simp only [Text.ink_strip, Source.print, Text.ink_append] at hink
    exact (ink_joined source.rest).2 (by omega)
  · intro h
    rw [Source.print, joined_of_isInert h]
    rfl

/-- A name in quotation marks, which loses its dollar sign. -/
theorem toTarget_quotedName :
    ∃ source : Source, source.written = "x == '$a'" ∧ source.print rewritten id = "x == '$a'" ∧
      toTarget source.written = "x == 'a'" := by
  let quotation : Quotation := ⟨'\'', "$a", by decide, by decide⟩
  let source : Source :=
    ⟨"x == ", [(quotation, [])], by decide, List.forall_mem_singleton.2 (by decide)⟩
  have hwritten : source.written = "x == '$a'" := rfl
  refine ⟨source, hwritten, rfl, ?_⟩
  rw [hwritten]
  decide

end Expression

end ThemeMarkup
