import ThemeMarkup.Proofs.Location

namespace ThemeMarkup.Span

open Text (Occurs copies)

variable {needle text : Text} {place : Nat}

theorem locate_of_occurs (h : Occurs needle text place) (hn : needle ≠ []) :
    locate text needle place = ofRange text place needle.length := by
  have hfound : Text.findFrom? needle place text = some place := by
    apply (Text.findFrom?_eq_some_iff hn).2
    exact ⟨Nat.le_refl _, h, fun _ hle _ => hle⟩
  obtain ⟨c, rest, rfl⟩ := List.exists_cons_of_ne_nil hn
  rw [locate, if_neg (Int.not_lt.2 (Int.natCast_nonneg place)), Int.toNat_natCast]
  simp only [hfound]

theorem relocate?_append (h : needle.Unbordered) (before after template : Text) :
    (locate (before ++ needle ++ after) needle before.length).relocate?
        (before ++ needle ++ after) template =
      (Text.occurrences needle 0 template)[copies needle before]?.map fun place =>
        ofRange template place needle.length := by
  have hoccurs := Text.occurs_append needle before after
  have hspan := locate_of_occurs hoccurs h.ne_nil
  have hcovers : (locate (before ++ needle ++ after) needle before.length).Covers
      (before ++ needle ++ after) needle := ⟨before.length, hspan, h.ne_nil, hoccurs⟩
  have hfirst : (locate (before ++ needle ++ after) needle before.length).first.toNat =
      before.length := by
    rw [hspan]
    rfl
  rw [hcovers.relocate?_eq h, hfirst, Text.count_append h]

theorem relocate?_append_append (h : needle.Unbordered) (before after before' after' : Text)
    (hn : copies needle before' = copies needle before) :
    (locate (before ++ needle ++ after) needle before.length).relocate?
        (before ++ needle ++ after) (before' ++ needle ++ after') =
      some (ofRange (before' ++ needle ++ after') before'.length needle.length) := by
  have hthere := (Text.getElem?_occurrences_iff h).2
    ⟨Text.occurs_append needle before' after', Text.count_append h before' after'⟩
  rw [relocate?_append h, ← hn, hthere]
  rfl

/-- A piece of text that does not end as it begins is found again at the copy that as many copies
precede as stand before it, and it is not found just if there are no more copies than these. -/
theorem relocate?_between (h : needle.Unbordered) (before after template : Text) :
    let text := before ++ needle ++ after
    let span := locate text needle before.length
    let n := copies needle before
    span = ofRange text before.length needle.length ∧
      (span.relocate? text template = none ↔ copies needle template ≤ n) ∧
      (n < copies needle template → ∃ place, Occurs needle template place ∧
        Nat.count (Occurs needle template) place = n ∧
          span.relocate? text template = some (ofRange template place needle.length)) ∧
      (∀ before' after', template = before' ++ needle ++ after' → copies needle before' = n →
        span.relocate? text template = some (ofRange template before'.length needle.length)) ∧
      span.relocate? text text = some span := by
  intro text span n
  have hspan : span = ofRange text before.length needle.length :=
    locate_of_occurs (Text.occurs_append ..) h.ne_nil
  refine ⟨hspan, ?_, ?_, ?_, ?_⟩
  · rw [relocate?_append h, Option.map_eq_none_iff]
    exact Text.getElem?_occurrences_eq_none_iff h
  · intro hlt
    obtain ⟨place, hplace⟩ := Text.exists_getElem?_occurrences h hlt
    obtain ⟨hoccurs, hcount⟩ := (Text.getElem?_occurrences_iff h).1 hplace
    refine ⟨place, hoccurs, hcount, ?_⟩
    rw [relocate?_append h, hplace]
    rfl
  · intro before' after' htemplate hn
    subst htemplate
    exact relocate?_append_append h before after before' after' hn
  · rw [relocate?_append_append h before after before after rfl, ← hspan]

theorem relocate?_between_seams :
    let text : Text := "aabbaab" ++ "aabb" ++ "b"
    let span := locate text "aabb" 7
    Text.Unbordered "aabb" ∧ span = ⟨7, 10, 0, 0, 7, 10⟩ ∧
      span.relocate? text ("aabb\naab" ++ "aabb" ++ "aabb") = some ⟨8, 11, 1, 1, 3, 6⟩ ∧
      span.relocate? text "a\naabbb" = none ∧ span.relocate? text text = some span := by
  intro text span
  have hunbordered : Text.Unbordered "aabb" := by decide
  obtain ⟨hspan, -, -, hfound, hself⟩ :=
    relocate?_between hunbordered "aabbaab" "b" ("aabb\naab" ++ "aabb" ++ "aabb")
  obtain ⟨-, hnone, -⟩ := relocate?_between hunbordered "aabbaab" "b" "a\naabbb"
  exact ⟨hunbordered, hspan, hfound "aabb\naab" "aabb" rfl (by decide), hnone.2 (by decide), hself⟩

end ThemeMarkup.Span
