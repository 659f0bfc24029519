import ThemeMarkup.Engine
import ThemeMarkup.Proofs.Tag.Row
import ThemeMarkup.Proofs.Text.Line
import ThemeMarkup.Proofs.Text.Occurrence

namespace ThemeMarkup

variable {text line source : Text} {span : Span}

namespace Text

theorem repeated_eq {held : Text} {count : Int} (h : 0 ≤ count) (hl : count ≤ held.length)
    (c : Char) : repeated held c count = .ok (List.replicate count.toNat c) := by
  have hpossible (limit : Nat) : decide (count < limit ∨ count ≤ held.length) = true :=
    decide_eq_true (.inr hl)
  have hsmall :
      ¬ (count < -(countLimit : Int) ∨
        (!decide (count < countLimit ∨ count ≤ held.length)) = true) := by
    rw [hpossible]
    rintro (hc | hc)
    · have hlimit := Int.natCast_nonneg countLimit
      omega
    · contradiction
  rw [repeated]
  dsimp only
  rw [if_neg hsmall, if_pos (hpossible roomLimit)]

end Text

namespace Span

theorem columnAt_le (text : Text) (offset : Nat) : columnAt text offset ≤ offset := by
  refine Nat.le_trans (List.takeWhile_sublist _).length_le ?_
  rw [List.length_reverse, List.length_take]
  exact Nat.min_le_left ..

/-- The number of carets under a span that begins on a line, if it is not less than one. -/
def markWidth (span : Span) (line : Text) : Int :=
  if span.lastLine = span.firstLine then span.lastColumn - span.firstColumn + 1
  else line.length - span.firstColumn

/-- A line with carets under the span that begins on it. -/
def marked (span : Span) (line : Text) : Text :=
  ['\n'] ++ line ++ ['\n'] ++ List.replicate span.firstColumn.toNat ' ' ++
    List.replicate (max (span.markWidth line) 1).toNat '^'

theorem Covers.excerpt_eq (h : span.Covers text source) (hl : line.length ≤ text.length) :
    span.excerpt text line = .ok (span.marked line) := by
  have hb := h.bounds
  have hcolumns : 0 ≤ span.firstColumn ∧ span.firstColumn ≤ span.first ∧
      span.lastColumn ≤ span.last := by
    obtain ⟨first, rfl, -, -⟩ := h
    exact ⟨Int.natCast_nonneg _, Int.ofNat_le.2 (columnAt_le ..), Int.ofNat_le.2 (columnAt_le ..)⟩
  have hindent : span.firstColumn ≤ text.length := by omega
  have hwidth : max (span.markWidth line) 1 ≤ text.length := by
    rw [markWidth]
    split <;> omega
  have hpos : 0 ≤ max (span.markWidth line) 1 := by omega
  have hblanks := Text.repeated_eq hcolumns.1 hindent ' '
  have hcarets := Text.repeated_eq hpos hwidth '^'
  rw [markWidth] at hcarets
  rw [excerpt]
  simp only [hblanks]
  rw [marked, markWidth]
  simp only [bind, Except.bind, hcarets]
  rfl

/-- The place of a span that covers a piece of a text is shown with its line and carets under it. -/
theorem Covers.exists_location (h : span.Covers text source) (file : Option Text) :
    ∃ place line, span.location none file = .ok place ∧
      text.lines[span.firstLine.toNat]? = some line ∧
      span.location (some text) file = .ok (place ++ span.marked line) := by
  obtain ⟨line, hline⟩ : ∃ line, text.lines[span.firstLine.toNat]? = some line := by
    have hb := h.bounds
    obtain ⟨first, rfl, -, -⟩ := h
    have hfirst : (ofRange text first source.length).first = first := rfl
    have hle : first ≤ text.length := by omega
    obtain ⟨line, hline, -⟩ := leadTo_at hle
    exact ⟨line, hline⟩
  have hexcerpt := h.excerpt_eq (Text.length_le_of_mem_lines (List.mem_of_getElem? hline))
  have hfirst : 0 ≤ span.firstLine := by
    obtain ⟨first, rfl, -, -⟩ := h
    exact Int.natCast_nonneg _
  have hlocated : span.isLocated = true := decide_eq_true h.bounds.1
  have hlength : span.firstLine.toNat < text.lines.length := (List.getElem?_eq_some_iff.1 hline).1
  have hshown :
      ¬ ((!span.isLocated || decide ((text.lines.length : Int) ≤ span.firstLine)) = true) := by
    rw [hlocated, Bool.not_true, Bool.false_or, decide_eq_true_iff]
    omega
  have hsmall : ¬ span.firstLine < -(countLimit : Int) := by
    have hlimit := Int.natCast_nonneg countLimit
    omega
  refine ⟨_, line, rfl, hline, ?_⟩
  unfold location
  dsimp only
  rw [if_neg hshown, if_neg (Int.not_lt.2 hfirst), if_neg hsmall, if_neg (Int.not_lt.2 hfirst),
    List.getD_eq_getElem?_getD, hline, Option.getD_some, hexcerpt]
  rfl

theorem covers_of_relocate? {template : Text} {found : Span}
    (h : span.relocate? text template = some found) : found.Covers template (span.read text) := by
  rw [relocate?] at h
  dsimp only at h
  split at h
  · next hn =>
    obtain ⟨first, hfirst, rfl⟩ := Option.map_eq_some_iff.1 h
    obtain ⟨k, rfl, hoccurs⟩ := Text.occurs_of_mem_occurrences (List.mem_of_getElem? hfirst)
    rw [Nat.zero_add]
    exact ⟨k, rfl, hn.2, hoccurs⟩
  · contradiction

theorem Covers.relocate?_eq (h : span.Covers text source) (hs : source.Unbordered)
    (template : Text) :
    span.relocate? text template =
      (Text.occurrences source 0 template)[Nat.count (Text.Occurs source text)
      span.first.toNat]?.map
        fun first => ofRange template first source.length := by
  have hb := h.bounds
  have hlocated : span.isLocated = true := decide_eq_true hb.1
  have hoccurs : Text.Occurs source text span.first.toNat := h.prefix_drop
  have hbefore : text.slice 0 span.first = text.take span.first.toNat := by
    obtain ⟨first, hfirst⟩ := Int.eq_ofNat_of_zero_le hb.1
    have hslice : text.slice (0 : Nat) (first : Nat) = (text.drop 0).take (first - 0) :=
      Text.slice_eq (Nat.zero_le first) (by omega)
    rw [hfirst]
    exact hslice
  rw [relocate?]
  dsimp only
  rw [h.read_eq, if_pos ⟨hlocated, hs.ne_nil⟩, hbefore, Text.length_occurrences_take hs hoccurs]

end Span

theorem TagError.exists_locateIn {e : TagError} (h : e.span.Covers text source)
    (file : Option Text) :
    ∃ shown, e.locateIn text file = .ok shown ∧ shown.fault = e.fault ∧ shown.span = e.span := by
  rw [locateIn]
  split
  · exact ⟨e, rfl, rfl, rfl⟩
  · obtain ⟨place, line, -, -, hl⟩ := h.exists_location file
    rw [hl]
    exact ⟨_, rfl, rfl, rfl⟩

/-- An error of a tag that covers a piece of the text that a pass went over keeps its fault when its
place is attached, and its place is where the tag is found again. -/
theorem Engine.exists_locate {e : TagError} {passText : Text} (h : e.span.Covers passText source)
    (template : Text) (file : Option Text) :
    ∃ shown, locate (.tag e) passText template file = .tag shown ∧ shown.fault = e.fault ∧
      shown.span = if passText = template then e.span
        else (e.span.relocate? passText template).getD e.span := by
  have hhere : ∃ shown, e.locateIn passText file = .ok shown ∧ shown.fault = e.fault ∧
      shown.span = e.span := TagError.exists_locateIn h file
  unfold locate
  dsimp only
  by_cases ht : passText = template
  · obtain ⟨shown, hshown, hfault, hspan⟩ := hhere
    rw [if_pos ht, if_pos ht, hshown]
    exact ⟨shown, rfl, hfault, hspan⟩
  · rw [if_neg ht, if_neg ht]
    cases hr : e.span.relocate? passText template with
    | none =>
      obtain ⟨shown, hshown, hfault, hspan⟩ := hhere
      simp only [hshown]
      exact ⟨shown, rfl, hfault, hspan⟩
    | some found =>
      have hfound :
          ({ e with span := found } : TagError).span.Covers template (e.span.read passText) :=
        Span.covers_of_relocate? hr
      obtain ⟨shown, hshown, hfault, hspan⟩ := TagError.exists_locateIn hfound file
      simp only [hshown]
      exact ⟨shown, rfl, hfault, hspan⟩

end ThemeMarkup
