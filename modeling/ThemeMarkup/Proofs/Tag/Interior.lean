import Mathlib
import ThemeMarkup.Proofs.Tag.Literal

namespace ThemeMarkup.Literal

open TagPart (Spells)

variable {d : Delimiters} {text head interior tail rest : Text}

/-- The parts of a literal span and what follows it. Past the first character of the interior no
closing tag begins before the one that ends the span. -/
structure Parted (d : Delimiters) (head interior tail rest : Text) : Prop where
  opens : Spells (opening d) head
  closes : Spells (closing d) tail
  filled : interior ≠ []
  first : ∀ i, 0 < i → i < interior.length →
    ∀ tag, Spells (closing d) tag → ¬ tag <+: (interior ++ tail ++ rest).drop i

theorem parted_of_read? (h : read? d text = some (interior, rest)) :
    ∃ head tail, Parted d head interior tail rest ∧ text = head ++ interior ++ tail ++ rest := by
  obtain ⟨head, c, body, tail, rfl, hh, ht, he, hnone⟩ := exists_of_read? h
  refine ⟨head, tail, ⟨hh, ht, List.cons_ne_nil c body, ?_⟩, he⟩
  intro i hpos hlt tag htag hp
  obtain ⟨j, rfl⟩ := Nat.exists_eq_succ_of_ne_zero (Nat.ne_of_gt hpos)
  obtain ⟨after, ha⟩ := hp
  have hsome : (afterClosing? d ((body ++ (tail ++ rest)).drop j)).isSome :=
    isSome_afterClosing?_iff.2 ⟨tag, after, htag, by simpa using ha.symm⟩
  rw [hnone j (Nat.lt_of_succ_lt_succ hlt)] at hsome
  contradiction

theorem Parted.infix_iff (h : Parted d head interior tail rest) :
    (∃ tag, Spells (closing d) tag ∧ tag <:+: interior) ↔
      ∃ tag, Spells (closing d) tag ∧ tag <+: interior := by
  constructor
  · rintro ⟨tag, htag, before, after, he⟩
    refine ⟨tag, htag, ?_⟩
    have hstarts : tag <+: (interior ++ tail ++ rest).drop before.length := by
      rw [← he]
      simp [List.append_assoc]
    by_cases hnil : before = [] ∨ tag = []
    · rcases hnil with rfl | rfl
      · exact ⟨after, he⟩
      · exact List.nil_prefix
    · obtain ⟨hbefore, htaken⟩ := not_or.1 hnil
      have hpos := List.length_pos_iff.2 hbefore
      have hlt : before.length < interior.length := by
        have hlength := List.length_pos_iff.2 htaken
        rw [← he, List.length_append, List.length_append]
        omega
      exact absurd hstarts (h.first _ hpos hlt tag htag)
  · rintro ⟨tag, htag, hp⟩
    exact ⟨tag, htag, hp.isInfix⟩

/-- Every literal span of a text is an opening tag, an interior and the first closing tag that does
not begin the interior. No other closing tag is in it unless the interior begins with one. -/
theorem exists_parted (d : Delimiters) (text : Text) :
    ∀ node ∈ nodes d text, ∃ head interior tail rest, Parted d head interior tail rest ∧
      text.drop node.span.first.toNat = node.source ++ rest ∧
      node.source = head ++ interior ++ tail ∧ node.content = Text.strip interior ∧
      ((∃ tag, Spells (closing d) tag ∧ tag <:+: interior) ↔
        ∃ tag, Spells (closing d) tag ∧ tag <+: interior) := by
  intro node hn
  obtain ⟨found, hf, rfl⟩ := List.mem_map.1 hn
  have hscan := (steady_read? d).scans_scanFrom 0 text
  obtain ⟨-, rest, hdrop, hread⟩ := (hscan.located text rfl).reads found hf
  obtain ⟨head, tail, hparted, he⟩ := parted_of_read? hread
  have hsource : found.source = head ++ found.value ++ tail := List.append_cancel_right he
  exact ⟨head, found.value, tail, rest, hparted, hdrop, hsource, rfl, hparted.infix_iff⟩

def reopened : Text :=
  "\x7b% tagself %\x7da\x7b% tagself %\x7d\x7b% :tagself %\x7db\x7b% :tagself %\x7d"

theorem exists_parted_reopened :
    ∃ node ∈ nodes .usual reopened, node.content = "a\x7b% tagself %\x7d".toList ∧
      ∃ head interior tail rest, Parted .usual head interior tail rest ∧
        node.source = head ++ interior ++ tail := by
  have hcontent : (nodes .usual reopened).map (·.content) = ["a\x7b% tagself %\x7d".toList] := by
    cbv
  obtain ⟨node, hn, hc⟩ := List.mem_map.1 (hcontent ▸ List.mem_singleton_self _)
  obtain ⟨head, interior, tail, rest, hparted, -, hsource, -, -⟩ :=
    exists_parted .usual reopened node hn
  exact ⟨node, hn, hc, head, interior, tail, rest, hparted, hsource⟩

def unfilled : Text :=
  "\x7b% tagself %\x7d\x7b% :tagself %\x7dx\x7b% :tagself %\x7d"

/-- The span of an empty literal goes on past its closing tag to the next one. -/
theorem endsIn_unfilled :
    ∃ node ∈ nodes .usual unfilled, ∃ interior,
      node.source = "\x7b% tagself %\x7d" ++ interior ++ "\x7b% :tagself %\x7d" ∧
      EndsIn interior := by
  have hsource : (nodes .usual unfilled).map (·.source) = [unfilled] := by cbv
  obtain ⟨node, hn, hs⟩ := List.mem_map.1 (hsource ▸ List.mem_singleton_self _)
  refine ⟨node, hn, "\x7b% :tagself %\x7dx", hs, ?_⟩
  decide

end ThemeMarkup.Literal
