import ThemeMarkup.Tag.Literal
import ThemeMarkup.Proofs.Tag.Scan

namespace ThemeMarkup.Literal

open TagPart (Spells)

variable {d : Delimiters} {text rest : Text}

theorem isSome_afterClosing?_iff :
    (afterClosing? d text).isSome ↔ ∃ tag rest, Spells (closing d) tag ∧ text = tag ++ rest := by
  rw [afterClosing?, List.isSome_head?]
  constructor
  · intro h
    obtain ⟨rest, _, he⟩ := List.exists_cons_of_ne_nil h
    obtain ⟨tag, ht, hx⟩ := TagPart.mem_restsOfAll_iff.1 (he ▸ List.mem_cons_self)
    exact ⟨tag, rest, ht, hx⟩
  · rintro ⟨tag, rest, ht, hx⟩
    exact List.ne_nil_of_mem (TagPart.mem_restsOfAll_iff.2 ⟨tag, ht, hx⟩)

theorem spells_of_afterClosing? (h : afterClosing? d text = some rest) :
    ∃ tag, Spells (closing d) tag ∧ text = tag ++ rest :=
  TagPart.mem_restsOfAll_iff.1 (List.mem_of_head? h)

theorem exists_of_read? {interior : Text} (h : read? d text = some (interior, rest)) :
    ∃ head c body tail, interior = c :: body ∧ Spells (opening d) head ∧ Spells (closing d) tail ∧
      text = head ++ interior ++ tail ++ rest ∧
      ∀ i < body.length, afterClosing? d ((body ++ (tail ++ rest)).drop i) = none := by
  obtain ⟨found, hb, hf⟩ := List.exists_of_findSome?_eq_some h
  obtain ⟨head, hh, rfl⟩ := TagPart.mem_restsOfAll_iff.1 hb
  cases found with
  | nil => contradiction
  | cons c found =>
    obtain ⟨⟨body, r⟩, hc, he⟩ := Option.map_eq_some_iff.1 hf
    cases he
    obtain ⟨after, rfl, hr, hnone⟩ := Text.cutAt?_eq_some_iff.1 hc
    obtain ⟨tail, ht, rfl⟩ := spells_of_afterClosing? hr
    exact ⟨head, c, body, tail, rfl, hh, ht, by simp [List.append_assoc], hnone⟩

theorem spells_of_read? {interior : Text} (h : read? d text = some (interior, rest)) :
    ∃ head tail, Spells (opening d) head ∧ Spells (closing d) tail ∧ interior ≠ [] ∧
      text = head ++ interior ++ tail ++ rest := by
  obtain ⟨head, c, body, tail, rfl, hh, ht, he, -⟩ := exists_of_read? h
  exact ⟨head, tail, hh, ht, List.cons_ne_nil c body, he⟩

theorem isSome_read? {head interior tail : Text} (hh : Spells (opening d) head)
    (ht : Spells (closing d) tail) (hi : interior ≠ []) (rest : Text) :
    (read? d (head ++ interior ++ tail ++ rest)).isSome := by
  obtain ⟨c, body, rfl⟩ := List.exists_cons_of_ne_nil hi
  rw [read?, List.findSome?_isSome_iff]
  refine ⟨c :: body ++ tail ++ rest, TagPart.mem_restsOfAll_iff.2 ⟨head, hh, ?_⟩, ?_⟩
  · simp [List.append_assoc]
  · simp only [List.cons_append, Option.isSome_map, Text.isSome_cutAt?_iff, List.append_assoc]
    exact ⟨body, tail ++ rest, rfl, isSome_afterClosing?_iff.2 ⟨tail, rest, ht, rfl⟩⟩

theorem steady_read? (d : Delimiters) : Found.Steady (read? d) where
  takes := by
    intro text interior rest h
    obtain ⟨head, tail, -, -, hi, rfl⟩ := spells_of_read? h
    exact ⟨head ++ interior ++ tail, by simp [hi], rfl⟩
  again := by
    intro source interior rest h after
    obtain ⟨head, tail, hh, ht, hi, he⟩ := spells_of_read? h
    rw [List.append_cancel_right he]
    exact isSome_read? hh ht hi after

/-- Whether the tag that ends a literal span stands somewhere in a text. -/
def EndsIn (text : Text) : Prop :=
  ∃ tag, Spells (closing .usual) tag ∧ tag <:+: text

theorem endsIn_iff : EndsIn text ↔ (Text.cutAt? (afterClosing? .usual) text).isSome := by
  rw [Text.isSome_cutAt?_iff]
  constructor
  · rintro ⟨tag, ht, before, after, rfl⟩
    refine ⟨before, tag ++ after, ?_, ?_⟩
    · rw [List.append_assoc]
    · exact isSome_afterClosing?_iff.2 ⟨tag, after, ht, rfl⟩
  · rintro ⟨before, rest, rfl, h⟩
    obtain ⟨tag, after, ht, rfl⟩ := isSome_afterClosing?_iff.1 h
    exact ⟨tag, ht, before, after, List.append_assoc ..⟩

instance (text : Text) : Decidable (EndsIn text) :=
  decidable_of_iff _ endsIn_iff.symm

theorem begins_read? : Found.Begins Delimiters.usual.left (read? .usual) := by
  intro text h
  cases hr : read? .usual text with
  | none => rfl
  | some found =>
    obtain ⟨head, tail, hh, -, -, rfl⟩ := spells_of_read? hr
    cases hh with
    | literal same more =>
      rw [Delimiters.eq_left_of_alike same] at h
      simp only [List.append_assoc] at h
      exact absurd (List.prefix_append ..) h

theorem read?_eq_none {c : Char} (hb : Text.isAsciiBlank c = false) (ht : Text.lowerAscii c ≠ 't')
    (text : Text) : read? .usual ("\x7b% " ++ c :: text) = none := by
  have hblanks :
      Text.afterBlanks Text.isAsciiBlank (' ' :: c :: text) = [c :: text, ' ' :: c :: text] := by
    rw [Text.afterBlanks, Text.afterBlanks, hb]
    rfl
  have hfirst : Text.after? Text.lowerAscii "tagself" (c :: text) = none := if_neg (Ne.symm ht)
  have hspace : Text.after? Text.lowerAscii "tagself" (' ' :: c :: text) = none := rfl
  have hname (text : Text) (h : Text.after? Text.lowerAscii "tagself" text = none) :
      TagPart.restsOfAll [.literal "tagself", .blanks, .literal "%\x7d"] text = [] := by
    rw [TagPart.restsOfAll, TagPart.rests, h]
    rfl
  have hrests : TagPart.restsOfAll (opening .usual) ("\x7b% " ++ c :: text) = [] := by
    change (Text.afterBlanks Text.isAsciiBlank (' ' :: c :: text)).flatMap _ ++ [] = []
    rw [hblanks, List.flatMap_cons, List.flatMap_cons, hname _ hfirst, hname _ hspace]
    rfl
  rw [read?, hrests]
  rfl

theorem not_mem_of_spells {tag : Text} (h : Spells (closing .usual) tag) :
    ∃ rest, tag = '\x7b' :: rest ∧ '\x7b' ∉ rest := by
  cases h with
  | @literal _ written text _ same more =>
    refine ⟨'%' :: text, congrArg (· ++ text) (Delimiters.eq_left_of_alike same), ?_⟩
    rw [List.mem_cons, not_or]
    constructor
    · decide
    · exact more.not_mem (by decide) (by decide)

theorem read?_written {interior : Text} (hn : interior ≠ []) (he : ¬ EndsIn interior)
    (rest : Text) :
    read? .usual ("\x7b% tagself %\x7d" ++ (interior ++ ("\x7b% :tagself %\x7d" ++ rest))) =
      some (interior, rest) := by
  obtain ⟨c, body, rfl⟩ := List.exists_cons_of_ne_nil hn
  have hopening : TagPart.restsOfAll (opening .usual)
      ("\x7b% tagself %\x7d" ++ (c :: body ++ ("\x7b% :tagself %\x7d" ++ rest))) =
        [c :: body ++ ("\x7b% :tagself %\x7d" ++ rest)] := rfl
  have hclosing : afterClosing? .usual ("\x7b% :tagself %\x7d" ++ rest) = some rest := rfl
  have hcut : Text.cutAt? (afterClosing? .usual) (body ++ ("\x7b% :tagself %\x7d" ++ rest)) =
      some (body, rest) := by
    apply Text.cutAt?_eq_some_iff.2
    refine ⟨_, rfl, hclosing, fun i hi => ?_⟩
    apply Option.not_isSome_iff_eq_none.1
    intro hsome
    obtain ⟨tag, after, htag, heq⟩ := isSome_afterClosing?_iff.1 hsome
    rw [List.drop_append_of_le_length (Nat.le_of_lt hi)] at heq
    rcases List.append_eq_append_iff.1 heq with ⟨gap, hgap, hrest⟩ | ⟨gap, hgap, -⟩
    · obtain ⟨tail, rfl, htail⟩ := not_mem_of_spells htag
      cases gap with
      | nil =>
        apply he
        refine ⟨_, htag, ?_⟩
        rw [hgap, List.append_nil]
        exact (List.drop_suffix i body).isInfix.trans (List.suffix_cons c body).isInfix
      | cons d gap =>
        obtain ⟨rfl, -⟩ := List.cons.inj hrest
        obtain ⟨e, first, hfirst⟩ := List.exists_cons_of_ne_nil
          (List.ne_nil_of_length_pos (l := body.drop i) (by rw [List.length_drop]; omega))
        rw [hfirst] at hgap
        apply htail
        rw [(List.cons.inj hgap).2]
        exact List.mem_append_right _ List.mem_cons_self
    · apply he
      refine ⟨tag, htag, ?_⟩
      have hpart : tag <:+: body :=
        (List.IsPrefix.isInfix ⟨gap, hgap.symm⟩).trans (List.drop_suffix i body).isInfix
      exact hpart.trans (List.suffix_cons c body).isInfix
  rw [read?, hopening]
  apply findSome?_head
  change (Text.cutAt? _ (body ++ ("\x7b% :tagself %\x7d" ++ rest))).map _ = _
  rw [hcut]
  rfl

end ThemeMarkup.Literal
