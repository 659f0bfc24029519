import ThemeMarkup.Tag.Code
import ThemeMarkup.Proofs.Tag.Scan

namespace ThemeMarkup.Code

variable {d : Delimiters} {names : List Text} {text rest name payload : Text}

/-- How a code tag is read: after some blanks, with the first name that a right delimiter follows
somewhere, up to the nearest one. -/
theorem exists_of_read? (h : read? d names text = some ((name, payload), rest)) :
    ∃ blanks inside body earlier later, (∀ c ∈ blanks, Text.isBlank c = true) ∧
      text = d.left ++ (blanks ++ inside) ∧ names = earlier ++ name :: later ∧
      inside = name ++ body ∧ Text.cut? d.right body = some (payload, rest) ∧
      ∀ other ∈ earlier, ∀ after, inside = other ++ after → ¬ d.right <:+: after := by
  rw [read?] at h
  split at h
  · contradiction
  · next whole hl =>
    obtain ⟨inside, hb, hn⟩ := List.exists_of_findSome?_eq_some h
    obtain ⟨blanks, hblank, rfl⟩ := Text.mem_afterBlanks_iff.1 hb
    obtain ⟨earlier, n, later, rfl, hf, hearlier⟩ := List.findSome?_eq_some_iff.1 hn
    split at hf
    · contradiction
    · next body hname =>
      obtain ⟨⟨p, r⟩, hc, he⟩ := Option.map_eq_some_iff.1 hf
      cases he
      refine ⟨blanks, inside, body, earlier, later, hblank, (Text.append_of_after? hl).symm, rfl,
        (Text.append_of_after? hname).symm, hc, ?_⟩
      rintro other ho after rfl hright
      have hnone := hearlier other ho
      rw [Text.after?_append] at hnone
      have hsome := Text.isSome_cut?_iff.2 hright
      rw [Option.map_eq_none_iff.1 hnone] at hsome
      contradiction

theorem spells_of_read? (h : read? d names text = some ((name, payload), rest)) :
    ∃ blanks, (∀ c ∈ blanks, Text.isBlank c = true) ∧ name ∈ names ∧
      text = d.left ++ blanks ++ name ++ payload ++ d.right ++ rest := by
  obtain ⟨blanks, inside, body, earlier, later, hblank, rfl, rfl, rfl, hc, -⟩ := exists_of_read? h
  refine ⟨blanks, hblank, List.mem_append_right earlier List.mem_cons_self, ?_⟩
  rw [← Text.append_of_cut? hc]
  simp [List.append_assoc]

theorem isSome_read? {blanks : Text} (hb : ∀ c ∈ blanks, Text.isBlank c = true)
    (hn : name ∈ names) (payload rest : Text) :
    (read? d names (d.left ++ blanks ++ name ++ payload ++ d.right ++ rest)).isSome := by
  simp only [read?, List.append_assoc, Text.after?_append, List.findSome?_isSome_iff]
  refine ⟨_, Text.mem_afterBlanks_iff.2 ⟨blanks, hb, rfl⟩, name, hn, ?_⟩
  simp only [Text.after?_append, Option.isSome_map, Text.isSome_cut?_iff]
  exact ⟨payload, rest, List.append_assoc ..⟩

theorem steady_read? (hd : d.left ≠ []) (names : List Text) : Found.Steady (read? d names) where
  takes := by
    intro text value rest h
    obtain ⟨blanks, -, -, rfl⟩ := spells_of_read? h
    exact ⟨d.left ++ blanks ++ value.1 ++ value.2 ++ d.right, by simp [hd], rfl⟩
  again := by
    intro source value rest h after
    obtain ⟨blanks, hb, hn, he⟩ := spells_of_read? h
    rw [List.append_cancel_right he]
    exact isSome_read? hb hn _ after

theorem begins_read? (d : Delimiters) (names : List Text) :
    Found.Begins d.left (read? d names) := by
  intro text h
  cases hr : read? d names text with
  | none => rfl
  | some found =>
    obtain ⟨blanks, -, -, rfl⟩ := spells_of_read? hr
    simp only [List.append_assoc] at h
    exact absurd (List.prefix_append ..) h

/-- A code tag is read as it is written if the names are of one character each. -/
theorem read?_written {c : Char} (hn : ∀ other ∈ names, other.length = 1) (hm : [c] ∈ names)
    (hc : Text.isBlank c = false) (hp : ¬ ("\x7d\x7d" : Text) <:+: payload) (rest : Text) :
    read? ⟨"\x7b\x7b", "\x7d\x7d"⟩ names ("\x7b\x7b " ++ c :: (payload ++ (" \x7d\x7d" ++ rest))) =
      some (([c], payload ++ [' ']), rest) := by
  have hleft : Text.after? id "\x7b\x7b" ("\x7b\x7b " ++ c :: (payload ++ (" \x7d\x7d" ++ rest))) =
      some (' ' :: c :: (payload ++ (" \x7d\x7d" ++ rest))) := rfl
  have hblanks (text : Text) : Text.afterBlanks Text.isBlank (' ' :: c :: text) =
      [c :: text, ' ' :: c :: text] := by
    rw [Text.afterBlanks, Text.afterBlanks, hc]
    rfl
  rw [read?, hleft]
  dsimp only
  rw [hblanks]
  apply findSome?_head
  apply findSome?_of_unique hm
  · have hname : Text.after? id [c] (c :: (payload ++ (" \x7d\x7d" ++ rest))) =
        some (payload ++ (" \x7d\x7d" ++ rest)) := Text.after?_append id [c] _
    rw [hname]
    dsimp only
    have hcut := Text.cut?_pair (d := ' ') (by decide) hp rest
    exact congrArg (Option.map _) hcut
  · intro other ho hne
    obtain ⟨e, rfl⟩ := List.length_eq_one_iff.1 (hn other ho)
    have hec : e ≠ c := by
      rintro rfl
      exact hne rfl
    have hnone : Text.after? id [e] (c :: (payload ++ (" \x7d\x7d" ++ rest))) = none := if_neg hec
    rw [hnone]

end ThemeMarkup.Code
