import ThemeMarkup.Text.Basic

namespace ThemeMarkup.Text

variable {fold : Char → Char} {close : Text → Option Text} {lead needle text before rest : Text}

theorem after?_eq_some_iff :
    after? fold lead text = some rest ↔
      ∃ l, text = l ++ rest ∧ l.map fold = lead.map fold := by
  induction lead generalizing text with
  | nil => simp [after?]
  | cons c lead ih =>
    cases text with
    | nil => simp [after?]
    | cons d text =>
      simp only [after?]
      constructor
      · intro h
        split at h
        · next hc =>
          obtain ⟨l, rfl, hl⟩ := ih.1 h
          exact ⟨d :: l, rfl, by simp [hc, hl]⟩
        · contradiction
      · rintro ⟨l, ht, hl⟩
        cases l with
        | nil => simp at hl
        | cons e l =>
          simp only [List.cons_append, List.cons.injEq] at ht
          simp only [List.map_cons, List.cons.injEq] at hl
          obtain ⟨rfl, rfl⟩ := ht
          rw [if_pos hl.1.symm]
          exact ih.2 ⟨l, rfl, hl.2⟩

@[simp] theorem after?_append (fold : Char → Char) (lead rest : Text) :
    after? fold lead (lead ++ rest) = some rest :=
  after?_eq_some_iff.2 ⟨lead, rfl, rfl⟩

theorem isSome_after?_id_iff : (after? id lead text).isSome ↔ lead <+: text := by
  rw [Option.isSome_iff_exists]
  constructor
  · rintro ⟨rest, h⟩
    exact ⟨rest, append_of_after? h⟩
  · rintro ⟨rest, rfl⟩
    exact ⟨rest, after?_append _ _ _⟩

theorem after?_id_eq_none_iff : after? id lead text = none ↔ ¬ lead <+: text := by
  rw [← isSome_after?_id_iff, Option.not_isSome_iff_eq_none]

theorem cutAt?_cons (c : Char) (text : Text) :
    cutAt? close (c :: text) =
      match close (c :: text) with
      | some rest => some ([], rest)
      | none => (cutAt? close text).map fun (before, rest) => (c :: before, rest) :=
  cutAt?.eq_def close (c :: text)

theorem cutAt?_of_some (h : close text = some rest) : cutAt? close text = some ([], rest) := by
  unfold cutAt?
  rw [h]

/-- A search stops where it first succeeds. -/
theorem cutAt?_eq_some_iff :
    cutAt? close text = some (before, rest) ↔
      ∃ after, text = before ++ after ∧ close after = some rest ∧
        ∀ i < before.length, close (text.drop i) = none := by
  induction text generalizing before with
  | nil =>
    unfold cutAt?
    cases hc : close [] with
    | some r =>
      simp only [Option.some.injEq, Prod.mk.injEq, List.nil_eq, List.append_eq_nil_iff]
      constructor
      · rintro ⟨rfl, rfl⟩
        exact ⟨[], ⟨rfl, rfl⟩, hc, by simp⟩
      · rintro ⟨after, ⟨rfl, rfl⟩, hr, -⟩
        exact ⟨rfl, by simpa [hc] using hr⟩
    | none =>
      simp only [reduceCtorEq, false_iff]
      rintro ⟨after, ha, hr, -⟩
      obtain ⟨rfl, rfl⟩ := List.append_eq_nil_iff.1 ha.symm
      simp [hc] at hr
  | cons c text ih =>
    rw [cutAt?_cons]
    cases hc : close (c :: text) with
    | some r =>
      constructor
      · intro h
        cases h
        exact ⟨c :: text, rfl, hc, by simp⟩
      · rintro ⟨after, ha, hr, hn⟩
        cases before with
        | nil =>
          simp only [List.nil_append] at ha
          subst ha
          simpa [hc] using hr
        | cons d before => exact absurd (hn 0 (by simp)) (by simp [hc])
    | none =>
      simp only [Option.map_eq_some_iff, Prod.mk.injEq, Prod.exists]
      constructor
      · rintro ⟨b, r, h, rfl, rfl⟩
        obtain ⟨after, rfl, hr, hn⟩ := ih.1 h
        refine ⟨after, rfl, hr, fun i hi => ?_⟩
        cases i with
        | zero => exact hc
        | succ i => exact hn i (by simpa using hi)
      · rintro ⟨after, ha, hr, hn⟩
        cases before with
        | nil =>
          simp only [List.nil_append] at ha
          subst ha
          simp [hc] at hr
        | cons d b =>
          simp only [List.cons_append, List.cons.injEq] at ha
          obtain ⟨rfl, rfl⟩ := ha
          refine ⟨b, rest, ih.2 ⟨after, rfl, hr, fun i hi => ?_⟩, rfl, rfl⟩
          exact hn (i + 1) (by simpa using hi)

theorem isSome_cutAt?_iff :
    (cutAt? close text).isSome ↔ ∃ before after, text = before ++ after ∧ (close after).isSome := by
  constructor
  · intro h
    obtain ⟨⟨before, rest⟩, h⟩ := Option.isSome_iff_exists.1 h
    obtain ⟨after, ht, hr, -⟩ := cutAt?_eq_some_iff.1 h
    exact ⟨before, after, ht, by simp [hr]⟩
  · rintro ⟨before, after, rfl, h⟩
    induction before with
    | nil =>
      obtain ⟨rest, hr⟩ := Option.isSome_iff_exists.1 h
      rw [List.nil_append, cutAt?_of_some hr]
      rfl
    | cons c before ih =>
      rw [List.cons_append, cutAt?_cons]
      split
      · rfl
      · rw [Option.isSome_map]
        exact ih

theorem cut?_eq_some_iff :
    cut? needle text = some (before, rest) ↔
      text = before ++ needle ++ rest ∧ ∀ i < before.length, ¬ needle <+: text.drop i := by
  simp only [cut?, cutAt?_eq_some_iff, after?_id_eq_none_iff]
  constructor
  · rintro ⟨after, rfl, hr, hn⟩
    exact ⟨by rw [← append_of_after? hr, List.append_assoc], hn⟩
  · rintro ⟨rfl, hn⟩
    exact ⟨needle ++ rest, List.append_assoc .., after?_append .., hn⟩

theorem isSome_cut?_iff : (cut? needle text).isSome ↔ needle <:+: text := by
  simp only [cut?, isSome_cutAt?_iff, isSome_after?_id_iff]
  constructor
  · rintro ⟨before, after, rfl, rest, rfl⟩
    exact ⟨before, rest, List.append_assoc ..⟩
  · rintro ⟨before, rest, rfl⟩
    exact ⟨before, needle ++ rest, List.append_assoc .., rest, rfl⟩

theorem prefix_of_cut? {known after : Text}
    (h : cut? needle (known ++ needle ++ rest) = some (before, after)) : before <+: known := by
  obtain ⟨he, hfirst⟩ := cut?_eq_some_iff.1 h
  have hle : before.length ≤ known.length := by
    refine Nat.le_of_not_lt fun hlt => hfirst known.length hlt ⟨rest, ?_⟩
    rw [List.append_assoc, List.drop_left]
  refine List.prefix_of_prefix_length_le ⟨needle ++ after, ?_⟩ ⟨needle ++ rest, rfl⟩ hle
  rw [← List.append_assoc, ← he, List.append_assoc]

theorem cut?_append_of_not_mem {c : Char} {gap : Text} (h : c ∉ gap) :
    cut? (c :: needle) (gap ++ text) =
      (cut? (c :: needle) text).map fun (before, rest) => (gap ++ before, rest) := by
  induction gap with
  | nil => simp
  | cons d gap ih =>
    obtain ⟨hd, hg⟩ := not_or.1 (mt List.mem_cons.2 h)
    have hnone : after? id (c :: needle) (d :: (gap ++ text)) = none := if_neg hd
    have ih := ih hg
    rw [cut?] at ih ⊢
    rw [List.cons_append, cutAt?_cons, hnone]
    dsimp only
    rw [ih, Option.map_map]
    rfl

/-- A pair of like characters that does not occur in a text is found after it and one more
character. -/
theorem cut?_pair {c d : Char} (hd : d ≠ c) (h : ¬ [c, c] <:+: text) (rest : Text) :
    cut? [c, c] (text ++ d :: c :: c :: rest) = some (text ++ [d], rest) := by
  have hsplit : text ++ d :: c :: c :: rest = text ++ [d] ++ [c, c] ++ rest := by simp
  apply cut?_eq_some_iff.2
  constructor
  · exact hsplit
  · intro i hi hp
    have hle : i ≤ text.length := by
      rw [List.length_append] at hi
      exact Nat.le_of_lt_succ hi
    rw [List.drop_append_of_le_length hle] at hp
    obtain ⟨after, ha⟩ := hp
    cases hdrop : text.drop i with
    | nil =>
      rw [hdrop] at ha
      exact hd (List.cons.inj ha).1.symm
    | cons a tail =>
      rw [hdrop] at ha
      obtain ⟨rfl, htail⟩ := List.cons.inj ha
      cases tail with
      | nil => exact hd (List.cons.inj htail).1.symm
      | cons b tail =>
        obtain ⟨rfl, -⟩ := List.cons.inj htail
        have hpart : [c, c] <+: text.drop i := hdrop ▸ ⟨tail, rfl⟩
        exact h (hpart.isInfix.trans (List.drop_suffix i text).isInfix)

@[simp] theorem cut?_append (needle rest : Text) : cut? needle (needle ++ rest) = some ([], rest) :=
  cut?_eq_some_iff.2 ⟨rfl, by simp⟩

theorem cut?_of_not_mem {c : Char} {gap : Text} (hg : c ∉ gap) (hn : needle.head? = some c)
    (rest : Text) : cut? needle (gap ++ (needle ++ rest)) = some (gap, rest) := by
  obtain ⟨after, rfl⟩ := List.head?_eq_some_iff.1 hn
  rw [cut?_append_of_not_mem hg, cut?_append]
  exact congrArg (fun before => some (before, rest)) (List.append_nil gap)

theorem drop_add {full gap : Text} {offset : Nat} (h : full.drop offset = gap ++ text) :
    full.drop (offset + gap.length) = text := by
  rw [← List.drop_drop, h, List.drop_left]

end ThemeMarkup.Text
