import ThemeMarkup.Proofs.Marked.Basic
import ThemeMarkup.Proofs.Template.Expression

namespace ThemeMarkup.Marker

open Text (Unmarked)

variable {core : Core} {Holds : Marker → Text → Prop} {text before after : Text} {f : Text → Text}

/-- Rewriting that goes on afresh at each character of a marker and leaves it as it is. -/
structure KeepsMarkers (f : Text → Text) : Prop where
  nil : f [] = []
  keep : ∀ {c}, ¬ IsForeign c → ∀ text, f (c :: text) = c :: f text
  turn : ∀ {c}, ¬ IsForeign c → ∀ before, ∃ new, ∀ after,
    f (before ++ c :: after) = new ++ c :: f after
  plain : ∀ {text}, Unmarked text → Unmarked (f text)

theorem KeepsMarkers.append (hf : KeepsMarkers f) (h : ∀ c ∈ before, ¬ IsForeign c) (after : Text) :
    f (before ++ after) = before ++ f after := by
  induction before with
  | nil => rfl
  | cons c before ih =>
    obtain ⟨hc, hb⟩ := List.forall_mem_cons.1 h
    rw [List.cons_append, hf.keep hc, ih hb, List.cons_append]

theorem plain_append (hb : Unmarked before) (ha : Unmarked after) :
    Core.start.Plain (before ++ after) := by
  have hcut : ∀ i < 10, ("##" : Text) <:+: Core.start.text.take i ∨
      ("##" : Text) <:+: Core.start.text.drop i := by decide
  have hpart : ("##" : Text) <:+: Core.start.text := by decide
  intro h
  rcases List.infix_append_iff.1 h with h | h | ⟨l, r, he, hl, hr⟩
  · exact hb (hpart.trans h)
  · exact ha (hpart.trans h)
  · have hlength : l.length < 10 := by
      have hlen : l.length + r.length = 9 := List.length_append ▸ (congrArg List.length he).symm
      omega
    have hl' : Core.start.text.take l.length = l := by rw [he, List.take_left]
    have hr' : Core.start.text.drop l.length = r := by rw [he, List.drop_left]
    rcases hcut l.length hlength with hin | hin
    · exact hb ((hl' ▸ hin).trans hl.isInfix)
    · exact ha ((hr' ▸ hin).trans hr.isInfix)

section

variable [Serials]

theorem Marked.stripLeft (h : Marked core Holds text) :
    Marked core Holds (Text.stripLeft text) := by
  obtain ⟨blanks, ht, hb⟩ := Text.exists_append_stripLeft text
  rw [ht] at h
  apply (h.of_append (seam_of_last _ _)).2
  intro c hc
  exact isForeign_of_isBlank (hb c (List.mem_of_getLast? hc))

theorem Marked.stripRight (h : Marked core Holds text) :
    Marked core Holds (Text.stripRight text) := by
  obtain ⟨blanks, ht, hb⟩ := Text.exists_stripRight_append text
  rw [ht] at h
  apply (h.of_append (seam_of_head _ _)).1
  intro c hc
  exact isForeign_of_isBlank (hb c (List.mem_of_mem_head? hc))

theorem Marked.strip (h : Marked core Holds text) : Marked core Holds (Text.strip text) :=
  h.stripLeft.stripRight

theorem KeepsMarkers.exists_turned (hf : KeepsMarkers f) (gap : Text) :
    ∃ new, f (gap ++ ['_']) = new ++ ['_'] ∧ ∀ kind content rest,
      f (gap ++ (encode kind content ++ rest)) = new ++ (encode kind content ++ f rest) := by
  obtain ⟨new, hnew⟩ := hf.turn (by decide : ¬ IsForeign '_') gap
  refine ⟨new, by rw [hnew [], hf.nil], ?_⟩
  intro kind content rest
  obtain ⟨inner, hinner⟩ := exists_encode_eq kind content
  have hkept : ∀ c ∈ '_' :: '#' :: inner, ¬ IsForeign c := by
    intro c hc
    have hm : c ∈ encode kind content := hinner ▸ List.mem_cons_of_mem _ hc
    exact not_isForeign_of_mem hm
  rw [hinner, List.cons_append, hnew, hf.append hkept]
  rfl

theorem KeepsMarkers.marked (hf : KeepsMarkers f) (h : Marked .hashes Holds text) :
    Marked .hashes Holds (f text) := by
  induction h with
  | plain h => exact .plain (hf.plain h)
  | @marker gap content rest kind hg holds _ ih =>
    obtain ⟨new, hturned, hnew⟩ := hf.exists_turned gap
    have hplain : Unmarked (gap ++ ['_']) := by
      apply Unmarked.append hg (Text.unmarked_of_not_mem (by decide))
      right
      decide
    have hunmarked := hf.plain hplain
    rw [hturned] at hunmarked
    rw [hnew]
    exact .marker (hunmarked.of_infix (List.prefix_append ..).isInfix) holds ih

def Joined (Holds : Marker → Text → Prop) (text : Text) : Prop :=
  ∃ before after, text = before ++ after ∧ Marked .hashes Holds before ∧ Marked .hashes Holds after

namespace Joined

theorem of_marked (h : Marked .hashes Holds text) : Joined Holds text :=
  ⟨text, [], (List.append_nil text).symm, h, .plain (Text.unmarked_of_not_mem List.not_mem_nil)⟩

theorem stripLeft (h : Joined Holds text) : Joined Holds (Text.stripLeft text) := by
  obtain ⟨before, after, rfl, hb, ha⟩ := h
  rw [Text.stripLeft, List.dropWhile_append]
  split
  · exact of_marked ha.stripLeft
  · exact ⟨_, after, rfl, hb.stripLeft, ha⟩

theorem stripRight (h : Joined Holds text) : Joined Holds (Text.stripRight text) := by
  obtain ⟨before, after, rfl, hb, ha⟩ := h
  rw [Text.stripRight, List.reverse_append, List.dropWhile_append]
  split
  · exact of_marked hb.stripRight
  · rw [List.reverse_append, List.reverse_reverse]
    exact ⟨before, _, rfl, hb, ha.stripRight⟩

theorem map (hf : KeepsMarkers f) (h : Joined Holds text) : Joined Holds (f text) := by
  obtain ⟨before, after, rfl, hb, ha⟩ := h
  by_cases hseam : before.getLast? = some '#' ∧ after.head? = some '#'
  · obtain ⟨hl, hh⟩ := hseam
    obtain ⟨first, rfl⟩ := List.getLast?_eq_some_iff.1 hl
    obtain ⟨rest, rfl⟩ := List.head?_eq_some_iff.1 hh
    obtain ⟨new, hnew⟩ := hf.turn (by decide : ¬ IsForeign '#') first
    have hsplit : f (first ++ ['#'] ++ '#' :: rest) = f (first ++ ['#']) ++ f ('#' :: rest) := by
      rw [List.append_assoc, List.singleton_append, hnew, hnew, hf.nil, List.append_assoc,
        List.singleton_append]
    rw [hsplit]
    exact ⟨_, _, rfl, hf.marked hb, hf.marked ha⟩
  · apply of_marked
    apply hf.marked
    apply hb.append_of_not_mem ha
    intro c hc d hd
    have hcore : ∀ c ∈ Core.hashes.text, c = '#' := by decide
    by_cases hm : c ∈ Core.hashes.text
    · right
      intro hm'
      exact hseam ⟨hcore c hm ▸ hc, hcore d hm' ▸ hd⟩
    · exact .inl hm

theorem marked (h : Joined Holds text) : Marked .start Holds text := by
  obtain ⟨before, after, rfl, hb, ha⟩ := h
  have hweak {text : Text} (h : Marked .hashes Holds text) : Marked .start Holds text :=
    h.mono (by decide) fun _ _ holds => holds
  induction hb with
  | @plain before hb =>
    cases ha with
    | plain ha => exact .plain (plain_append hb ha)
    | marker hg holds more =>
      rw [← List.append_assoc]
      exact .marker (plain_append hb hg) holds (hweak more)
  | @marker gap content rest kind hg holds _ ih =>
    rw [List.append_assoc, List.append_assoc]
    apply Marked.marker _ holds ih
    rw [← List.append_nil gap]
    exact plain_append hg (Text.unmarked_of_not_mem List.not_mem_nil)

end Joined

end

open Expression (dropSigils pointArrows toTarget quote)

theorem ne_of_not_isForeign {c d : Char} (hc : ¬ IsForeign c) (hd : IsForeign d) : c ≠ d := by
  rintro rfl
  exact hc hd

theorem keepsMarkers_dropSigils : KeepsMarkers dropSigils where
  nil := rfl
  keep := by
    intro c hc text
    exact Expression.dropSigils_cons (ne_of_not_isForeign hc (by decide)) text
  turn := by
    intro c hc before
    have hkeep := Expression.dropSigils_cons (ne_of_not_isForeign hc (by decide))
    induction before using Expression.dropSigils.induct with
    | case1 d before hd ih =>
      obtain ⟨new, hnew⟩ := ih
      refine ⟨new, fun after => ?_⟩
      rw [← hnew]
      exact if_pos hd
    | case2 d before hd ih =>
      obtain ⟨new, hnew⟩ := ih
      refine ⟨'$' :: new, fun after => ?_⟩
      exact (if_neg hd).trans (congrArg ('$' :: ·) (hnew after))
    | case3 d before hd ih =>
      obtain ⟨new, hnew⟩ := ih
      by_cases he : d = '$'
      · subst he
        cases before with
        | cons e before => exact absurd rfl (hd e before rfl)
        | nil =>
          by_cases hs : Attribute.isNameStart c = true
          · refine ⟨[], fun after => ?_⟩
            rw [List.nil_append, ← hkeep]
            exact if_pos hs
          · refine ⟨['$'], fun after => ?_⟩
            rw [List.singleton_append, ← hkeep]
            exact if_neg hs
      · refine ⟨d :: new, fun after => ?_⟩
        rw [List.cons_append, Expression.dropSigils_cons he, hnew, List.cons_append]
    | case4 => exact ⟨[], hkeep⟩
  plain := by
    intro text h
    have hspace : Unmarked (' ' :: text) := Text.unmarked_cons_of_ne (by decide) h
    exact Text.unmarked_iff.2 (Expression.isChain_dropSigils (Text.unmarked_iff.1 hspace)).tail

theorem keepsMarkers_pointArrows : KeepsMarkers pointArrows where
  nil := rfl
  keep := by
    intro c hc text
    have hdash : c ≠ '-' := ne_of_not_isForeign hc (by decide)
    rw [pointArrows]
    rintro rest rfl
    exact absurd rfl hdash
  turn := by
    intro c hc before
    have hdash : c ≠ '-' := ne_of_not_isForeign hc (by decide)
    have hpoint : c ≠ '>' := ne_of_not_isForeign hc (by decide)
    induction before using Expression.pointArrows.induct with
    | case1 before ih =>
      obtain ⟨new, hnew⟩ := ih
      refine ⟨'.' :: new, fun after => ?_⟩
      exact congrArg ('.' :: ·) (hnew after)
    | case2 d before hd ih =>
      obtain ⟨new, hnew⟩ := ih
      refine ⟨d :: new, fun after => ?_⟩
      rw [List.cons_append, pointArrows, hnew]
      · rfl
      rintro rest rfl he
      cases before with
      | nil => exact hpoint (List.cons.inj he).1
      | cons e before =>
        obtain ⟨rfl, -⟩ := List.cons.inj he
        exact hd before rfl rfl
    | case3 =>
      refine ⟨[], fun after => ?_⟩
      rw [List.nil_append, List.nil_append, pointArrows]
      rintro rest rfl
      exact absurd rfl hdash
  plain := by
    intro text h
    have hspace : Unmarked (' ' :: text) := Text.unmarked_cons_of_ne (by decide) h
    exact Text.unmarked_iff.2 (Expression.isChain_pointArrows (Text.unmarked_iff.1 hspace)).tail

def escaped (c : Char) : Text :=
  if c = '"' then ['\\', '"'] else [c]

theorem flatMap_escaped_cons {c : Char} (h : ¬ IsForeign c) (text : Text) :
    (c :: text).flatMap escaped = c :: text.flatMap escaped := by
  rw [List.flatMap_cons, escaped, if_neg (ne_of_not_isForeign h (by decide))]
  rfl

theorem isChain_escaped {a : Char} (h : (a :: text).IsChain fun c d => c = '#' → d ≠ '#') :
    (a :: text.flatMap escaped).IsChain fun c d => c = '#' → d ≠ '#' := by
  induction text generalizing a with
  | nil => exact h
  | cons c text ih =>
    have hrest := ih h.tail
    rw [List.flatMap_cons, escaped]
    split
    · next hc =>
      subst hc
      exact .cons_cons (fun _ => by decide) (.cons_cons (fun _ => by decide) hrest)
    · exact .cons_cons (List.isChain_cons_cons.1 h).1 hrest

theorem keepsMarkers_escaped : KeepsMarkers (List.flatMap escaped) where
  nil := rfl
  keep := flatMap_escaped_cons
  turn := by
    intro c hc before
    refine ⟨before.flatMap escaped, fun after => ?_⟩
    rw [List.flatMap_append, flatMap_escaped_cons hc]
  plain := by
    intro text h
    have hspace : Unmarked (' ' :: text) := Text.unmarked_cons_of_ne (by decide) h
    exact Text.unmarked_iff.2 (isChain_escaped (Text.unmarked_iff.1 hspace)).tail

namespace Joined

variable [Serials]

theorem toTarget (h : Joined Holds text) : Joined Holds (toTarget text) := by
  rw [Expression.toTarget, Text.strip]
  exact (h.stripLeft.stripRight.map keepsMarkers_dropSigils).map keepsMarkers_pointArrows

theorem quote (h : Joined Holds text) : Marked .start Holds (quote text) := by
  have hstrip : Joined Holds (Text.strip text) := h.stripLeft.stripRight
  rw [Expression.quote]
  split
  · exact hstrip.toTarget.marked
  · have hends : Marked .start Holds ['"'] := .plain (by decide)
    have hescaped := (hstrip.map keepsMarkers_escaped).marked
    exact (hends.append hescaped (seam_of_last (by decide) _)).append hends
      (seam_of_head _ (by decide))

end Joined

end ThemeMarkup.Marker
