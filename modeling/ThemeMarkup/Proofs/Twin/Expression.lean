import ThemeMarkup.Proofs.Twin.Basic

namespace ThemeMarkup

theorem Text.stripRight_append (text after : Text) :
    stripRight (text ++ after) =
      if stripRight after = [] then stripRight text else text ++ stripRight after := by
  simp only [stripRight, List.reverse_append, List.dropWhile_append, List.isEmpty_iff,
    List.reverse_eq_nil_iff]
  split
  · rfl
  · rw [List.reverse_append, List.reverse_reverse]

namespace Marker

variable {p : Plainness} {Pair : Marker → Text → Text → Prop} {text text' : Text} {c : Char}

variable [Marker.Serials]

theorem stripRight_encode (kind : Marker) (content : Text) :
    Text.stripRight (encode kind content) = encode kind content := by
  have hdrop :
      (encode kind content).reverse.dropWhile Text.isBlank = (encode kind content).reverse := by
    apply Text.dropWhile_eq_self
    rw [List.head?_reverse, getLast?_encode]
    decide
  rw [Text.stripRight, hdrop, List.reverse_reverse]

namespace Twin

theorem exists_of_cons (h : Twin p Pair (c :: text) text') (hc : c ≠ '_') :
    ∃ rest, text' = c :: rest ∧ Twin p Pair text rest := by
  generalize ht : c :: text = whole at h
  cases h using Twin.inductionOn with
  | nil => contradiction
  | cons d h more =>
    obtain ⟨rfl, rfl⟩ := List.cons.inj ht
    exact ⟨_, rfl, more⟩
  | marker kind h pair more =>
    obtain ⟨inner, hinner⟩ := exists_encode_eq kind _
    rw [hinner] at ht
    exact absurd (List.cons.inj ht).1 hc

theorem mem_iff (h : Kin Pair text text') (hc : IsForeign c) : c ∈ text' ↔ c ∈ text := by
  have hmarker (kind : Marker) (content : Text) : c ∉ encode kind content :=
    fun hm => not_isForeign_of_mem hm hc
  induction h using Twin.inductionOn with
  | nil => rfl
  | cons d h more ih =>
    rw [List.mem_cons, List.mem_cons]
    exact or_congr_right ih
  | marker kind h pair more ih => simp only [List.mem_append, hmarker, false_or, ih]

section Runs

variable {q : Char → Bool}

theorem takeWhile (hq : ∀ c, ¬ IsForeign c → q c = true) (h : Kin Pair text text') :
    Kin Pair (text.takeWhile q) (text'.takeWhile q) := by
  have hall (kind : Marker) (content : Text) : ∀ c ∈ encode kind content, q c = true :=
    fun c hc => hq c (not_isForeign_of_mem hc)
  induction h using Twin.inductionOn with
  | nil => exact .plain trivial
  | cons c h more ih =>
    rw [List.takeWhile_cons, List.takeWhile_cons]
    split
    · exact ih.cons c
    · exact .plain trivial
  | marker kind h pair more ih =>
    rw [List.takeWhile_append_of_pos (hall kind _), List.takeWhile_append_of_pos (hall kind _)]
    exact (of_pair pair).append ih

theorem dropWhile (hq : ∀ c, ¬ IsForeign c → q c = true) (h : Twin p Pair text text') :
    Twin p Pair (text.dropWhile q) (text'.dropWhile q) := by
  have hall (kind : Marker) (content : Text) : ∀ c ∈ encode kind content, q c = true :=
    fun c hc => hq c (not_isForeign_of_mem hc)
  induction h using Twin.inductionOn with
  | nil h => exact h
  | cons c h more ih =>
    rw [List.dropWhile_cons, List.dropWhile_cons]
    split
    · exact ih
    · exact h
  | marker kind h pair more ih =>
    rw [List.dropWhile_append_of_pos (hall kind _), List.dropWhile_append_of_pos (hall kind _)]
    exact ih

theorem stripLeft (h : Kin Pair text text') :
    Kin Pair (Text.stripLeft text) (Text.stripLeft text') := by
  induction h using Twin.inductionOn with
  | nil => exact .plain trivial
  | cons c h more ih =>
    rw [Text.stripLeft, Text.stripLeft, List.dropWhile_cons, List.dropWhile_cons]
    split
    · exact ih
    · exact h
  | marker kind h pair more ih =>
    have hkept (content rest : Text) :
        Text.stripLeft (encode kind content ++ rest) = encode kind content ++ rest := by
      obtain ⟨inner, hinner⟩ := exists_encode_eq kind content
      rw [hinner]
      rfl
    rw [hkept, hkept]
    exact h

theorem stripRight (h : Kin Pair text text') :
    Kin Pair (Text.stripRight text) (Text.stripRight text') := by
  have hstep {before before' rest rest' : Text} (hb : Kin Pair before before')
      (hb' : Kin Pair (Text.stripRight before) (Text.stripRight before'))
      (ih : Kin Pair (Text.stripRight rest) (Text.stripRight rest')) :
      Kin Pair (Text.stripRight (before ++ rest)) (Text.stripRight (before' ++ rest')) := by
    simp only [Text.stripRight_append, ih.eq_nil]
    split
    · exact hb'
    · exact hb.append ih
  induction h using Twin.inductionOn with
  | nil => exact .plain trivial
  | cons c h more ih =>
    have hone : Kin Pair [c] [c] := .plain trivial
    exact hstep hone (.plain trivial) ih
  | marker kind h pair more ih =>
    apply hstep (of_pair pair) _ ih
    rw [stripRight_encode, stripRight_encode]
    exact of_pair pair

theorem strip (h : Kin Pair text text') : Kin Pair (Text.strip text) (Text.strip text') :=
  h.stripLeft.stripRight

theorem afterBlanks (hq : q '_' = false) (h : Twin p Pair text text') :
    List.Forall₂ (Twin p Pair) (Text.afterBlanks q text) (Text.afterBlanks q text') := by
  induction h using Twin.inductionOn with
  | nil h => exact .cons h .nil
  | cons c h more ih =>
    rw [Text.afterBlanks, Text.afterBlanks]
    split
    · exact List.rel_append ih (.cons h .nil)
    · exact .cons h .nil
  | marker kind h pair more ih =>
    have hkept (content rest : Text) :
        Text.afterBlanks q (encode kind content ++ rest) = [encode kind content ++ rest] := by
      obtain ⟨inner, hinner⟩ := exists_encode_eq kind content
      rw [hinner, List.cons_append, Text.afterBlanks, hq]
      rfl
    rw [hkept, hkept]
    exact .cons h .nil

end Runs

/-- A word in which no marker begins leads a text as it leads its twin. -/
theorem after?_word {fold : Char → Char} {word : Text} (hw : ∀ c ∈ word, fold c ≠ fold '_')
    (h : Twin p Pair text text') :
    Option.Rel (fun rest rest' => Twin p Pair rest rest' ∧
        text'.take word.length = text.take word.length)
      (Text.after? fold word text) (Text.after? fold word text') := by
  induction word generalizing text text' with
  | nil => exact .some ⟨h, rfl⟩
  | cons c word ihw =>
    obtain ⟨hc, hw⟩ := List.forall_mem_cons.1 hw
    cases h using Twin.inductionOn with
    | nil => exact .none
    | cons d h more =>
      rw [Text.after?, Text.after?]
      split
      · rcases Option.Rel.none_or_some (ihw hw more)
          with ⟨hx, hy⟩ | ⟨rest, rest', hx, hy, hrest, htake⟩
        · rw [hx, hy]
          exact .none
        · rw [hx, hy]
          exact .some ⟨hrest, congrArg (d :: ·) htake⟩
      · exact .none
    | marker kind h pair more =>
      have hnone (content rest : Text) :
          Text.after? fold (c :: word) (encode kind content ++ rest) = none := by
        obtain ⟨inner, hinner⟩ := exists_encode_eq kind content
        rw [hinner]
        exact if_neg hc
      rw [hnone, hnone]
      exact .none

/-- The search for a word goes on past markers if these lack the first character of the word. -/
theorem cut?_word {word : Text} (hc : IsForeign c) (hw : ∀ d ∈ word, d ≠ '_')
    (h : Twin p Pair text text') :
    Option.Rel (fun cut cut' => Kin Pair cut.1 cut'.1 ∧ Twin p Pair cut.2 cut'.2)
      (Text.cut? (c :: word) text) (Text.cut? (c :: word) text') := by
  have hmarker (kind : Marker) (content : Text) : c ∉ encode kind content :=
    fun hm => not_isForeign_of_mem hm hc
  have hword : ∀ d ∈ c :: word, id d ≠ id '_' := by
    refine List.forall_mem_cons.2 ⟨?_, hw⟩
    rintro rfl
    revert hc
    decide
  induction h using Twin.inductionOn with
  | nil => exact .none
  | cons d h more ih =>
    rw [Text.cut?, Text.cutAt?_cons, Text.cutAt?_cons]
    rcases Option.Rel.none_or_some (h.after?_word hword) with
      ⟨hx, hy⟩ | ⟨rest, rest', hx, hy, hrest, -⟩
    · rw [hx, hy]
      exact Option.Rel.map (fun hcut => ⟨hcut.1.cons d, hcut.2⟩) ih
    · rw [hx, hy]
      exact .some ⟨.plain trivial, hrest⟩
  | marker kind h pair more ih =>
    rw [Text.cut?_append_of_not_mem (hmarker _ _), Text.cut?_append_of_not_mem (hmarker _ _)]
    exact Option.Rel.map (fun hcut => ⟨(of_pair pair).append hcut.1, hcut.2⟩) ih

open Expression (dropSigils pointArrows toTarget quote startsExpression)

theorem map {f : Text → Text} (hf : KeepsMarkers f) (h : Kin Pair text text') :
    Kin Pair (f text) (f text') := by
  induction h with
  | plain _ => exact .plain trivial
  | @marker gap content content' rest rest' kind _ pair more ih =>
    obtain ⟨new, -, hnew⟩ := hf.exists_turned gap
    rw [hnew, hnew]
    exact .marker trivial pair ih

theorem startsExpression_eq (h : Kin Pair text text') :
    startsExpression text' = startsExpression text := by
  have hhead (text : Text) : startsExpression text =
      text.head?.any fun c => c = '\'' || c = '"' || c = '$' := by
    cases text <;> rfl
  rw [hhead, hhead, h.head?_eq]

theorem toTarget (h : Kin Pair text text') : Kin Pair (toTarget text) (toTarget text') := by
  rw [Expression.toTarget, Expression.toTarget]
  exact (h.strip.map keepsMarkers_dropSigils).map keepsMarkers_pointArrows

theorem quote (h : Kin Pair text text') : Kin Pair (quote text) (quote text') := by
  have hstrip := h.strip
  have hround : (Text.strip text').contains '(' = (Text.strip text).contains '(' := by
    rw [Bool.eq_iff_iff, List.contains_iff_mem, List.contains_iff_mem]
    exact hstrip.mem_iff (by decide)
  simp only [Expression.quote, hstrip.startsExpression_eq, hround]
  split
  · exact hstrip.toTarget
  · have hends : Kin Pair ['"'] ['"'] := .plain trivial
    exact (hends.append (hstrip.map keepsMarkers_escaped)).append hends

end Twin

end Marker

end ThemeMarkup
