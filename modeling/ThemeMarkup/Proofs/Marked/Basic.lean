import ThemeMarkup.Proofs.Template.Unmarked

namespace ThemeMarkup

section

variable (p : Char → Prop) [DecidablePred p]

instance Text.decidableForallMem (text : Text) : Decidable (∀ c ∈ text, p c) :=
  List.decidableBAll p text

instance Text.decidableForallMemOption (c? : Option Char) : Decidable (∀ c ∈ c?, p c) :=
  Option.decidableForallMem c?

end

theorem Text.eq_append_of_seam {needle text other before after : Text} (hn : needle ≠ [])
    (h : ∀ c ∈ text.getLast?, ∀ d ∈ other.head?, c ∉ needle ∨ d ∉ needle)
    (ht : text ++ other = before ++ (needle ++ after)) :
    (∃ part, text = before ++ (needle ++ part) ∧ after = part ++ other) ∨
      ∃ part, before = text ++ part ∧ other = part ++ (needle ++ after) := by
  rcases List.append_eq_append_iff.1 ht with hright | ⟨part, rfl, hpart⟩
  · exact .inr hright
  · rcases List.append_eq_append_iff.1 hpart with ⟨more, rfl, hafter⟩ | ⟨more, rfl, rfl⟩
    · exact .inl ⟨more, rfl, hafter⟩
    · rcases List.eq_nil_or_concat' part with rfl | ⟨part, c, rfl⟩
      · exact .inr ⟨[], by simp, rfl⟩
      · cases more with
        | nil => exact .inl ⟨[], by simp, rfl⟩
        | cons d more =>
          rcases h c (by simp) d (by simp) with hc | hd
          · exact absurd (by simp) hc
          · exact absurd (by simp) hd

namespace Marker

variable {kind : Marker} {content before after text : Text} {c : Char}

/-- Whether a character is none of those that markers are written with. -/
def IsForeign (c : Char) : Prop :=
  c ∉ ("_#revertglobalSTARTEND@=" : Text) ∧ Base64.digit? c = none

instance (c : Char) : Decidable (IsForeign c) :=
  inferInstanceAs (Decidable (_ ∧ _))

theorem isForeign_of_isBlank (h : Text.isBlank c = true) : IsForeign c := by
  have hfixed : ∀ d ∈ ("_#revertglobalSTARTEND@=" : Text), Text.isBlank d = false := by
    decide
  have hdigit : ∀ n < 64, Text.isBlank (Base64.digit n) = false := by decide
  constructor
  · intro hm
    rw [hfixed c hm] at h
    contradiction
  · cases hd : Base64.digit? c with
    | none => rfl
    | some n =>
      obtain ⟨hn, rfl⟩ := Base64.eq_digit_of_digit? hd
      rw [hdigit n hn] at h
      contradiction

def Seam (before after : Text) : Prop :=
  ∀ c ∈ before.getLast?, ∀ d ∈ after.head?, IsForeign c ∨ IsForeign d

theorem seam_of_last (h : ∀ c ∈ before.getLast?, IsForeign c) (after : Text) :
    Seam before after := by
  intro c hc d _
  exact .inl (h c hc)

theorem seam_of_head (before : Text) (h : ∀ c ∈ after.head?, IsForeign c) :
    Seam before after := by
  intro c _ d hd
  exact .inr (h d hd)

/-- What plain text lacks: two hash signs or, more generously, all that openings end with. -/
structure Core where
  text : Text
  part : text <:+: ("##START##" : Text)

def Core.hashes : Core := ⟨"##", by decide⟩

def Core.start : Core := ⟨"##START##", by decide⟩

namespace Core

variable {core : Core}

def Plain (core : Core) (text : Text) : Prop :=
  ¬ core.text <:+: text

instance (core : Core) (text : Text) : Decidable (core.Plain text) :=
  inferInstanceAs (Decidable (¬ _))

theorem Plain.of_infix (h : core.Plain text) {part : Text} (hi : part <:+: text) :
    core.Plain part := by
  intro hp
  exact h (hp.trans hi)

theorem not_mem_of_isForeign (core : Core) (h : IsForeign c) : c ∉ core.text := by
  have hpart : ("##START##" : Text) ⊆ ("_#revertglobalSTARTEND@=" : Text) := by decide
  intro hc
  exact h.1 (hpart (core.part.subset hc))

theorem plain_append (hb : core.Plain before) (ha : core.Plain after)
    (h : ∀ c ∈ before.getLast?, ∀ d ∈ after.head?, c ∉ core.text ∨ d ∉ core.text) :
    core.Plain (before ++ after) := by
  rintro ⟨first, last, he⟩
  by_cases hn : core.text = []
  · exact hb (hn ▸ List.nil_infix)
  · rw [List.append_assoc] at he
    rcases Text.eq_append_of_seam hn h he.symm with ⟨part, rfl, -⟩ | ⟨part, -, rfl⟩
    · exact hb (List.infix_append' first core.text part)
    · exact ha (List.infix_append' part core.text last)

end Core

theorem word_injective {kind other : Marker} (h : kind.word = other.word) : kind = other := by
  cases kind <;> cases other <;> first | rfl | exact absurd h (by decide)

variable [Serials]

/-- Plain text and markers in turn, of which each holds what one of its kind may. -/
inductive Marked (core : Core) (Holds : Marker → Text → Prop) : Text → Prop where
  | plain {text : Text} (plain : core.Plain text) : Marked core Holds text
  | marker {gap content rest : Text} {kind : Marker} (plain : core.Plain gap)
      (holds : Holds kind content) (more : Marked core Holds rest) :
      Marked core Holds (gap ++ (encode kind content ++ rest))

theorem not_isForeign_of_mem (h : c ∈ encode kind content) : ¬ IsForeign c := by
  rintro ⟨hfixed, hdigit⟩
  have hkind : opening kind.word ++ '@' :: closing kind.word ⊆
      ("_#revertglobalSTARTEND@=" : Text) := by
    cases kind <;> decide
  have hserial : c ∉ serial kind.word content := by
    intro hm
    have hd := forall_mem_serial (p := (Base64.digit? · ≠ none)) (by decide) _ _ c hm
    exact hd hdigit
  have hencode := encode_eq kind content []
  rw [List.append_nil, List.append_nil] at hencode
  have hpayload : c ∉ payloadOf content := by
    apply not_mem_payloadOf
    · rintro rfl
      exact hfixed (by decide)
    · rintro n hn rfl
      rw [Base64.digit?_digit n hn] at hdigit
      contradiction
  apply hfixed
  apply hkind
  rw [hencode] at h
  simp only [List.mem_append, List.mem_cons, hserial, hpayload, false_or] at h ⊢
  exact h

theorem exists_encode_eq (kind : Marker) (content : Text) :
    ∃ inner, encode kind content = '_' :: '_' :: '#' :: inner := by
  rw [encode, encodeAs, opening]
  exact ⟨_, rfl⟩

theorem getLast?_encode (kind : Marker) (content : Text) :
    (encode kind content).getLast? = some '_' := by
  have hclosing : (closing kind.word).getLast? = some '_' := by
    cases kind <;> rfl
  rw [encode, encodeAs, List.getLast?_append, hclosing]
  rfl

/-- In a marker, what openings end with stands at the end of its opening only. -/
theorem eq_of_start (h : encode kind content = before ++ ("##START##" ++ after)) :
    before = "__##" ++ kind.word := by
  let start : Text := "##START##"
  obtain ⟨d, digits, hserial⟩ := List.exists_cons_of_ne_nil (isSerial_serial kind.word content).1
  let middle : Text := digits ++ '@' :: payloadOf content
  have hencode : opening kind.word ++ (d :: middle ++ closing kind.word) =
      before ++ (start ++ after) := by
    rw [← h, encode, encodeAs, hserial]
    simp only [middle, payloadOf, List.append_assoc, List.cons_append, List.nil_append]
  rcases List.append_eq_append_iff.1 hencode with ⟨later, -, hlater⟩ | ⟨part, hopening, hpart⟩
  · have hhash : '#' ∉ d :: middle := by
      have hpayload : '#' ∉ payloadOf content := not_mem_payloadOf content (by decide) (by decide)
      have hdigits : '#' ∉ d :: digits := hserial ▸ fun hm =>
        forall_mem_serial (p := ('#' ≠ ·)) (by decide) _ _ _ hm rfl
      simp only [middle, List.mem_cons, List.mem_append, not_or] at hdigits ⊢
      exact ⟨hdigits.1, hdigits.2, by decide, hpayload⟩
    have hclosing (past : Text) : closing kind.word ≠ past ++ (start ++ after) := by
      intro he
      have hi : start <:+: closing kind.word := he ▸ List.infix_append' past start after
      revert hi
      cases kind <;> decide
    rcases List.append_eq_append_iff.1 hlater with ⟨past, -, he⟩ | ⟨rest, hmiddle, hrest⟩
    · exact absurd he (hclosing past)
    · cases rest with
      | nil => exact absurd hrest.symm (hclosing [])
      | cons e rest =>
        obtain ⟨rfl, -⟩ := List.cons.inj hrest
        exact absurd (hmiddle ▸ List.mem_append_right _ List.mem_cons_self) hhash
  · have hlength : before.length < 20 := by
      have hopen := congrArg List.length hopening
      have hlen : (opening kind.word).length = 19 := by cases kind <;> rfl
      rw [List.length_append] at hopen
      omega
    have hstart : start <+: (opening kind.word).drop before.length ++ [d] ∨
        (opening kind.word).drop before.length ++ [d] <+: start := by
      have hone : part ++ [d] <+: start ++ after :=
        ⟨middle ++ closing kind.word, by rw [hpart]; simp⟩
      rw [hopening, List.drop_left]
      exact List.prefix_or_prefix_of_prefix (List.prefix_append ..) hone
    have hall : ∀ i < 20, start <+: (opening kind.word).drop i ++ [d] ∨
        (opening kind.word).drop i ++ [d] <+: start →
          (opening kind.word).take i = "__##" ++ kind.word := by
      have hd : d ∈ serial kind.word content := hserial ▸ List.mem_cons_self
      exact forall_mem_serial (p := fun d => ∀ i < 20, start <+: (opening kind.word).drop i ++ [d] ∨
        (opening kind.word).drop i ++ [d] <+: start →
          (opening kind.word).take i = "__##" ++ kind.word) (by cases kind <;> decide) _ _ d hd
    rw [← hall _ hlength hstart, hopening, List.take_left]

/-- Around a marker, what openings end with stands before it, in its own opening or after it. -/
theorem start_cases {gap rest : Text}
    (h : gap ++ (encode kind content ++ rest) = before ++ ("##START##" ++ after)) :
    ("##START##" : Text) <:+: gap ∨ before = gap ++ ("__##" ++ kind.word) ∨
      ∃ part, before = gap ++ (encode kind content ++ part) ∧
        rest = part ++ ("##START##" ++ after) := by
  let start : Text := "##START##"
  have hgap : ∀ c ∈ gap.getLast?, ∀ d ∈ (encode kind content ++ rest).head?,
      c ∉ start ∨ d ∉ start := by
    obtain ⟨inner, hinner⟩ := exists_encode_eq kind content
    rw [hinner]
    rintro c - d ⟨⟩
    exact .inr (by decide)
  have hrest : ∀ c ∈ (encode kind content).getLast?, ∀ d ∈ rest.head?, c ∉ start ∨ d ∉ start := by
    rw [getLast?_encode]
    rintro c ⟨⟩ d -
    exact .inl (by decide)
  rcases Text.eq_append_of_seam (by decide) hgap h with ⟨part, rfl, -⟩ | ⟨part, rfl, he⟩
  · exact .inl (List.infix_append' before start part)
  · rcases Text.eq_append_of_seam (by decide) hrest he with ⟨part', hencode, -⟩ | ⟨part', rfl, ha⟩
    · exact .inr (.inl (by rw [eq_of_start hencode]))
    · exact .inr (.inr ⟨part', rfl, ha⟩)

/-- A seam lies in what stands before a marker or in what follows it, for it goes through none. -/
theorem seam_cases {gap rest : Text} (hs : Seam before after)
    (h : before ++ after = gap ++ (encode kind content ++ rest)) :
    (∃ part, gap = before ++ part ∧ after = part ++ (encode kind content ++ rest)) ∨
      ∃ part, before = gap ++ (encode kind content ++ part) ∧ rest = part ++ after ∧
        Seam part after := by
  rcases List.append_eq_append_iff.1 h with hbefore | ⟨part, rfl, hrest⟩
  · exact .inl hbefore
  rcases List.append_eq_append_iff.1 hrest with ⟨later, rfl, hlater⟩ | ⟨later, he, rfl⟩
  · refine .inr ⟨later, rfl, hlater, fun c hc => hs c ?_⟩
    rw [List.getLast?_append, List.getLast?_append, hc]
    rfl
  · rcases List.eq_nil_or_concat' part with rfl | ⟨part, c, rfl⟩
    · exact .inl ⟨[], by rw [List.append_nil, List.append_nil], by rw [he]; rfl⟩
    · cases later with
      | nil =>
        rw [List.append_nil] at he
        exact .inr ⟨[], by rw [List.append_nil, he], rfl, nofun⟩
      | cons d later =>
        have hin : c ∈ encode kind content ∧ d ∈ encode kind content := by
          rw [he]
          simp
        rcases hs c (by simp) d (by simp) with hc | hd
        · exact absurd hc (not_isForeign_of_mem hin.1)
        · exact absurd hd (not_isForeign_of_mem hin.2)

namespace Marked

variable {core : Core} {Holds : Marker → Text → Prop} {rest gap payload : Text}

theorem mono {core' : Core} {Holds' : Marker → Text → Prop} (h : Marked core Holds text)
    (hc : core.text <:+: core'.text)
    (hh : ∀ kind content, Holds kind content → Holds' kind content) :
    Marked core' Holds' text := by
  have hplain {text : Text} (h : core.Plain text) : core'.Plain text := by
    intro hi
    exact h (hc.trans hi)
  induction h with
  | plain h => exact .plain (hplain h)
  | marker h holds _ ih => exact .marker (hplain h) (hh _ _ holds) ih

theorem append_encode (hb : Marked core Holds before) (hk : Holds kind content)
    (ha : Marked core Holds after) :
    Marked core Holds (before ++ (encode kind content ++ after)) := by
  induction hb with
  | plain h => exact .marker h hk ha
  | marker h holds _ ih =>
    rw [List.append_assoc, List.append_assoc]
    exact .marker h holds ih

theorem append_of_not_mem (hb : Marked core Holds before) (ha : Marked core Holds after)
    (h : ∀ c ∈ before.getLast?, ∀ d ∈ after.head?, c ∉ core.text ∨ d ∉ core.text) :
    Marked core Holds (before ++ after) := by
  induction hb with
  | @plain before hb =>
    cases ha with
    | plain ha => exact .plain (Core.plain_append hb ha h)
    | @marker gap content rest kind hg holds more =>
      rw [← List.append_assoc]
      apply Marked.marker _ holds more
      cases gap with
      | nil => rwa [List.append_nil]
      | cons d gap => exact Core.plain_append hb hg h
  | @marker gap content rest kind hg holds more ih =>
    rw [List.append_assoc, List.append_assoc]
    apply Marked.marker hg holds
    apply ih
    intro c hc d hd
    apply h c _ d hd
    rw [List.getLast?_append, List.getLast?_append, hc]
    rfl

theorem append (hb : Marked core Holds before) (ha : Marked core Holds after)
    (h : Seam before after) : Marked core Holds (before ++ after) := by
  apply hb.append_of_not_mem ha
  intro c hc d hd
  exact (h c hc d hd).imp core.not_mem_of_isForeign core.not_mem_of_isForeign

theorem of_append (h : Marked core Holds (before ++ after)) (hs : Seam before after) :
    Marked core Holds before ∧ Marked core Holds after := by
  generalize ht : before ++ after = text at h
  induction h generalizing before with
  | plain h =>
    subst ht
    exact ⟨.plain (h.of_infix (List.prefix_append ..).isInfix),
      .plain (h.of_infix (List.suffix_append ..).isInfix)⟩
  | @marker gap content rest kind hg holds more ih =>
    rcases seam_cases hs ht with ⟨part, rfl, rfl⟩ | ⟨part, rfl, rfl, hseam⟩
    · exact ⟨.plain (hg.of_infix (List.prefix_append ..).isInfix),
        .marker (hg.of_infix (List.suffix_append ..).isInfix) holds more⟩
    · obtain ⟨hpart, hafter⟩ := ih hseam rfl
      exact ⟨.marker hg holds hpart, hafter⟩

theorem of_infix (h : Marked core Holds (before ++ (text ++ after)))
    (hb : Seam before (text ++ after))
    (ha : Seam text after) : Marked core Holds text :=
  ((h.of_append hb).2.of_append ha).1

/-- A lead in which no marker begins, not at its end either, is cut off cleanly. -/
theorem of_lead (h : Marked core Holds (before ++ after)) (hh : ¬ ("_#" : Text) <:+: before)
    (hl : before.getLast? ≠ some '_') : Marked core Holds after := by
  generalize ht : before ++ after = text at h
  cases h with
  | plain h =>
    subst ht
    exact .plain (h.of_infix (List.suffix_append ..).isInfix)
  | @marker gap content rest kind hg holds more =>
    rcases List.append_eq_append_iff.1 ht with ⟨part, rfl, rfl⟩ | ⟨part, rfl, hrest⟩
    · exact .marker (hg.of_infix (List.suffix_append ..).isInfix) holds more
    · have hpart : part = [] := by
        obtain ⟨inner, hinner⟩ := exists_encode_eq kind content
        rw [hinner] at hrest
        cases part with
        | nil => rfl
        | cons a part =>
          obtain ⟨rfl, h₁⟩ := List.cons.inj hrest
          cases part with
          | nil => exact absurd List.getLast?_concat hl
          | cons b part =>
            obtain ⟨rfl, h₂⟩ := List.cons.inj h₁
            cases part with
            | nil => exact absurd (by simp) hl
            | cons c part =>
              obtain ⟨rfl, -⟩ := List.cons.inj h₂
              exact absurd ⟨gap ++ ['_'], part, by simp⟩ hh
      subst hpart
      rw [List.nil_append] at hrest
      rw [← hrest]
      exact append_encode (.plain (hg.of_infix List.nil_infix)) holds more

theorem exists_marker (h : Marked core Holds text) (ht : text = before ++ ("##START##" ++ after)) :
    ∃ gap kind content rest, before = gap ++ ("__##" ++ kind.word) ∧
      text = gap ++ (encode kind content ++ rest) ∧ Holds kind content ∧
      Marked core Holds gap ∧ Marked core Holds rest := by
  let start : Text := "##START##"
  induction h generalizing before after with
  | plain h =>
    rw [ht] at h
    exact absurd (core.part.trans (List.infix_append' before start after)) h
  | @marker gap content rest kind hg holds more ih =>
    rcases start_cases ht with hin | hb | ⟨part, hb, he⟩
    · exact absurd (core.part.trans hin) hg
    · exact ⟨gap, kind, content, rest, hb, rfl, holds, .plain hg, more⟩
    · obtain ⟨gap', kind', content', rest', hb', he, holds', hgap, hrest'⟩ := ih he
      refine ⟨gap ++ (encode kind content ++ gap'), kind', content', rest', ?_, ?_, holds', ?_,
        hrest'⟩
      · simp only [hb, hb', List.append_assoc]
      · simp only [he, List.append_assoc]
      · exact .marker hg holds hgap

theorem exists_of_opening (h : Marked core Holds (before ++ (opening kind.word ++ after))) :
    ∃ content rest, opening kind.word ++ after = encode kind content ++ rest ∧ Holds kind content ∧
      Marked core Holds before ∧ Marked core Holds rest := by
  have hsplit : before ++ (opening kind.word ++ after) =
      (before ++ ("__##" ++ kind.word)) ++ ("##START##" ++ after) := by
    simp only [opening, List.append_assoc]
  obtain ⟨gap, kind', content, rest, hb, ht, holds, hgap, hrest⟩ := h.exists_marker hsplit
  have hlength (kind : Marker) : kind.word.length = 6 := by
    cases kind <;> rfl
  obtain ⟨rfl, hword⟩ := List.append_inj' hb (by simp [hlength])
  obtain rfl := word_injective (List.append_cancel_left hword)
  exact ⟨content, rest, List.append_cancel_left ht, holds, hgap, hrest⟩

theorem not_opening_infix (h : Marked core Holds text) (hk : ∀ content, ¬ Holds kind content) :
    ¬ opening kind.word <:+: text := by
  rintro ⟨before, after, rfl⟩
  rw [List.append_assoc] at h
  obtain ⟨content, -, -, holds, -⟩ := h.exists_of_opening
  exact hk content holds

theorem exists_of_read? (h : Marked core Holds (gap ++ text))
    (hr : read? kind text = some (payload, rest)) :
    ∃ content after, text = encode kind content ++ after ∧ Holds kind content ∧
      Marked core Holds gap ∧ Marked core Holds after := by
  obtain ⟨digits, -, -, -, rfl⟩ := spells_of_read? hr
  simp only [List.append_assoc] at h ⊢
  exact h.exists_of_opening

end Marked

end Marker

end ThemeMarkup
