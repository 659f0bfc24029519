import ThemeMarkup.Proofs.Edits
import ThemeMarkup.Proofs.Location
import ThemeMarkup.Proofs.Marked.Routine

namespace ThemeMarkup

open Text (Occurs Unmarked)

/-- The offset, before spans of a text were replaced, of the character that stands at an offset
after it: none if it is part of what a span was replaced by. The text begins at `start`. -/
def Text.origin? (start : Nat) : List (Span × Text) → Nat → Option Nat
  | [], i => some (start + i)
  | (span, new) :: edits, i =>
    let kept := span.first.toNat - start
    if i < kept then some (start + i)
    else if i < kept + new.length then none
    else origin? (span.last + 1).toNat edits (i - (kept + new.length))

/-- Text that can take the place of a span without hiding any part of a needle: it has no braces, it
does not lie in the needle, and it shows that it was put there. -/
structure Text.Hides (needle new : Text) : Prop where
  left : '\x7b' ∉ new
  right : '\x7d' ∉ new
  apart : ¬ new <:+: needle
  marked : ¬ Unmarked new

/-- The origins of the characters of a text `out` in a text that begins at `start`. -/
structure Traces (needle : Text) (start : Nat) (text out : Text) (origin : Nat → Option Nat) :
    Prop where
  le : ∀ {i a}, origin i = some a → start ≤ a
  mono : ∀ {i j a b}, origin i = some a → origin j = some b → i < j → a < b
  next : ∀ {i j a}, origin i = some a → origin j = some (a + 1) → j = i + 1
  char : ∀ {i a}, origin i = some a → out[i]? = text[a - start]?
  whole : ∀ {i}, Occurs needle out i → ∃ a, ∀ k < needle.length, origin (i + k) = some (a + k)
  same : Unmarked out → out = text ∧ ∀ i, origin i = some (start + i)

namespace Traces

variable {needle text out source rest new gap : Text} {start : Nat} {origin : Nat → Option Nat}

theorem refl (needle : Text) (start : Nat) (text : Text) :
    Traces needle start text text fun i => some (start + i) where
  le := by
    rintro i a ⟨⟩
    exact Nat.le_add_right ..
  mono := by
    rintro i j a b ⟨⟩ ⟨⟩ h
    exact Nat.add_lt_add_left h start
  next := by
    rintro i j a ⟨⟩ h
    have he := Option.some.inj h
    omega
  char := by
    rintro i a ⟨⟩
    rw [Nat.add_sub_cancel_left]
  whole := by
    intro i _
    exact ⟨start + i, fun k _ => by rw [Nat.add_assoc]⟩
  same := fun _ => ⟨rfl, fun _ => rfl⟩

/-- A needle between braces stands before or after text that was put in the place of a span. -/
theorem occurs_cases (hn : needle.IsBraced) (hh : needle.Hides new) {i : Nat}
    (h : Occurs needle (gap ++ (new ++ rest)) i) :
    i + needle.length ≤ gap.length ∨
      ∃ j, i = gap.length + new.length + j ∧ Occurs needle rest j := by
  have hpos := List.length_pos_iff.2 hn.ne_nil
  have hmem {k : Nat} {c : Char} (hk : k < needle.length) (hc : needle[k]? = some c)
      (hle : gap.length ≤ i + k) (hlt : i + k < gap.length + new.length) : c ∈ new := by
    have hchar := h.getElem? hk
    rw [hc, List.getElem?_append_right hle, List.getElem?_append_left (by omega)] at hchar
    exact List.mem_of_getElem? hchar
  -- The new text has neither brace, so that the needle does not begin or end in it, and the needle
  -- does not have the new text in it.
  have hfirst : ¬ (gap.length ≤ i ∧ i < gap.length + new.length) := by
    rintro ⟨hle, hlt⟩
    have hhead : needle[0]? = some '\x7b' := by rw [← List.head?_eq_getElem?, hn.first]
    exact hh.left (hmem hpos hhead hle hlt)
  have hlast :
      ¬ (gap.length < i + needle.length ∧ i + needle.length ≤ gap.length + new.length) := by
    rintro ⟨hlt, hle⟩
    have hend : needle[needle.length - 1]? = some '\x7d' := by
      rw [← List.getLast?_eq_getElem?, hn.last]
    exact hh.right (hmem (by omega) hend (by omega) (by omega))
  have hacross : ¬ (i < gap.length ∧ gap.length + new.length < i + needle.length) := by
    rintro ⟨hlt, hle⟩
    rw [Occurs, List.drop_append_of_le_length (by omega), ← List.append_assoc] at h
    have hpre : gap.drop i ++ new <+: needle := by
      apply List.prefix_of_prefix_length_le (List.prefix_append ..) h
      rw [List.length_append, List.length_drop]
      omega
    exact hh.apart ((List.suffix_append ..).isInfix.trans hpre.isInfix)
  by_cases hbefore : i + needle.length ≤ gap.length
  · exact .inl hbefore
  · have hle : gap.length + new.length ≤ i := by omega
    obtain ⟨j, rfl⟩ := Nat.exists_eq_add_of_le hle
    rw [← List.append_assoc, ← List.length_append, Text.occurs_append_add_iff] at h
    exact .inr ⟨j, rfl, h⟩

theorem origin_cons_iff {kept shown i a : Nat} :
    (if i < kept then some (start + i) else if i < kept + shown then none
      else origin (i - (kept + shown))) = some a ↔
      (i < kept ∧ start + i = a) ∨ ∃ j, i = kept + shown + j ∧ origin j = some a := by
  constructor
  · intro h
    split at h
    · next hi => exact .inl ⟨hi, Option.some.inj h⟩
    · split at h
      · contradiction
      · exact .inr ⟨_, by omega, h⟩
  · rintro (⟨hi, rfl⟩ | ⟨j, rfl, hj⟩)
    · rw [if_pos hi]
    · rw [if_neg (by omega), if_neg (by omega), Nat.add_sub_cancel_left, hj]

theorem cons (hn : needle.IsBraced) (hh : needle.Hides new) (hs : source ≠ [])
    (more : Traces needle (start + gap.length + source.length) rest out origin) :
    Traces needle start (gap ++ (source ++ rest)) (gap ++ (new ++ out)) fun i =>
      if i < gap.length then some (start + i) else if i < gap.length + new.length then none
      else origin (i - (gap.length + new.length)) where
  le := by
    intro i a h
    rcases origin_cons_iff.1 h with ⟨-, rfl⟩ | ⟨j, -, hj⟩
    · exact Nat.le_add_right ..
    · have hle := more.le hj
      omega
  mono := by
    intro i j a b hi hj hlt
    rcases origin_cons_iff.1 hi with ⟨hkept, rfl⟩ | ⟨i', rfl, hafter⟩
    · rcases origin_cons_iff.1 hj with ⟨-, rfl⟩ | ⟨j', rfl, hafter⟩
      · exact Nat.add_lt_add_left hlt start
      · have hle := more.le hafter
        omega
    · rcases origin_cons_iff.1 hj with ⟨hkept, -⟩ | ⟨j', rfl, hlater⟩
      · omega
      · exact more.mono hafter hlater (Nat.lt_of_add_lt_add_left hlt)
  next := by
    intro i j a hi hj
    have hpos := List.length_pos_iff.2 hs
    rcases origin_cons_iff.1 hi with ⟨hkept, rfl⟩ | ⟨i', rfl, hafter⟩
    · rcases origin_cons_iff.1 hj with ⟨-, he⟩ | ⟨j', rfl, hafter⟩
      · omega
      · have hle := more.le hafter
        omega
    · rcases origin_cons_iff.1 hj with ⟨hkept, he⟩ | ⟨j', rfl, hlater⟩
      · have hle := more.le hafter
        omega
      · rw [more.next hafter hlater]
        exact (Nat.add_assoc ..).symm
  char := by
    intro i a h
    rcases origin_cons_iff.1 h with ⟨hi, rfl⟩ | ⟨j, rfl, hj⟩
    · rw [Nat.add_sub_cancel_left, List.getElem?_append_left hi, List.getElem?_append_left hi]
    · have hle := more.le hj
      have hchar := more.char hj
      rw [← List.append_assoc, ← List.length_append,
        List.getElem?_append_right (Nat.le_add_right ..), Nat.add_sub_cancel_left, hchar,
        ← List.append_assoc, List.getElem?_append_right]
      · congr 1
        rw [List.length_append]
        omega
      · rw [List.length_append]
        omega
  whole := by
    intro i h
    rcases occurs_cases hn hh h with hle | ⟨j, rfl, hj⟩
    · refine ⟨start + i, fun k hk => origin_cons_iff.2 (.inl ⟨by omega, by omega⟩)⟩
    · obtain ⟨a, ha⟩ := more.whole hj
      exact ⟨a, fun k hk => origin_cons_iff.2 (.inr ⟨j + k, by omega, ha k hk⟩)⟩
  same := by
    intro h
    exact absurd (h.of_infix (List.infix_append' gap new out)) hh.marked

theorem occurs_origin (h : Traces needle 0 text out origin) {i a : Nat} (hi : Occurs needle out i)
    (ha : ∀ k < needle.length, origin (i + k) = some (a + k)) : Occurs needle text a := by
  rw [Occurs, List.prefix_iff_getElem?]
  intro k hk
  rw [List.getElem?_drop, ← Nat.sub_zero (a + k), ← h.char (ha k hk), hi.getElem? hk,
    List.getElem?_eq_getElem hk]

theorem comp {first last : Text} {before after : Nat → Option Nat}
    (hb : Traces needle 0 text first before) (ha : Traces needle 0 first last after) :
    Traces needle 0 text last fun i => (after i).bind before where
  le := fun _ => Nat.zero_le _
  mono := by
    intro i j a b hi hj hlt
    obtain ⟨i', hi', hia⟩ := Option.bind_eq_some_iff.1 hi
    obtain ⟨j', hj', hjb⟩ := Option.bind_eq_some_iff.1 hj
    exact hb.mono hia hjb (ha.mono hi' hj' hlt)
  next := by
    intro i j a hi hj
    obtain ⟨i', hi', hia⟩ := Option.bind_eq_some_iff.1 hi
    obtain ⟨j', hj', hjb⟩ := Option.bind_eq_some_iff.1 hj
    rw [hb.next hia hjb] at hj'
    exact ha.next hi' hj'
  char := by
    intro i a h
    obtain ⟨i', hi', hia⟩ := Option.bind_eq_some_iff.1 h
    exact (ha.char hi').trans (hb.char hia)
  whole := by
    intro i h
    obtain ⟨first, hfirst⟩ := ha.whole h
    obtain ⟨a, ha'⟩ := hb.whole (ha.occurs_origin h hfirst)
    refine ⟨a, fun k hk => ?_⟩
    rw [hfirst k hk, Option.bind_some, ha' k hk]
  same := by
    intro h
    obtain ⟨rfl, hafter⟩ := ha.same h
    obtain ⟨rfl, hbefore⟩ := hb.same h
    refine ⟨rfl, fun i => ?_⟩
    rw [hafter, Option.bind_some, hbefore, Nat.zero_add, Nat.zero_add]

/-- The copies of a needle that are there after the replacement are those that stood before it and
of which every character is still there. -/
theorem exists_copy_iff (h : Traces needle 0 text out origin) (hn : needle ≠ []) {a : Nat} :
    (∃ i, Occurs needle out i ∧ ∀ k < needle.length, origin (i + k) = some (a + k)) ↔
      Occurs needle text a ∧ ∀ k < needle.length, ∃ j, origin j = some (a + k) := by
  constructor
  · rintro ⟨i, hi, ha⟩
    exact ⟨h.occurs_origin hi ha, fun k hk => ⟨i + k, ha k hk⟩⟩
  · rintro ⟨ha, hkept⟩
    obtain ⟨i, hi⟩ := hkept 0 (List.length_pos_iff.2 hn)
    have hside : ∀ k < needle.length, origin (i + k) = some (a + k) := by
      intro k hk
      induction k with
      | zero => exact hi
      | succ k ih =>
        obtain ⟨j, hj⟩ := hkept (k + 1) hk
        have hnext := h.next (ih (Nat.lt_of_succ_lt hk)) hj
        rw [← Nat.add_assoc, ← hnext, hj]
    refine ⟨i, ?_, hside⟩
    rw [Occurs, List.prefix_iff_getElem?]
    intro k hk
    rw [List.getElem?_drop, h.char (hside k hk), Nat.sub_zero, ha.getElem? hk,
      List.getElem?_eq_getElem hk]

open Classical in
/-- As many copies of a needle precede one of them after the replacement as are still there of those
that preceded it. -/
theorem count_eq_card (h : Traces needle 0 text out origin) (hn : needle ≠ []) {i a : Nat}
    (hi : Occurs needle out i) (ha : ∀ k < needle.length, origin (i + k) = some (a + k)) :
    Nat.count (Occurs needle out) i =
      (((Finset.range a).filter (Occurs needle text)).filter fun b =>
        ∀ k < needle.length, ∃ j, origin j = some (b + k)).card := by
  have hpos := List.length_pos_iff.2 hn
  have hhere : origin i = some a := ha 0 hpos
  have hcopy {j : Nat} (hj : Occurs needle out j) :
      ∃ b, origin j = some b ∧ ∀ k < needle.length, origin (j + k) = some (b + k) := by
    obtain ⟨b, hb⟩ := h.whole hj
    exact ⟨b, hb 0 hpos, hb⟩
  rw [Nat.count_eq_card_filter_range]
  refine Finset.card_nbij (fun j => (origin j).getD 0) ?maps ?injective ?surjective
  case maps =>
    intro j hj
    obtain ⟨hlt, hoccurs⟩ := Finset.mem_filter.1 hj
    obtain ⟨b, hb, hsides⟩ := hcopy hoccurs
    obtain ⟨hstood, hkept⟩ := (h.exists_copy_iff hn).1 ⟨j, hoccurs, hsides⟩
    have hbefore := h.mono hb hhere (Finset.mem_range.1 hlt)
    simp only [hb, Option.getD_some]
    exact Finset.mem_filter.2 ⟨Finset.mem_filter.2 ⟨Finset.mem_range.2 hbefore, hstood⟩, hkept⟩
  case injective =>
    intro j hj j' hj' he
    obtain ⟨b, hb, -⟩ := hcopy (Finset.mem_filter.1 hj).2
    obtain ⟨b', hb', -⟩ := hcopy (Finset.mem_filter.1 hj').2
    simp only [hb, hb', Option.getD_some] at he
    rcases Nat.lt_trichotomy j j' with hlt | rfl | hlt
    · have hmono := h.mono hb hb' hlt
      omega
    · rfl
    · have hmono := h.mono hb' hb hlt
      omega
  case surjective =>
    intro b hb
    obtain ⟨hstood, hkept⟩ := Finset.mem_filter.1 hb
    obtain ⟨hlt, hstood⟩ := Finset.mem_filter.1 hstood
    obtain ⟨j, hoccurs, hsides⟩ := (h.exists_copy_iff hn).2 ⟨hstood, hkept⟩
    have hj : origin j = some b := hsides 0 hpos
    have hbefore : j < i := by
      rcases Nat.lt_trichotomy j i with hlt | rfl | hgt
      · exact hlt
      · rw [hj] at hhere
        exact absurd (Option.some.inj hhere) (Nat.ne_of_lt (Finset.mem_range.1 hlt))
      · exact absurd (h.mono hhere hj hgt) (Nat.lt_asymm (Finset.mem_range.1 hlt))
    refine ⟨j, Finset.mem_filter.2 ⟨Finset.mem_range.2 hbefore, hoccurs⟩, ?_⟩
    simp only [hj, Option.getD_some]

theorem count_le (h : Traces needle 0 text out origin) (hn : needle ≠ []) {i a : Nat}
    (hi : Occurs needle out i) (ha : ∀ k < needle.length, origin (i + k) = some (a + k)) :
    Nat.count (Occurs needle out) i ≤ Nat.count (Occurs needle text) a := by
  classical
  rw [h.count_eq_card hn hi ha, Nat.count_eq_card_filter_range]
  exact Finset.card_filter_le ..

theorem count_eq_iff (h : Traces needle 0 text out origin) (hn : needle ≠ []) {i a : Nat}
    (hi : Occurs needle out i) (ha : ∀ k < needle.length, origin (i + k) = some (a + k)) :
    Nat.count (Occurs needle out) i = Nat.count (Occurs needle text) a ↔
      ∀ b < a, Occurs needle text b → ∀ k < needle.length, ∃ j, origin j = some (b + k) := by
  classical
  rw [h.count_eq_card hn hi ha, Nat.count_eq_card_filter_range]
  rw [Finset.card_filter_eq_iff]
  simp only [Finset.mem_filter, Finset.mem_range, and_imp]

/-- A span that covers a needle is found again at a copy of it, which is where the needle comes from
just if all copies before that are still there. -/
theorem exists_relocate? (h : Traces needle 0 text out origin) (ho : needle.Unbordered)
    {span : Span}
    (hc : span.Covers out needle) {place : Nat}
    (hp : ∀ k < needle.length, origin (span.first.toNat + k) = some (place + k)) :
    ∃ found ≤ place, Occurs needle text found ∧
      span.relocate? out text = some (Span.ofRange text found needle.length) ∧
      (found = place ↔
        ∀ b < place, Occurs needle text b → ∀ k < needle.length, ∃ j, origin j = some (b + k)) := by
  have hn : needle ≠ [] := ho.ne_nil
  have hi : Occurs needle out span.first.toNat := hc.prefix_drop
  have hplace := h.occurs_origin hi hp
  have hcount := h.count_le hn hi hp
  have hthere := Text.getElem?_occurrences ho hplace
  have hlt : Nat.count (Occurs needle out) span.first.toNat <
      (Text.occurrences needle 0 text).length := by
    obtain ⟨hlt, -⟩ := List.getElem?_eq_some_iff.1 hthere
    exact Nat.lt_of_le_of_lt hcount hlt
  obtain ⟨found, hfound⟩ : ∃ found, (Text.occurrences needle 0 text)[
      Nat.count (Occurs needle out) span.first.toNat]? =
      some found := ⟨_, List.getElem?_eq_getElem hlt⟩
  obtain ⟨hoccurs, hsame⟩ := (Text.getElem?_occurrences_iff ho).1 hfound
  refine ⟨found, ?_, hoccurs, ?_, ?_⟩
  · by_contra hgt
    have hless := Nat.count_strict_mono hplace (Nat.lt_of_not_le hgt)
    omega
  · rw [hc.relocate?_eq ho, hfound]
    rfl
  · rw [← h.count_eq_iff hn hi hp, ← hsame]
    constructor
    · rintro rfl
      rfl
    · intro he
      rw [← hsame, he, hthere] at hfound
      exact (Option.some.inj hfound).symm

/-- Where an error about a needle is shown: at a copy of it, in a text without markers that was not
replaced at all or else as the one before says. -/
theorem exists_found (h : Traces needle 0 text out origin) (hu : Unmarked text)
    (ho : needle.Unbordered)
    {span : Span} (hc : span.Covers out needle) {place : Nat}
    (hp : ∀ k < needle.length, origin (span.first.toNat + k) = some (place + k)) :
    ∃ found ≤ place, Occurs needle text found ∧
      (if out = text then span else (span.relocate? out text).getD span) =
        Span.ofRange text found needle.length ∧
      (found = place ↔
        ∀ b < place, Occurs needle text b → ∀ k < needle.length, ∃ j, origin j = some (b + k)) := by
  by_cases hsame : out = text
  · subst hsame
    obtain ⟨-, horigin⟩ := h.same hu
    have hfirst : place = span.first.toNat := by
      have hhere := hp 0 (List.length_pos_iff.2 ho.ne_nil)
      rw [horigin, Nat.zero_add, Nat.add_zero] at hhere
      exact (Option.some.inj hhere).symm
    have hrange : span = Span.ofRange out place needle.length := by
      obtain ⟨first, hrange, -, -⟩ := hc
      rw [hfirst, hrange]
      rfl
    refine ⟨place, Nat.le_refl _, h.occurs_origin hc.prefix_drop hp, ?_, ?_⟩
    · rw [if_pos rfl, ← hrange]
    · constructor
      · intro _ b _ _ k _
        exact ⟨b + k, by rw [horigin, Nat.zero_add]⟩
      · intro _
        rfl
  · obtain ⟨found, hle, hfound, hrelocate, hiff⟩ := h.exists_relocate? ho hc hp
    refine ⟨found, hle, hfound, ?_, hiff⟩
    rw [if_neg hsame, hrelocate, Option.getD_some]

end Traces

section

variable {α : Type} {read : Text → Option (α × Text)} {Makes : α → Text → Prop} {needle text : Text}

/-- The origins after the spans of finds were replaced by what no part of a needle lies in. -/
theorem Found.Scans.traces {offset : Nat} {finds : List (Found α)}
    (h : Scans read offset text finds)
    (hn : needle.IsBraced) (full : Text) {contents : List Text}
    (hc : List.Forall₂ (fun _ new => needle.Hides new) finds contents) :
    Traces needle offset text (Text.splice offset text ((finds.map (·.span full)).zip contents))
      (Text.origin? offset ((finds.map (·.span full)).zip contents)) := by
  induction h generalizing contents with
  | @done offset text hs =>
    cases hc
    exact .refl needle offset text
  | @find offset source rest value finds gap hs hne hr _ ih =>
    cases hc with
    | @cons _ new _ contents hnew hcontents =>
      let found : Found α := ⟨offset + gap.length, source, value⟩
      let edits := (finds.map (·.span full)).zip contents
      have hfirst : (found.span full).first = (offset : Int) + gap.length := Int.natCast_add ..
      have hlast :
          (found.span full).last + 1 = ((offset + gap.length + source.length : Nat) : Int) :=
        (last_span hne full).trans (Int.natCast_add ..).symm
      have hsplice : Text.splice offset (gap ++ source ++ rest) ((found.span full, new) :: edits) =
          gap ++ (new ++ Text.splice (offset + gap.length + source.length : Nat) rest edits) := by
        have hlength :
            (found.span full).last + 1 = (offset : Int) + gap.length + source.length := by
          omega
        rw [List.append_assoc, Text.splice_append, Text.splice_here hfirst hlength]
        · rw [Int.natCast_add, Int.natCast_add]
        · rintro _ ⟨⟩
          constructor <;> dsimp only <;> omega
      have horigin : Text.origin? offset ((found.span full, new) :: edits) = fun i =>
          if i < gap.length then some (offset + i) else if i < gap.length + new.length then none
          else Text.origin? (offset + gap.length + source.length) edits
            (i - (gap.length + new.length)) := by
        funext i
        have hkept : (found.span full).first.toNat - offset = gap.length := by omega
        rw [Text.origin?]
        rw [hkept, hlast, Int.toNat_natCast]
      change Traces needle offset (gap ++ source ++ rest)
        (Text.splice offset (gap ++ source ++ rest) ((found.span full, new) :: edits))
        (Text.origin? offset ((found.span full, new) :: edits))
      rw [hsplice, horigin, List.append_assoc]
      exact .cons hn hnew hne (ih hcontents)

theorem Engine.Replaces.traces {engine : Engine} {pass : Pass} (h : engine.Replaces pass read Makes)
    (hr : Found.Steady read) (hn : needle.IsBraced) (text : Text)
    (hm : ∀ found ∈ Found.scan read text, ∃ new, Makes found.value new ∧ needle.Hides new) :
    ∃ edits, engine.edits pass text = .ok edits ∧
      Traces needle 0 text (Text.splice 0 text edits) (Text.origin? 0 edits) := by
  obtain ⟨contents, hcontents⟩ := exists_forall₂ hm
  have hmake :
      List.Forall₂ (fun found new => Makes found.value new) (Found.scan read text) contents :=
    hcontents.imp fun _ _ h => h.1
  have hhide : List.Forall₂ (fun _ new => needle.Hides new) (Found.scan read text) contents :=
    hcontents.imp fun _ _ h => h.2
  exact ⟨_, h.edits_eq hmake, (hr.scans_scanFrom 0 text).traces hn text hhide⟩

end

end ThemeMarkup
