import ThemeMarkup.Proofs.Marked.Place
import ThemeMarkup.Proofs.Twin.Routine
import ThemeMarkup.Proofs.Twin.Tag

namespace ThemeMarkup

open Found (Edits Silent)
open Marker (Core Decides Kin LiteralOnly Marked Plainness Protected Twin encode flipped)

variable {literal literal' text text' before after out : Text} {suffix : Text} {strict : Bool}

namespace Marker

def Swaps (literal literal' : Text) : Marker → Text → Text → Prop
  | .literal, content, content' => content = literal ∧ content' = literal'
  | .code, _, _ => False

theorem decides_swaps (literal literal' : Text) :
    Decides (Swaps literal literal') ∧ Decides (flipped (Swaps literal literal')) := by
  constructor
  · refine ⟨fun {kind} content content' content'' h h' => ?_⟩
    cases kind with
    | code => contradiction
    | literal => exact h.2.trans h'.2.symm
  · refine ⟨fun {kind} content content' content'' h h' => ?_⟩
    cases kind with
    | code => contradiction
    | literal => exact h.1.trans h'.1.symm

variable {core : Core} {kind : Marker} {content content' : Text}

theorem literalOnly_of_swaps (h : Swaps literal literal' kind content content') :
    LiteralOnly (· = literal) kind content ∧ LiteralOnly (· = literal') kind content' := by
  cases kind with
  | code => contradiction
  | literal => exact h

theorem swaps_of_literalOnly (h : LiteralOnly (· = literal) kind content)
    (h' : LiteralOnly (· = literal') kind content') :
    Swaps literal literal' kind content content' := by
  cases kind with
  | code => contradiction
  | literal => exact ⟨h, h'⟩

theorem Core.Plain.silent (h : core.Plain text) (kind : Marker) :
    Silent (read? kind) text.length (text ++ []) := by
  have hstart : ("##START##" : Text) <:+: opening kind.word := by
    cases kind <;> decide
  rw [List.append_nil]
  exact (begins_read? kind).silent_of_absent fun hi => h ((core.part.trans hstart).trans hi)

end Marker

namespace Literal

variable {tag rest : Text}

theorem lead_of_spells (h : TagPart.Spells (opening .usual) tag) :
    ("tagself" : Text) <:+: tag.map Text.lowerAscii ∧ ∃ rest, tag = '\x7b' :: rest ∧
    '\x7b' ∉ rest := by
  cases h with
  | @literal _ written text _ same more =>
    obtain rfl := Delimiters.eq_left_of_alike same
    constructor
    · cases more with
      | @blanks blanks _ _ _ more =>
        cases more with
        | @literal _ name text _ same' _ =>
          have hname : name.map Text.lowerAscii = "tagself" := same'
          rw [← hname, ← List.append_assoc]
          exact (List.infix_append' _ name text).map Text.lowerAscii
    · refine ⟨'%' :: text, rfl, ?_⟩
      rw [List.mem_cons, not_or]
      exact ⟨by decide, more.not_mem (by decide) (by decide)⟩

/-- No literal span begins in text without the name of its tags, not where a brace follows the text
either. -/
theorem silent_of_not_infix (h : ¬ ("tagself" : Text) <:+: text.map Text.lowerAscii)
    (hr : ∀ c ∈ rest.head?, c = '\x7b') : Silent (read? .usual) text.length (text ++ rest) := by
  intro i hi
  cases hread : read? .usual ((text ++ rest).drop i) with
  | none => rfl
  | some found =>
    obtain ⟨tag, closer, htag, -, -, he⟩ := spells_of_read? hread
    obtain ⟨hname, inner, rfl, hinner⟩ := lead_of_spells htag
    rw [List.drop_append_of_le_length (Nat.le_of_lt hi), List.append_assoc, List.append_assoc] at he
    rcases List.append_eq_append_iff.1 he with ⟨gap, hgap, hrest⟩ | ⟨gap, hgap, -⟩
    · cases gap with
      | nil =>
        rw [List.append_nil] at hgap
        exact absurd (hname.trans (hgap ▸ ((List.drop_suffix i text).isInfix.map Text.lowerAscii)))
          h
      | cons d gap =>
        have hd : d = '\x7b' := hr d (by rw [hrest]; rfl)
        obtain ⟨e, first, hfirst⟩ := List.exists_cons_of_ne_nil
          (List.ne_nil_of_length_pos (l := text.drop i) (by rw [List.length_drop]; omega))
        rw [hfirst] at hgap
        refine absurd ?_ hinner
        rw [(List.cons.inj hgap).2, hd]
        exact List.mem_append_right _ List.mem_cons_self
    · have hpart := (List.infix_append [] ('\x7b' :: inner) gap).trans
        (hgap ▸ (List.drop_suffix i text).isInfix)
      exact absurd (hname.trans (hpart.map Text.lowerAscii)) h

end Literal

variable [Marker.Serials]

namespace Marker

/-- Whether markers hold the two literals, or outputs of code tags that differ in these. -/
def Guards (p : Plainness) (literal literal' : Text) : Marker → Text → Text → Prop
  | .literal, content, content' => content = literal ∧ content' = literal'
  | .code, content, content' => Twin p (Swaps literal literal') content content' ∧ content.IsBraced

theorem decides_guards (core : Core) (literal literal' : Text) :
    Decides (Guards core.plainness literal literal') ∧
      Decides (flipped (Guards core.plainness literal literal')) := by
  obtain ⟨hd, hd'⟩ := decides_swaps literal literal'
  constructor
  · refine ⟨fun {kind} content content' content'' h h' => ?_⟩
    cases kind with
    | code => exact h.1.unique hd h'.1
    | literal => exact h.2.trans h'.2.symm
  · refine ⟨fun {kind} content content' content'' h h' => ?_⟩
    cases kind with
    | code => exact h.1.flip.unique hd' h'.1.flip
    | literal => exact h.1.trans h'.1.symm

section Pairs

variable {core : Core} {p q : Plainness} {kind : Marker} {content content' : Text}

theorem Twin.marked_swaps (h : Twin core.plainness (Swaps literal literal') text text') :
    Marked core (LiteralOnly (· = literal)) text ∧ Marked core (LiteralOnly (· = literal')) text' :=
  ⟨h.left.mono List.infix_rfl fun _ _ hpair => (literalOnly_of_swaps hpair.choose_spec).1,
    h.flip.left.mono List.infix_rfl fun _ _ hpair => (literalOnly_of_swaps hpair.choose_spec).2⟩

theorem Twin.tighten_swaps (h : Twin p (Swaps literal literal') text text')
    (hm : Marked core (LiteralOnly (· = literal)) text)
    (hm' : Marked core (LiteralOnly (· = literal')) text') :
    Twin core.plainness (Swaps literal literal') text text' :=
  h.tighten hm hm' swaps_of_literalOnly fun hpair _ _ => hpair

theorem protected_of_guards
    (h : Guards Core.start.plainness literal literal' kind content content') :
    Protected (· = literal) kind content ∧ Protected (· = literal') kind content' := by
  cases kind with
  | code =>
    obtain ⟨htwin, hbraced⟩ := h
    exact ⟨⟨htwin.marked_swaps.1, hbraced⟩, ⟨htwin.marked_swaps.2, htwin.isBraced hbraced⟩⟩
  | literal => exact h

theorem Twin.marked_guards
    (h : Twin core.plainness (Guards Core.start.plainness literal literal') text text') :
    Marked core (Protected (· = literal)) text ∧ Marked core (Protected (· = literal')) text' :=
  ⟨h.left.mono List.infix_rfl fun _ _ hpair => (protected_of_guards hpair.choose_spec).1,
    h.flip.left.mono List.infix_rfl fun _ _ hpair => (protected_of_guards hpair.choose_spec).2⟩

theorem Twin.tighten_guards (h : Twin p (Guards q literal literal') text text')
    (hm : Marked core (Protected (· = literal)) text)
    (hm' : Marked core (Protected (· = literal')) text') :
    Twin core.plainness (Guards Core.start.plainness literal literal') text text' := by
  apply h.tighten hm hm'
  · intro kind content holds holds'
    cases kind with
    | code => exact ⟨holds.1.twin holds'.1 swaps_of_literalOnly, holds.2⟩
    | literal => exact ⟨holds, holds'⟩
  · intro kind content content' pair holds holds'
    cases kind with
    | code => exact ⟨pair.1.tighten_swaps holds.1 holds'.1, holds.2⟩
    | literal => exact pair

end Pairs

section Reading

variable {core : Core} {Holds : Marker → Text → Prop} {kind other : Marker}
  {content gap rest : Text}

theorem Marked.read?_eq_none (hg : core.Plain gap) (hc : Holds kind content)
    (hr : Marked core Holds rest)
    {i : Nat} (hi : i < (gap ++ encode kind content).length) (hne : i = gap.length → other ≠ kind) :
    read? other ((gap ++ (encode kind content ++ rest)).drop i) = none := by
  let text := gap ++ (encode kind content ++ rest)
  have hlength : (gap ++ encode kind content).length ≤ text.length := by
    simp only [text, List.length_append]
    omega
  cases hread : read? other (text.drop i) with
  | none => rfl
  | some found =>
    have hmarked : Marked core Holds (text.take i ++ text.drop i) := by
      rw [List.take_append_drop]
      exact .marker hg hc hr
    obtain ⟨content', later, he, -⟩ := hmarked.exists_of_read? hread
    have hsplit : text = text.take i ++ (encode other content' ++ later) := by
      rw [← he, List.take_append_drop]
    have htake : (text.take i).length = i := by
      rw [List.length_take]
      omega
    rcases Marked.apart hg hr hsplit with ⟨hgap, hkind, -⟩ | ⟨middle, hmiddle, -⟩
    · exact absurd hkind (hne (by rw [← hgap, htake]))
    · rw [hmiddle] at htake
      simp only [List.length_append] at htake hi
      omega

theorem Marked.silent_gap (hg : core.Plain gap) (hc : Holds kind content)
    (hr : Marked core Holds rest)
    (other : Marker) : Silent (read? other) gap.length (gap ++ (encode kind content ++ rest)) := by
  intro i hi
  apply Marked.read?_eq_none hg hc hr
  · rw [List.length_append]
    omega
  · omega

theorem Marked.silent_marker (hg : core.Plain gap) (hc : Holds kind content)
    (hr : Marked core Holds rest)
    (hne : other ≠ kind) :
    Silent (read? other) (gap ++ encode kind content).length
    ((gap ++ encode kind content) ++ rest) := by
  intro i hi
  rw [List.append_assoc]
  exact Marked.read?_eq_none hg hc hr hi fun _ => hne

end Reading

/-- Each marker of a kind in two twins gives its place to what is shown for it, and what comes out
is related if what is kept and what is shown are. -/
theorem exists_twin_shown {Pair : Marker → Text → Text → Prop} {Related : Text → Text → Prop}
    {Makes : Text → Text → Prop} (kind : Marker) (shown : Text → Text)
    (h : Twin Core.start.plainness Pair text text')
    (hne : ∀ {content content'}, Pair kind content content' → content ≠ [] ∧ content' ≠ [])
    (hmakes : ∀ content, Makes (payloadOf content) (shown content)) (hnil : Related [] [])
    (hgap : ∀ gap {out out'}, Related out out' → Related (gap ++ out) (gap ++ out'))
    (hkeep : ∀ {other content content' out out'}, Pair other content content' → other ≠ kind →
      Related out out' → Related (encode other content ++ out) (encode other content' ++ out'))
    (hshow : ∀ {content content' out out'}, Pair kind content content' → Related out out' →
      Related (shown content ++ out) (shown content' ++ out')) :
    ∃ out out', Edits (read? kind) Makes text out ∧ Edits (read? kind) Makes text' out' ∧
      Related out out' := by
  induction h with
  | @plain text h =>
    have hkept : Edits (read? kind) Makes (text ++ []) (text ++ []) := .keep (h.silent kind) .nil
    have hrelated := hgap text hnil
    rw [List.append_nil] at hkept hrelated
    exact ⟨text, text, hkept, hkept, hrelated⟩
  | @marker gap content content' rest rest' other hg pair more ih =>
    obtain ⟨out, out', hout, hout', hrelated⟩ := ih
    have hleft : ∃ content', Pair other content content' := ⟨content', pair⟩
    have hright : ∃ content, flipped Pair other content' content := ⟨content, pair⟩
    by_cases hk : other = kind
    · subst hk
      obtain ⟨hne, hne'⟩ := hne pair
      exact ⟨gap ++ (shown content ++ out), gap ++ (shown content' ++ out'),
        .keep (Marked.silent_gap hg hleft more.left other)
          (.find (encode_ne_nil _ _) (read?_encode other hne rest) (hmakes content) hout),
        .keep (Marked.silent_gap hg hright more.flip.left other)
          (.find (encode_ne_nil _ _) (read?_encode other hne' rest') (hmakes content') hout'),
        hgap gap (hshow pair hrelated)⟩
    · have hkept := Edits.keep (Marked.silent_marker hg hleft more.left (Ne.symm hk)) hout
      have hkept' := Edits.keep (Marked.silent_marker hg hright more.flip.left (Ne.symm hk)) hout'
      rw [List.append_assoc, List.append_assoc] at hkept hkept'
      exact ⟨_, _, hkept, hkept', hgap gap (hkeep pair hk hrelated)⟩

end Marker

open Marker (Guards Swaps)

/-- Text of the target that is kept as it is. -/
def Target.raw (content : Text) : Text :=
  statement "raw" ++ content ++ statement "endraw"

theorem Sigil.twin_meaning {Pair : Marker → Text → Text → Prop} {payload payload' : Text}
    (sigil : Sigil)
    (h : Kin Pair payload payload') :
    Kin Pair (sigil.meaning payload) (sigil.meaning payload') := by
  have hbetween (lead close : Text) {inner inner' : Text} (hi : Kin Pair inner inner') :
      Kin Pair (lead ++ inner ++ close) (lead ++ inner' ++ close) :=
    ((Twin.same lead).append hi).append (Twin.same close)
  cases sigil with
  | value => exact hbetween _ _ h.strip.toTarget
  | echo => exact hbetween _ _ h.strip.toTarget
  | note => exact hbetween _ _ h.strip
  | statement => exact hbetween _ _ h.strip

namespace Engine

/-- The first pass puts a literal into a marker between texts in which no other literal span begins.
-/
theorem runPass_hideLiterals_literalSpan (suffix : Text) (strict : Bool)
    (hb : ¬ ("tagself" : Text) <:+: before.map Text.lowerAscii)
    (ha : ¬ ("tagself" : Text) <:+: after.map Text.lowerAscii) (hl : Text.strip literal ≠ [])
    (he : ¬ Literal.EndsIn literal) :
    (standard suffix strict).runPass .hideLiterals (before ++ (literalSpan literal ++ after)) =
      .ok (before ++ (encode .literal (Text.strip literal) ++ after)) := by
  have hne : literal ≠ [] := by
    rintro rfl
    exact hl rfl
  have happend : literalSpan literal ++ after =
      "\x7b% tagself %\x7d" ++ (literal ++ ("\x7b% :tagself %\x7d" ++ after)) :=
    (List.append_assoc ..).trans (congrArg _ (List.append_assoc ..))
  have hread : Literal.read? .usual (literalSpan literal ++ after) = some (literal, after) := by
    rw [happend]
    exact Literal.read?_written hne he after
  have hbefore :
      Silent (Literal.read? .usual) before.length (before ++ (literalSpan literal ++ after)) := by
    apply Literal.silent_of_not_infix hb
    rintro c ⟨⟩
    rfl
  have hafter : Silent (Literal.read? .usual) after.length (after ++ []) :=
    Literal.silent_of_not_infix ha nofun
  have hkept : Edits (Literal.read? .usual) HidesLiteral (after ++ []) (after ++ []) :=
    .keep hafter .nil
  rw [List.append_nil] at hkept
  exact (replaces_hideLiterals suffix strict).runPass_standard (by decide)
    (.keep hbefore (.find literalSpan_ne_nil hread rfl hkept))

/-- The second pass protects the outputs of code tags in two texts that differ in one literal. -/
theorem exists_twin_guarded (suffix : Text) (strict : Bool)
    (h : Twin Core.hashes.plainness (Swaps literal literal') text text') :
    ∃ out out', (standard suffix strict).runPass .code text = .ok out ∧
      (standard suffix strict).runPass .code text' = .ok out' ∧
      Twin Core.hashes.plainness (Guards Core.start.plainness literal literal') out out' := by
  have hm := Code.mirrors_read? (Swaps literal literal')
  have hscans := hm.steady.scans_scanFrom 0 text
  obtain ⟨out, out', hedits, hedits', htwin⟩ : ∃ out out',
      Edits (Code.read? ({} : DelimiterSet).code Standard.codeNames) ProtectsCode text out ∧
      Edits (Code.read? ({} : DelimiterSet).code Standard.codeNames) ProtectsCode text' out' ∧
      Kin (Guards .any literal literal') out out' := by
    apply hm.exists_edits (Marker.decides_swaps literal literal').1 hscans h
    · intro kind content content' pair
      cases kind with
      | code => contradiction
      | literal => exact pair
    · rintro ⟨name, payload⟩ ⟨name', payload'⟩ ⟨hn, hname, hpayload⟩
      obtain ⟨sigil, hsigil⟩ := Sigil.exists_name hn
      have hpair :
          Guards .any literal literal' .code (sigil.meaning payload) (sigil.meaning payload') :=
        ⟨sigil.twin_meaning hpayload, sigil.isBraced_meaning payload⟩
      exact ⟨_, _, ⟨sigil, hsigil, rfl⟩, ⟨sigil, hname.trans hsigil, rfl⟩, Twin.of_pair hpair⟩
  have hrun := (replaces_code suffix strict).runPass_standard (by decide) hedits
  have hrun' := (replaces_code suffix strict).runPass_standard (by decide) hedits'
  obtain ⟨hmarked, hmarked'⟩ := h.marked_swaps
  obtain ⟨same, hsame, hguarded⟩ := exists_guarded_of_hidden suffix strict hmarked
  obtain ⟨same', hsame', hguarded'⟩ := exists_guarded_of_hidden suffix strict hmarked'
  obtain rfl := Except.ok.inj (hrun.symm.trans hsame)
  obtain rfl := Except.ok.inj (hrun'.symm.trans hsame')
  exact ⟨out, out', hsame, hsame', htwin.tighten_guards hguarded hguarded'⟩

/-- The fourth pass puts back the outputs of code tags. -/
theorem exists_twin_shown_code (suffix : Text) (strict : Bool)
    (h : Twin Core.start.plainness (Guards Core.start.plainness literal literal') text text') :
    ∃ out out', (standard suffix strict).runPass .showCode text = .ok out ∧
      (standard suffix strict).runPass .showCode text' = .ok out' ∧
      Twin Core.start.plainness (Swaps literal literal') out out' := by
  obtain ⟨out, out', hedits, hedits', htwin⟩ : ∃ out out',
      Edits (Marker.read? .code) ShowsCode text out ∧
      Edits (Marker.read? .code) ShowsCode text' out' ∧
      Kin (Swaps literal literal') out out' := by
    apply Marker.exists_twin_shown .code id h
    · intro content content' pair
      exact ⟨pair.2.ne_nil, (pair.1.isBraced pair.2).ne_nil⟩
    · exact Marker.decode_payloadOf
    · exact Twin.same []
    · intro gap out out' hout
      exact (Twin.same gap).append hout
    · intro other content content' out out' pair hne hout
      cases other with
      | code => exact absurd rfl hne
      | literal =>
        have hswaps : Swaps literal literal' .literal content content' := pair
        exact (Twin.of_pair hswaps).append hout
    · intro content content' out out' pair hout
      exact pair.1.kin.append hout
  have hrun := (replaces_showCode suffix strict).runPass_standard (by decide) hedits
  have hrun' := (replaces_showCode suffix strict).runPass_standard (by decide) hedits'
  obtain ⟨hmarked, hmarked'⟩ := h.marked_guards
  obtain ⟨same, hsame, hliteral⟩ := exists_shown_code suffix strict hmarked
  obtain ⟨same', hsame', hliteral'⟩ := exists_shown_code suffix strict hmarked'
  obtain rfl := Except.ok.inj (hrun.symm.trans hsame)
  obtain rfl := Except.ok.inj (hrun'.symm.trans hsame')
  exact ⟨out, out', hsame, hsame', htwin.tighten_swaps hliteral hliteral'⟩

/-- The last pass writes the one literal here where it writes the other one there, and the same
between. -/
theorem exists_chunks (suffix : Text) (strict : Bool) (hl : literal ≠ []) (hl' : literal' ≠ [])
    (h : Twin Core.start.plainness (Swaps literal literal') text text') :
    ∃ chunks : List Text,
      (standard suffix strict).runPass .showLiterals text =
        .ok ((Target.raw literal).intercalate chunks) ∧
      (standard suffix strict).runPass .showLiterals text' =
        .ok ((Target.raw literal').intercalate chunks) := by
  obtain ⟨out, out', hedits, hedits', first, rest, rfl, rfl⟩ : ∃ out out',
      Edits (Marker.read? .literal) ShowsLiteral text out ∧
      Edits (Marker.read? .literal) ShowsLiteral text' out' ∧
      ∃ first rest, out = (Target.raw literal).intercalate (first :: rest) ∧
        out' = (Target.raw literal').intercalate (first :: rest) := by
    apply Marker.exists_twin_shown .literal Target.raw h
    · rintro content content' ⟨rfl, rfl⟩
      exact ⟨hl, hl'⟩
    · exact fun content => ⟨content, Marker.decode_payloadOf content, rfl⟩
    · exact ⟨[], [], List.intercalate_singleton.symm, List.intercalate_singleton.symm⟩
    · rintro gap _ _ ⟨first, rest, rfl, rfl⟩
      have hjoin (part : Text) :
          gap ++ part.intercalate (first :: rest) = part.intercalate ((gap ++ first) :: rest) := by
        cases rest with
        | nil => rw [List.intercalate_singleton, List.intercalate_singleton]
        | cons next rest =>
          rw [List.intercalate_cons_cons, List.intercalate_cons_cons]
          simp only [List.append_assoc]
      exact ⟨gap ++ first, rest, hjoin _, hjoin _⟩
    · intro other content content' out out' pair hne
      cases other with
      | code => contradiction
      | literal => exact absurd rfl hne
    · rintro _ _ _ _ ⟨rfl, rfl⟩ ⟨first, rest, rfl, rfl⟩
      have hjoin (part : Text) :
          part ++ part.intercalate (first :: rest) = part.intercalate ([] :: first :: rest) := by
        rw [List.intercalate_cons_cons, List.nil_append]
      exact ⟨[], first :: rest, hjoin _, hjoin _⟩
  have hshows := replaces_showLiterals suffix strict
  exact ⟨first :: rest, hshows.runPass_standard (by decide) hedits,
    hshows.runPass_standard (by decide) hedits'⟩

end Engine

end ThemeMarkup
