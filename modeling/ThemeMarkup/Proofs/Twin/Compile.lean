import ThemeMarkup.Proofs.Twin.Inclusion

namespace ThemeMarkup

open Inclusion (compile_ofLiteral ofLiteral)
open Marker (Core Guards LiteralOnly Marked Protected Swaps Twin encode)
open Text (Unmarked)

variable {before after literal literal' out : Text} {strict : Bool}

namespace Engine

section

variable [Marker.Serials]

/-- What the first two passes make of templates that differ in one literal. -/
theorem exists_twin_protected (suffix : Text) (strict : Bool) (hb : Unmarked before)
    (ha : Unmarked after)
    (hb' : ¬ ("tagself" : Text) <:+: before.map Text.lowerAscii)
    (ha' : ¬ ("tagself" : Text) <:+: after.map Text.lowerAscii)
    (hl : Text.strip literal ≠ [] ∧ ¬ Literal.EndsIn literal)
    (hl' : Text.strip literal' ≠ [] ∧ ¬ Literal.EndsIn literal') :
    ∃ text text', (standard suffix strict).protect (before ++ (literalSpan literal ++ after)) =
      .ok text ∧
      (standard suffix strict).protect (before ++ (literalSpan literal' ++ after)) = .ok text' ∧
      Twin Core.hashes.plainness
        (Guards Core.start.plainness (Text.strip literal) (Text.strip literal')) text text' := by
  have hswaps : Swaps (Text.strip literal) (Text.strip literal') .literal (Text.strip literal)
      (Text.strip literal') := ⟨rfl, rfl⟩
  have htwin : Twin Core.hashes.plainness (Swaps (Text.strip literal) (Text.strip literal'))
      (before ++ (encode .literal (Text.strip literal) ++ after))
      (before ++ (encode .literal (Text.strip literal') ++ after)) := .marker hb hswaps (.plain ha)
  obtain ⟨text, text', hcode, hcode', hguarded⟩ := exists_twin_guarded suffix strict htwin
  refine ⟨text, text', ?_, ?_, hguarded⟩
  · rw [protect, runPass_hideLiterals_literalSpan suffix strict hb' ha' hl.1 hl.2]
    exact hcode
  · rw [protect, runPass_hideLiterals_literalSpan suffix strict hb' ha' hl'.1 hl'.2]
    exact hcode'

/-- If a template with a literal compiles it compiles with any other literal in its place. The
outputs are the same up to the literal if in both the same included files get the suffix. -/
theorem exists_chunks_of_compile (strict : Bool) (file : Option Text)
    (hb : ¬ ("##" : Text) <:+: before ∧ ¬ ("tagself" : Text) <:+: before.map Text.lowerAscii)
    (ha : ¬ ("##" : Text) <:+: after ∧ ¬ ("tagself" : Text) <:+: after.map Text.lowerAscii)
    (hl : Text.strip literal ≠ [] ∧ ¬ Literal.EndsIn literal)
    (hl' : Text.strip literal' ≠ [] ∧ ¬ Literal.EndsIn literal')
    (hc : (standard ".html" strict).compile (before ++ (literalSpan literal ++ after)) file =
      .ok out) :
    let template := before ++ (literalSpan literal ++ after)
    let template' := before ++ (literalSpan literal' ++ after)
    ∃ out', (standard ".html" strict).compile template' file = .ok out' ∧
      ((standard ".html" strict).suffixChoices template' =
        (standard ".html" strict).suffixChoices template →
        ∃ chunks : List Text, out = (Target.raw (Text.strip literal)).intercalate chunks ∧
          out' = (Target.raw (Text.strip literal')).intercalate chunks) := by
  intro template template'
  have hsuffix : Unmarked ".html" := by decide
  obtain ⟨text, text', hp, hp', htwin⟩ :=
    exists_twin_protected ".html" strict hb.1 ha.1 hb.2 ha.2 hl hl'
  obtain ⟨hmarked, hmarked'⟩ := htwin.marked_guards
  obtain ⟨hd, hd'⟩ := Marker.decides_guards .start (Text.strip literal) (Text.strip literal')
  cases hn : (standard ".html" strict).runPass .node text with
  | error e =>
    rw [compile_of_node_error hp hn] at hc
    contradiction
  | ok compiled =>
    obtain ⟨compiled', hn', hnode⟩ := exists_twin_runPass_node hd hd' htwin hn
    have hm : Marked .start (Protected (· = Text.strip literal)) compiled := by
      obtain ⟨tags, -, hmeets⟩ := meets_runPass_node hsuffix strict hmarked
      rwa [hn] at hmeets
    have hm' : Marked .start (Protected (· = Text.strip literal')) compiled' := by
      obtain ⟨tags, -, hmeets⟩ := meets_runPass_node hsuffix strict hmarked'
      rwa [hn'] at hmeets
    obtain ⟨shown, hs, hliteral⟩ := exists_shown_code ".html" strict hm
    obtain ⟨shown', hs', hliteral'⟩ := exists_shown_code ".html" strict hm'
    rw [compile_of_shown hp hn hs] at hc
    rw [compile_of_shown hp' hn' hs']
    -- That the second template compiles does not depend on suffixes: what it shows is its own twin.
    obtain ⟨chunks, hlast, -⟩ := exists_chunks ".html" strict hl'.1 hl'.1
      (hliteral'.twin hliteral' Marker.swaps_of_literalOnly)
    refine ⟨_, runLocated_of_ok template' file hlast, fun hagree => ?_⟩
    rw [suffixChoices, suffixChoices, hp, hp'] at hagree
    obtain ⟨same, same', hsame, hsame', hshown⟩ :=
      exists_twin_shown_code ".html" strict ((hnode hagree).tighten_guards hm hm')
    obtain rfl := Except.ok.inj (hs.symm.trans hsame)
    obtain rfl := Except.ok.inj (hs'.symm.trans hsame')
    obtain ⟨chunks', hout, hout'⟩ := exists_chunks ".html" strict hl.1 hl'.1 hshown
    rw [runLocated_of_ok template file hout] at hc
    exact ⟨chunks', (Except.ok.inj hc).symm, Except.ok.inj (hlast.symm.trans hout')⟩

end

attribute [local instance] Marker.Serials.sample

theorem exists_chunks_included :
    (standard ".html" true).suffixChoices (ofLiteral "b c") =
        (standard ".html" true).suffixChoices (ofLiteral "aaa") ∧
      ∃ out out', (standard ".html" true).compile (ofLiteral "aaa") none = .ok out ∧
        (standard ".html" true).compile (ofLiteral "b c") none = .ok out' ∧
        ∃ chunks : List Text, out = (Target.raw "aaa").intercalate chunks ∧
          out' = (Target.raw "b c").intercalate chunks := by
  have hl : Text.strip "aaa" ≠ [] ∧ ¬ Literal.EndsIn "aaa" := by decide
  have hl' : Text.strip "b c" ≠ [] ∧ ¬ Literal.EndsIn "b c" := by decide
  obtain ⟨hcompile, hchoices⟩ := compile_ofLiteral true hl
  have hagree := (compile_ofLiteral true hl').2.trans hchoices.symm
  obtain ⟨out', hout', hchunks⟩ :=
    exists_chunks_of_compile true none (by decide) (by decide) hl hl' hcompile
  exact ⟨hagree, _, out', hcompile, hout', hchunks hagree⟩

theorem length_intercalate_congr {part part' : Text} (h : part.length = part'.length)
    (chunks : List Text) :
    (part.intercalate chunks).length = (part'.intercalate chunks).length := by
  induction chunks with
  | nil => rfl
  | cons first chunks ih =>
    cases chunks with
    | nil => rw [List.intercalate_singleton, List.intercalate_singleton]
    | cons second chunks =>
      rw [List.intercalate_cons_cons, List.intercalate_cons_cons, List.length_append,
        List.length_append, List.length_append, List.length_append, h, ih]

/-- With a slash in the payload of one literal the outputs are not the same up to the literal. -/
theorem choices_differ :
    ∃ out out', (standard ".html" true).compile (ofLiteral "aaa") none = .ok out ∧
      (standard ".html" true).compile (ofLiteral "???") none = .ok out' ∧
      ¬ ∃ chunks : List Text, out = (Target.raw "aaa").intercalate chunks ∧
        out' = (Target.raw "???").intercalate chunks := by
  refine ⟨_, _, (compile_ofLiteral true (by decide)).1, (compile_ofLiteral true (by decide)).1, ?_⟩
  rintro ⟨chunks, hout, hout'⟩
  have hlength := length_intercalate_congr
    (by decide : (Target.raw "aaa").length = (Target.raw "???").length) chunks
  rw [← hout, ← hout'] at hlength
  revert hlength
  decide

end Engine

end ThemeMarkup
