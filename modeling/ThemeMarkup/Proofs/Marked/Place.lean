import ThemeMarkup.Proofs.Marked.Compile
import ThemeMarkup.Proofs.Origin

namespace ThemeMarkup

open Marker (Marked encode opening)
open Text (Occurs Unmarked)

variable {needle template text : Text} {strict : Bool}

/-- The offset in a template of the character that stands at an offset of the text that the node
pass goes over, if it comes from the template. -/
def Engine.origin? (engine : Engine) (template : Text) : Except Error (Nat → Option Nat) := do
  let literals ← engine.edits .hideLiterals template
  let codes ← engine.edits .code (Text.splice 0 template literals)
  return fun i => (Text.origin? 0 codes i).bind (Text.origin? 0 literals)

section

variable [Marker.Serials]

theorem Marker.hides_encode {kind : Marker} (h : ¬ opening kind.word <:+: needle) (content : Text) :
    needle.Hides (encode kind content) := by
  have hopening : opening kind.word <:+: encode kind content := by
    have hencode := encode_eq kind content []
    rw [List.append_nil] at hencode
    rw [hencode]
    exact (List.prefix_append ..).isInfix
  refine ⟨fun hc => not_isForeign_of_mem hc (by decide),
    fun hc => not_isForeign_of_mem hc (by decide), fun hn => h (hopening.trans hn), fun hu => ?_⟩
  have hhashes : ("##" : Text) <:+: opening kind.word := by
    cases kind <;> decide
  exact hu (hhashes.trans hopening)

end

namespace Engine

def openIf : Text :=
  "\x7b% if %\x7d"

def literalSpan (interior : Text) : Text :=
  "\x7b% tagself %\x7d" ++ (interior ++ "\x7b% :tagself %\x7d")

theorem literalSpan_ne_nil {interior : Text} : literalSpan interior ≠ [] :=
  List.append_ne_nil_of_left_ne_nil (by decide) _

theorem silent_openIf :
    Found.Silent (Literal.read? .usual) openIf.length openIf ∧
      Found.Silent (Code.read? ({} : DelimiterSet).code Standard.codeNames) openIf.length
      openIf := by
  constructor
  · unfold Found.Silent
    decide
  · exact (Code.begins_read? _ _).silent_of_absent (by decide)

theorem protect_of_edits {engine : Engine} {literals codes : List (Span × Text)}
    (hd : engine.delimiters.code.left ≠ [])
    (hl : engine.edits .hideLiterals template = .ok literals)
    (hc : engine.edits .code (Text.splice 0 template literals) = .ok codes) :
    engine.protect template = .ok (Text.splice 0 (Text.splice 0 template literals) codes) ∧
      engine.origin? template =
        .ok fun i => (Text.origin? 0 codes i).bind (Text.origin? 0 literals) := by
  constructor
  · rw [protect, runPass_of_edits hd (by decide) hl]
    exact runPass_of_edits hd (by decide) hc
  · rw [origin?, hl]
    simp only [bind, Except.bind]
    rw [hc]
    rfl

section

variable [Marker.Serials]

/-- The first two passes leave origins. -/
theorem exists_traces (suffix : Text) (strict : Bool) (hn : needle.IsBraced)
    (hm : ∀ kind : Marker, ¬ opening kind.word <:+: needle) (template : Text) :
    ∃ text origin, (standard suffix strict).protect template = .ok text ∧
      (standard suffix strict).origin? template = .ok origin ∧
      Traces needle 0 template text origin := by
  have hleft : ({} : DelimiterSet).code.left ≠ [] := by decide
  have hcode := Code.steady_read? hleft Standard.codeNames
  obtain ⟨literals, hliterals, hbefore⟩ :=
    (replaces_hideLiterals suffix strict).traces (Literal.steady_read? .usual) hn template
      fun found _ => ⟨_, rfl, Marker.hides_encode (hm .literal) _⟩
  let hidden := Text.splice 0 template literals
  have hsigil :
      ∀ found ∈ Found.scan (Code.read? ({} : DelimiterSet).code Standard.codeNames) hidden, ∃ new,
        ProtectsCode found.value new ∧ needle.Hides new := by
    intro found hf
    obtain ⟨-, rest, -, hread⟩ :=
      ((hcode.scans_scanFrom 0 hidden).located hidden rfl).reads found hf
    obtain ⟨-, -, hname, -⟩ := Code.spells_of_read? hread
    obtain ⟨sigil, hsigil⟩ := Sigil.exists_name hname
    exact ⟨_, ⟨sigil, hsigil, rfl⟩, Marker.hides_encode (hm .code) _⟩
  obtain ⟨codes, hcodes, hafter⟩ := (replaces_code suffix strict).traces hcode hn hidden hsigil
  obtain ⟨hprotect, horigin⟩ := protect_of_edits (standard_left suffix strict) hliterals hcodes
  exact ⟨_, _, hprotect, horigin, hbefore.comp hafter⟩

theorem exists_tag_of_node_error {Holds : Marker → Text → Prop} {e : TagError}
    (hm : Marked .hashes Holds text)
    (hn : (standard ".html" strict).runPass .node text = .error (.tag e)) :
    ∃ tag : Text, e.span.Covers text tag ∧ tag.IsBraced ∧ tag.Unbordered := by
  have hsuffix : Unmarked ".html" := by decide
  obtain ⟨tags, hscan, hmeets⟩ := meets_runPass_node hsuffix strict hm
  rw [hn] at hmeets
  obtain ⟨head, hmem, -, hfault⟩ := hmeets
  have hcovers := ((Tag.row_of_scan (by decide) hscan).stands hmem).1.covers
  have hcarries := Tag.carries_of_scan hm hscan head hmem
  have hspan : e.span = head.span := by
    rcases hfault with he | ⟨key, he⟩
    · rw [Error.tag.inj he]
    · rw [Error.tag.inj he]
  exact ⟨head.source, hspan ▸ hcovers, hcarries.braced, hcarries.once.unbordered⟩

theorem edits_literalSpan {interior : Text} (hn : interior ≠ []) (he : ¬ Literal.EndsIn interior) :
    let template := literalSpan interior ++ openIf
    (standard ".html" true).edits .hideLiterals template =
      .ok [(Span.ofRange template 0 (literalSpan interior).length,
        encode .literal (Text.strip interior))] := by
  intro template
  have happend : template =
      "\x7b% tagself %\x7d" ++ (interior ++ ("\x7b% :tagself %\x7d" ++ openIf)) :=
    (List.append_assoc ..).trans (congrArg _ (List.append_assoc ..))
  have hread : Literal.read? .usual template = some (interior, openIf) := by
    rw [happend]
    exact Literal.read?_written hn he openIf
  have hscan : Found.scan (Literal.read? .usual) template = [⟨0, literalSpan interior, interior⟩] :=
    (Found.Scans.here literalSpan_ne_nil hread (.done silent_openIf.1)).scanFrom_eq
  have hmake : List.Forall₂ (fun found new => HidesLiteral found.value new)
      (Found.scan (Literal.read? .usual) template) [encode .literal (Text.strip interior)] := by
    rw [hscan]
    exact .cons rfl .nil
  rw [(replaces_hideLiterals ".html" true).edits_eq hmake, hscan]
  rfl

theorem edits_append_openIf (h : '\x7b' ∉ text) :
    (standard ".html" true).edits .code (text ++ openIf) = .ok [] := by
  have hbegins :
      Found.Begins ['\x7b', '\x7b'] (Code.read? ({} : DelimiterSet).code Standard.codeNames) :=
    Code.begins_read? ({} : DelimiterSet).code _
  have hscan :
      Found.scan (Code.read? ({} : DelimiterSet).code Standard.codeNames) (text ++ openIf) = [] :=
    ((Found.Scans.done silent_openIf.2).append (hbegins.silent_of_not_mem h openIf)).scanFrom_eq
  have hmake : List.Forall₂ (fun found new => ProtectsCode found.value new)
      (Found.scan (Code.read? ({} : DelimiterSet).code Standard.codeNames) (text ++ openIf))
      [] := by
    rw [hscan]
    exact .nil
  rw [(replaces_code ".html" true).edits_eq hmake, hscan]
  rfl

theorem runPass_node_append_openIf (h : '\x7b' ∉ text) :
    (standard ".html" true).runPass .node (text ++ openIf) = .error (.tag
      { fault := .unpaired "if", span := Span.ofRange (text ++ openIf) text.length 8 }) := by
  have hopen : openIf = Tag.written .head "if" " " := by decide
  have hsize : (Tag.written .head "if" " ").length = 8 := by decide
  have hname : ("if" : Text) ∈ Standard.names := Standard.mem_names_iff.2 (by decide)
  have hwritten : Tag.IsWritten (" " : Text) := Tag.isWritten_space
  have hfails := runPass_node_unpaired ".html" true hname hwritten rfl h
  dsimp only at hfails
  rwa [hsize, ← hopen] at hfails

/-- The span is all that the first two passes replace. -/
theorem protect_literalSpan {interior : Text} (hn : interior ≠ [])
    (he : ¬ Literal.EndsIn interior) :
    let template := literalSpan interior ++ openIf
    let marker := encode .literal (Text.strip interior)
    (standard ".html" true).protect template = .ok (marker ++ openIf) ∧
      (standard ".html" true).origin? template =
        .ok (Text.origin? 0 [(Span.ofRange template 0 (literalSpan interior).length, marker)]) := by
  intro template marker
  have hcodes : (standard ".html" true).edits .code (marker ++ openIf) = .ok [] :=
    edits_append_openIf (Marker.brace_not_mem_encode _ _)
  have hsplice :
      Text.splice 0 template [(Span.ofRange template 0 (literalSpan interior).length, marker)] =
      marker ++ openIf := by
    have hlast : ((⟨0, literalSpan interior, interior⟩ : Found Text).span template).last + 1 =
        ((0 : Nat) : Int) + (literalSpan interior).length :=
      Found.last_span literalSpan_ne_nil template
    exact Text.splice_here rfl hlast
  obtain ⟨hprotect, horigin⟩ :=
    protect_of_edits (standard_left ".html" true) (edits_literalSpan hn he) (hsplice.symm ▸ hcodes)
  constructor
  · rw [hprotect, hsplice]
    rfl
  · rw [horigin]
    refine congrArg Except.ok (funext fun i => ?_)
    rw [Text.origin?, Option.bind_some, Nat.zero_add]

/-- Where the node pass fails at a tag without markers, the error shows a copy of the tag that
stands in the template where the tag comes from or before that, and it stands there just if all
copies before it are still there after the first two passes. -/
theorem exists_place {e : TagError} (strict : Bool) (file : Option Text)
    (h : ¬ ("##" : Text) <:+: template)
    (hp : (standard ".html" strict).protect template = .ok text)
    (hn : (standard ".html" strict).runPass .node text = .error (.tag e))
    (hm : ∀ kind : Marker, ¬ opening kind.word <:+: e.span.read text) :
    let tag := e.span.read text
    tag ≠ [] ∧ ∃ origin place found shown,
      (standard ".html" strict).origin? template = .ok origin ∧
      (∀ k < tag.length, origin (e.span.first.toNat + k) = some (place + k)) ∧
      Occurs tag template place ∧ Occurs tag template found ∧ found ≤ place ∧
      (standard ".html" strict).compile template file = .error (.tag shown) ∧
      shown.fault = e.fault ∧
      shown.span = Span.ofRange template found tag.length ∧
      (found = place ↔
        ∀ b < place, Occurs tag template b → ∀ k < tag.length, ∃ j, origin j = some (b + k)) := by
  intro tag
  obtain ⟨text', hp', hmarked⟩ := exists_protected ".html" strict h
  obtain rfl := Except.ok.inj (hp.symm.trans hp')
  obtain ⟨source, hcovers, hbraced, hunbordered⟩ := exists_tag_of_node_error hmarked hn
  obtain rfl : source = tag := hcovers.read_eq.symm
  obtain ⟨text', origin, hp', horigin, htraces⟩ := exists_traces ".html" strict hbraced hm template
  obtain rfl := Except.ok.inj (hp.symm.trans hp')
  obtain ⟨shown, hshown, hfault, hspan⟩ := exists_locate hcovers template file
  have hcompile := compile_of_node_error hp hn file
  rw [hshown] at hcompile
  have hoccurs : Occurs tag text e.span.first.toNat := hcovers.prefix_drop
  obtain ⟨place, hplace⟩ := htraces.whole hoccurs
  have hstands := htraces.occurs_origin hoccurs hplace
  obtain ⟨found, hle, hfound, hrange, hiff⟩ := htraces.exists_found h hunbordered hcovers hplace
  exact ⟨hbraced.ne_nil, origin, place, found, shown, horigin, hplace, hstands, hfound, hle,
    hcompile, hfault, hspan.trans hrange, hiff⟩

end

/-- What the first two passes make of a literal span that holds a letter, before a head tag. -/
def letterThenIf : Text :=
  "__##global##START##1234567@YQ==##END##global##__\x7b% if %\x7d"

attribute [local instance] Marker.Serials.sample

theorem exists_place_letter :
    let template := literalSpan ['a'] ++ openIf
    ¬ ("##" : Text) <:+: template ∧ (standard ".html" true).protect template = .ok letterThenIf ∧
      ∃ e shown, (standard ".html" true).runPass .node letterThenIf = .error (.tag e) ∧
        (∀ kind : Marker, ¬ opening kind.word <:+: e.span.read letterThenIf) ∧
        (standard ".html" true).compile template none = .error (.tag shown) ∧
        shown.span = Span.ofRange template 28 8 := by
  intro template
  let e : TagError := { fault := .unpaired "if", span := Span.ofRange letterThenIf 48 8 }
  have hunmarked : ¬ ("##" : Text) <:+: template := by decide
  have hmasked : encode .literal (Text.strip ['a']) ++ openIf = letterThenIf := by decide
  have hprotect : (standard ".html" true).protect template = .ok letterThenIf := by
    rw [(protect_literalSpan (by decide) (by decide)).1, hmasked]
  have hlength : (encode .literal (Text.strip ['a'])).length = 48 := by decide
  have hnode := runPass_node_append_openIf (Marker.brace_not_mem_encode .literal (Text.strip ['a']))
  rw [hmasked, hlength] at hnode
  have htag : e.span.read letterThenIf = openIf := by decide
  have hplain : ∀ kind : Marker, ¬ opening kind.word <:+: e.span.read letterThenIf := by
    rw [htag]
    intro kind
    cases kind <;> decide
  obtain ⟨-, -, place, found, shown, -, -, -, hfound, -, hcompile, -, hspan, -⟩ :=
    exists_place true none hunmarked hprotect hnode hplain
  rw [htag] at hfound hspan
  have honce : ∀ i < 29, Occurs openIf template i → i = 28 := by decide
  have hle := hfound.add_length_le (by decide)
  obtain rfl : found = 28 := honce found (Nat.lt_succ_of_le (Nat.le_of_add_le_add_right hle)) hfound
  exact ⟨hunmarked, hprotect, e, shown, hnode, hplain, hcompile, hspan⟩

/-- What the first two passes make of a literal span that holds a head tag, before the same tag. -/
def copyThenIf : Text :=
  "__##global##START##1234567@eyUgaWYgJX0=##END##global##__\x7b% if %\x7d"

/-- A copy of a head tag in a literal span before it is shown as the place of the tag. -/
theorem place_hidden_copy :
    let template := literalSpan openIf ++ openIf
    ¬ ("##" : Text) <:+: template ∧ (standard ".html" true).protect template = .ok copyThenIf ∧
      ∃ e origin shown, (standard ".html" true).runPass .node copyThenIf = .error (.tag e) ∧
        (∀ kind : Marker, ¬ opening kind.word <:+: e.span.read copyThenIf) ∧
        (standard ".html" true).origin? template = .ok origin ∧ origin e.span.first.toNat =
        some 35 ∧
        (standard ".html" true).compile template none = .error (.tag shown) ∧
        shown.span = Span.ofRange template 13 8 := by
  intro template
  let e : TagError := { fault := .unpaired "if", span := Span.ofRange copyThenIf 56 8 }
  have hunmarked : ¬ ("##" : Text) <:+: template := by decide
  have hmasked : encode .literal (Text.strip openIf) ++ openIf = copyThenIf := by decide
  have hends : ¬ Literal.EndsIn openIf := by decide
  obtain ⟨hprotect, horigin⟩ := protect_literalSpan (by decide) hends
  rw [hmasked] at hprotect
  have hlength : (encode .literal (Text.strip openIf)).length = 56 := by decide
  have hnode :=
    runPass_node_append_openIf (Marker.brace_not_mem_encode .literal (Text.strip openIf))
  rw [hmasked, hlength] at hnode
  have htag : e.span.read copyThenIf = openIf := by decide
  have hplain : ∀ kind : Marker, ¬ opening kind.word <:+: e.span.read copyThenIf := by
    rw [htag]
    intro kind
    cases kind <;> decide
  have hcovers : e.span.Covers copyThenIf openIf := ⟨56, rfl, by decide, by decide⟩
  obtain ⟨shown, hshown, -, hspan⟩ := exists_locate hcovers template none
  have hrelocate : e.span.relocate? copyThenIf template = some (Span.ofRange template 13 8) := by
    decide +kernel
  rw [if_neg (by decide), hrelocate] at hspan
  refine ⟨hunmarked, hprotect, e, _, shown, hnode, hplain, horigin, by decide, ?_, hspan⟩
  rw [compile_of_node_error hprotect hnode, hshown]

end Engine

end ThemeMarkup
