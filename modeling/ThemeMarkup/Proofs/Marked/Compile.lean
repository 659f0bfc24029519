import ThemeMarkup.Proofs.Location
import ThemeMarkup.Proofs.Marked.Node
import ThemeMarkup.Proofs.Marked.Show
import ThemeMarkup.Proofs.TagFree

namespace ThemeMarkup

open Marker (Marked LiteralOnly Protected)
open Text (Unmarked)

variable {template text out : Text} {strict : Bool}

theorem Literal.unmarked_of_isInterior (h : Unmarked template) {content : Text}
    (hi : IsInterior template content) : Unmarked content := by
  obtain ⟨node, hn, rfl⟩ := hi
  obtain ⟨found, hf, rfl⟩ := List.mem_map.1 hn
  have hscans := (steady_read? .usual).scans_scanFrom 0 template
  obtain ⟨-, rest, hdrop, hread⟩ := (hscans.located template rfl).reads found hf
  obtain ⟨head, tail, -, -, -, he⟩ := spells_of_read? hread
  have hinterior : found.value <:+: template.drop found.offset := by
    rw [hdrop, he, List.append_assoc, List.append_assoc]
    exact List.infix_append' head found.value _
  apply h.of_infix
  exact (Text.strip_infix _).trans (hinterior.trans (List.drop_suffix ..).isInfix)

namespace Engine

/-- What the first two passes make of a template: the text that the node pass goes over. -/
def protect (engine : Engine) (template : Text) : Except Error Text := do
  let text ← engine.runPass .hideLiterals template
  engine.runPass .code text

theorem compile_of_protect {engine : Engine} (h : engine.protect template = .ok text)
    (file : Option Text) :
    engine.compile template file =
      [.node, .showCode, .showLiterals].foldlM (engine.runLocated template file) text := by
  rw [protect] at h
  cases hhidden : engine.runPass .hideLiterals template with
  | error e =>
    rw [hhidden] at h
    contradiction
  | ok hidden =>
    rw [hhidden] at h
    have hfirst : engine.runLocated template file template .hideLiterals = .ok hidden :=
      runLocated_of_ok template file hhidden
    have hsecond : engine.runLocated template file hidden .code = .ok text :=
      runLocated_of_ok template file h
    exact (Except.foldlM_cons_of_ok hfirst _).trans (Except.foldlM_cons_of_ok hsecond _)

theorem compile_of_shown {engine : Engine} {compiled shown : Text}
    (hp : engine.protect template = .ok text)
    (hn : engine.runPass .node text = .ok compiled)
    (hs : engine.runPass .showCode compiled = .ok shown)
    (file : Option Text) :
    engine.compile template file = engine.runLocated template file shown .showLiterals := by
  rw [compile_of_protect hp, Except.foldlM_cons_of_ok (runLocated_of_ok template file hn),
    Except.foldlM_cons_of_ok (runLocated_of_ok template file hs)]
  exact bind_pure _

theorem compile_of_node_error {engine : Engine} {e : Error}
    (hp : engine.protect template = .ok text)
    (hn : engine.runPass .node text = .error e) (file : Option Text) :
    engine.compile template file = .error (locate e text template file) := by
  rw [compile_of_protect hp, List.foldlM_cons, runLocated, hn]
  rfl

section

variable [Marker.Serials]

theorem exists_protected (suffix : Text) (strict : Bool) (h : Unmarked template) :
    ∃ text, (standard suffix strict).protect template = .ok text ∧
      Marked .hashes (Protected (Literal.IsInterior template)) text := by
  obtain ⟨hidden, hhidden, hmarked⟩ := exists_hidden suffix strict h
  obtain ⟨text, htext, hguarded⟩ := exists_guarded_of_hidden suffix strict hmarked
  refine ⟨text, ?_, hguarded⟩
  rw [protect, hhidden]
  exact htext

theorem exists_compile_of_node {Interior : Text → Prop} {compiled : Text}
    (hp : (standard ".html" strict).protect template = .ok text)
    (hn : (standard ".html" strict).runPass .node text = .ok compiled)
    (hm : Marked .start (Protected Interior) compiled) (file : Option Text) :
    ∃ shown, Marked .start (LiteralOnly Interior) shown ∧
      (standard ".html" strict).compile template file =
        (standard ".html" strict).runLocated template file shown .showLiterals := by
  obtain ⟨shown, hshown, hliteral⟩ := exists_shown_code ".html" strict hm
  exact ⟨shown, hliteral, compile_of_shown hp hn hshown file⟩

/-- Of all markers only those of literal spans with blank interiors are left in what a template
without two hash signs in a row compiles to. -/
theorem literal_of_opening_infix (strict : Bool) (file : Option Text)
    (h : ¬ ("##" : Text) <:+: template)
    (hc : (standard ".html" strict).compile template file = .ok out) :
    ∀ kind : Marker, Marker.opening kind.word <:+: out →
      kind = .literal ∧ ∃ node ∈ Literal.nodes .usual template, node.content = [] := by
  have hsuffix : Unmarked ".html" := by decide
  obtain ⟨text, hprotect, hmarked⟩ := exists_protected ".html" strict h
  obtain ⟨tags, -, hmeets⟩ := meets_runPass_node hsuffix strict hmarked
  cases hn : (standard ".html" strict).runPass .node text with
  | error e =>
    rw [compile_of_node_error hprotect hn] at hc
    contradiction
  | ok compiled =>
    rw [hn] at hmeets
    obtain ⟨shown, hliteral, hcompile⟩ := exists_compile_of_node hprotect hn hmeets file
    rw [hcompile] at hc
    have hlast : (standard ".html" strict).runPass .showLiterals shown = .ok out := by
      rw [runLocated] at hc
      split at hc
      · next hrun => rw [hrun, Except.ok.inj hc]
      · contradiction
    obtain ⟨out', hout, hleft⟩ := exists_shown_literals ".html" strict hliteral (.inr ⟨out, hlast⟩)
      fun content hi => Literal.unmarked_of_isInterior h hi
    obtain rfl := Except.ok.inj (hlast.symm.trans hout)
    intro kind hopening
    have hholds : ∃ content, LiteralOnly (fun content => Literal.IsInterior template content ∧
        content = []) kind content := by
      by_contra hnone
      exact hleft.not_opening_infix (fun content hk => hnone ⟨content, hk⟩) hopening
    obtain ⟨content, hk⟩ := hholds
    cases kind with
    | code => contradiction
    | literal =>
      obtain ⟨⟨node, hnode, rfl⟩, hblank⟩ := hk
      exact ⟨rfl, node, hnode, hblank⟩

end

def shownText : Text :=
  "\x7b\x7b $a \x7d\x7d\x7b% tagself %\x7d b \x7b% :tagself %\x7d"

attribute [local instance] Marker.Serials.sample

theorem literal_of_opening_infix_shown :
    let out : Text := "\x7b\x7b a \x7d\x7d\x7b% raw %\x7db\x7b% endraw %\x7d"
    ¬ ("##" : Text) <:+: shownText ∧ (standard ".html" true).compile shownText none = .ok out ∧
      ∀ kind : Marker, ¬ Marker.opening kind.word <:+: out := by
  intro out
  let template : Template := .code .value "a" (.literal " b " .nil)
  have hunmarked : ¬ ("##" : Text) <:+: shownText := by decide
  have hproper : template.IsProper := by decide
  have hcompile : (standard ".html" true).compile shownText none = .ok out :=
    Template.compile_print_of_suffix (by decide) true hproper none
  have hcontent : (Literal.nodes .usual shownText).map (·.content) = [['b']] := by cbv
  refine ⟨hunmarked, hcompile, ?_⟩
  intro kind hk
  obtain ⟨-, node, hnode, hblank⟩ := literal_of_opening_infix true none hunmarked hcompile kind hk
  have hmem : node.content ∈ [['b']] := hcontent ▸ List.mem_map_of_mem hnode
  rw [hblank] at hmem
  exact absurd hmem (by decide)

def blankLiteral : Text :=
  "\x7b% tagself %\x7d \x7b% :tagself %\x7d"

def blankMarker : Text :=
  "__##global##START##1234567@##END##global##__"

theorem compile_blankLiteral :
    (standard ".html" true).compile blankLiteral none = .ok blankMarker := by
  have hread : Literal.read? .usual blankLiteral = some ([' '], []) := by decide
  have hmarker : blankMarker = Marker.encode .literal (Text.strip [' ']) := by decide
  have hhide : (standard ".html" true).runPass .hideLiterals blankLiteral = .ok blankMarker :=
    (replaces_hideLiterals ".html" true).runPass_standard (by decide)
      (.whole (by decide) hread hmarker)
  have hnone : (standard ".html" true).TagFree blankMarker :=
    tagFree_of_not_mem ".html" true (by decide)
  have hsilent : Found.Silent (Marker.read? .literal) blankMarker.length blankMarker := by
    unfold Found.Silent
    decide
  have hkept : ∀ pass ∈ [Pass.code, .node, .showCode, .showLiterals],
      (standard ".html" true).nodes pass blankMarker = .ok [] := by
    intro pass hp
    simp only [List.mem_cons, List.not_mem_nil, or_false] at hp
    rcases hp with rfl | rfl | rfl | rfl
    · exact hnone.nodes_eq _ (by decide)
    · exact hnone.nodes_eq _ (by decide)
    · exact congrArg Except.ok (Marker.nodes_eq_nil (by decide))
    · exact congrArg Except.ok (Marker.nodes_of_silent hsilent)
  exact (Except.foldlM_cons_of_ok (runLocated_of_ok blankLiteral none hhide) _).trans
    (foldlM_runLocated_append hkept blankLiteral none [])

/-- A literal span with a blank interior leaves its marker. -/
theorem opening_infix_blankLiteral :
    ¬ ("##" : Text) <:+: blankLiteral ∧ ∃ out,
      (standard ".html" true).compile blankLiteral none = .ok out ∧
        Marker.opening Marker.literal.word <:+: out :=
  ⟨by decide, blankMarker, compile_blankLiteral, by decide⟩

/-- An error of the node pass over a text: at a head tag of the text that needs a tail tag and has
none, or lacks an attribute. -/
def AtHead (engine : Engine) (text : Text) (e : TagError) : Prop :=
  ∃ tags, Tag.scan engine.compiler.registry engine.delimiters.node text = .ok tags ∧
    ∃ head ∈ tags, head.kind = .head ∧ e.span = head.span ∧
      (e.fault = .unpaired head.name ∨ ∃ key, e.fault = .missingAttribute head.name key)

section

variable [Marker.Serials]

/-- A template without two hash signs in a row and without literal spans with blank interiors
compiles, or the node pass fails at a head tag, which lacks a tail tag or an attribute. -/
theorem ok_or_atHead (strict : Bool) (file : Option Text) (h : ¬ ("##" : Text) <:+: template)
    (hi : ∀ node ∈ Literal.nodes .usual template, node.content ≠ []) :
    (∃ out, (standard ".html" strict).compile template file = .ok out) ∨
      ∃ text e shown, (standard ".html" strict).protect template = .ok text ∧
        (standard ".html" strict).runPass .node text = .error (.tag e) ∧
        (standard ".html" strict).AtHead text e ∧
        (standard ".html" strict).compile template file = .error (.tag shown) ∧
        shown.fault = e.fault := by
  have hsuffix : Unmarked ".html" := by decide
  obtain ⟨text, hprotect, hmarked⟩ := exists_protected ".html" strict h
  obtain ⟨tags, hscan, hmeets⟩ := meets_runPass_node hsuffix strict hmarked
  cases hn : (standard ".html" strict).runPass .node text with
  | error e =>
    rw [hn] at hmeets
    obtain ⟨head, hm, hk, hfault⟩ := hmeets
    have hcovers := ((Tag.row_of_scan (by decide) hscan).stands hm).1.covers
    obtain ⟨e, rfl, hspan, hfault⟩ : ∃ e' : TagError, e = .tag e' ∧ e'.span = head.span ∧
        (e'.fault = .unpaired head.name ∨ ∃ key, e'.fault = .missingAttribute head.name key) := by
      rcases hfault with rfl | ⟨key, rfl⟩
      · exact ⟨_, rfl, rfl, .inl rfl⟩
      · exact ⟨_, rfl, rfl, .inr ⟨key, rfl⟩⟩
    obtain ⟨shown, hshown, hsame, -⟩ := exists_locate (hspan ▸ hcovers) template file
    refine .inr ⟨text, e, shown, hprotect, hn, ⟨tags, hscan, head, hm, hk, hspan, hfault⟩, ?_,
      hsame⟩
    rw [compile_of_node_error hprotect hn, hshown]
  | ok compiled =>
    rw [hn] at hmeets
    obtain ⟨shown, hliteral, hcompile⟩ := exists_compile_of_node hprotect hn hmeets file
    have hfilled : ∀ content, Literal.IsInterior template content → content ≠ [] := by
      rintro _ ⟨node, hnode, rfl⟩
      exact hi node hnode
    obtain ⟨out, hout, -⟩ := exists_shown_literals ".html" strict hliteral (.inl hfilled)
      fun content hi => Literal.unmarked_of_isInterior h hi
    exact .inl ⟨out, hcompile.trans (runLocated_of_ok template file hout)⟩

end

def openText : Text :=
  "a # \x7b% if b %\x7d"

theorem ok_or_atHead_open :
    ¬ ("##" : Text) <:+: openText ∧ (∀ node ∈ Literal.nodes .usual openText, node.content ≠ []) ∧
      ∃ text e shown, (standard ".html" true).protect openText = .ok text ∧
        (standard ".html" true).runPass .node text = .error (.tag e) ∧
        (standard ".html" true).AtHead text e ∧
        (standard ".html" true).compile openText none = .error (.tag shown) ∧
        shown.fault = e.fault := by
  have hunmarked : ¬ ("##" : Text) <:+: openText := by decide
  have hsilent : Found.Silent (Literal.read? .usual) openText.length openText := by
    unfold Found.Silent
    decide
  have hliterals : Literal.nodes .usual openText = [] :=
    congrArg (List.map _) (Found.Scans.done hsilent).scanFrom_eq
  have hhide : (standard ".html" true).nodes .hideLiterals openText = .ok [] :=
    congrArg Except.ok hliterals
  have hscan : Found.scan (Code.read? ({} : DelimiterSet).code Standard.codeNames) openText = [] :=
    (Found.Scans.done ((Code.begins_read? _ _).silent_of_absent (by decide))).scanFrom_eq
  have hcodes : (standard ".html" true).nodes .code openText = .ok [] :=
    (congrArg (List.mapM _) hscan).trans rfl
  have hfilled : ∀ node ∈ Literal.nodes .usual openText, node.content ≠ [] := by
    rw [hliterals]
    exact List.forall_mem_nil _
  have hprotect : (standard ".html" true).protect openText = .ok openText := by
    rw [protect, runPass_of_nodes_nil hhide]
    exact runPass_of_nodes_nil hcodes
  have hnode : ∃ e, (standard ".html" true).runPass .node openText = .error e := by
    have hopen : openText = "a # " ++ Tag.written .head "if" " b " := by decide
    have hwritten : Tag.IsWritten " b " := ⟨"b ", rfl, by decide⟩
    rw [hopen]
    exact ⟨_, runPass_node_unpaired ".html" true (Standard.mem_names_iff.2 (by decide)) hwritten rfl
      (by decide)⟩
  refine ⟨hunmarked, hfilled, (ok_or_atHead true none hunmarked hfilled).resolve_left ?_⟩
  rintro ⟨out, hout⟩
  obtain ⟨e, he⟩ := hnode
  rw [compile_of_node_error hprotect he] at hout
  contradiction

end Engine

end ThemeMarkup
