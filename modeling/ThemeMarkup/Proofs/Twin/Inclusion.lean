import ThemeMarkup.Proofs.Inclusion
import ThemeMarkup.Proofs.Twin.Node
import ThemeMarkup.Proofs.Twin.Pass

namespace ThemeMarkup

open Marker (Core LiteralOnly Marked encode payloadOf)
open Standard (keepsName lastPart)

variable {before after literal name : Text} {ending : Option Text}

namespace Standard

theorem lastPart_of_not_mem (h : '/' ∉ name) : lastPart name = name := by
  have hall : ∀ c ∈ name.reverse, decide (c ≠ '/') = true := by
    intro c hc
    rw [decide_eq_true_eq]
    rintro rfl
    exact h (List.mem_reverse.1 hc)
  rw [lastPart, List.takeWhile_eq_self_iff.2 hall, List.reverse_reverse]

theorem lastPart_append (before : Text) (h : '/' ∈ after) :
    lastPart (before ++ after) = lastPart after := by
  have hstops : (after.reverse.takeWhile (· ≠ '/')).length ≠ after.reverse.length := by
    intro hl
    have hall := List.takeWhile_eq_self_iff.1 ((List.takeWhile_prefix _).eq_of_length hl)
    simpa using hall '/' (List.mem_reverse.2 h)
  rw [lastPart, lastPart, List.reverse_append, List.takeWhile_append, if_neg hstops]

theorem lastPart_subset (name : Text) : lastPart name ⊆ name := by
  intro c hc
  exact List.mem_reverse.1 ((List.takeWhile_prefix _).subset (List.mem_reverse.1 hc))

end Standard

namespace Engine

/-- Whether the include tags of a template, in turn, keep the file names that they include. -/
def suffixChoices (engine : Engine) (template : Text) : Except Error (List Bool) := do
  let text ← engine.protect template
  engine.choices text

variable [Marker.Serials]

/-- A template with one literal and no code tags, in which the node pass leaves one marker of the
literal. -/
theorem compile_of_one_literal {first last : Text} (strict : Bool) (file : Option Text)
    (hb : ¬ ("tagself" : Text) <:+: before.map Text.lowerAscii)
    (ha : ¬ ("tagself" : Text) <:+: after.map Text.lowerAscii)
    (hl : Text.strip literal ≠ [] ∧ ¬ Literal.EndsIn literal)
    (hcode : (standard ".html" strict).nodes .code
      (before ++ (encode .literal (Text.strip literal) ++ after)) = .ok [])
    (hnode : (standard ".html" strict).runPass .node
        (before ++ (encode .literal (Text.strip literal) ++ after)) =
      .ok (first ++ (encode .literal (Text.strip literal) ++ last)))
    (hf : Core.start.Plain first) (ht : Core.start.Plain last) :
    let template := before ++ (literalSpan literal ++ after)
    (standard ".html" strict).compile template file =
        .ok (first ++ (Target.raw (Text.strip literal) ++ last)) ∧
      (standard ".html" strict).suffixChoices template =
        (standard ".html" strict).choices
        (before ++ (encode .literal (Text.strip literal) ++ after)) := by
  intro template
  have hholds : LiteralOnly (· = Text.strip literal) .literal (Text.strip literal) := rfl
  have hlast : Marked .start (LiteralOnly (· = Text.strip literal)) last := .plain ht
  have hprotect : (standard ".html" strict).protect template =
      .ok (before ++ (encode .literal (Text.strip literal) ++ after)) := by
    rw [protect, runPass_hideLiterals_literalSpan ".html" strict hb ha hl.1 hl.2]
    exact runPass_of_nodes_nil hcode
  have hnone :
      Marker.nodes .code (first ++ (encode .literal (Text.strip literal) ++ last)) = [] := by
    apply Marker.nodes_eq_nil
    exact Marked.not_opening_infix (.marker hf hholds hlast) fun _ => id
  have hcompile :=
    compile_of_shown hprotect hnode (runPass_of_nodes_nil (congrArg Except.ok hnone)) file
  have hkept : Found.Edits (Marker.read? .literal) ShowsLiteral (last ++ []) (last ++ []) :=
    .keep (ht.silent .literal) .nil
  rw [List.append_nil] at hkept
  have hshow : (standard ".html" strict).runPass .showLiterals
      (first ++ (encode .literal (Text.strip literal) ++ last)) =
        .ok (first ++ (Target.raw (Text.strip literal) ++ last)) :=
    (replaces_showLiterals ".html" strict).runPass_standard (by decide)
      (.keep (Marked.silent_gap hf hholds hlast .literal) (.find (Marker.encode_ne_nil _ _)
        (Marker.read?_encode .literal hl.1 last) ⟨_, Marker.decode_payloadOf _, rfl⟩ hkept))
  constructor
  · rw [hcompile, runLocated_of_ok template file hshow]
  · rw [suffixChoices, hprotect]
    rfl

end Engine

namespace Inclusion

variable [Marker.Serials]

theorem choices_tag (suffix : Text) (strict : Bool) (hf : name ≠ []) (hn : IsPlain name)
    (he : ∀ e ∈ ending, IsPlain e) :
    (Engine.standard suffix strict).choices (tag name ending) =
      .ok [keepsName (Text.strip name)] := by
  have hgiven : ("file".toList, some name) ∈ attributes name ending := List.mem_cons_self
  have hfile := (allows hf hn he).get?_readAttributes hgiven
  have hchoice : (head name ending).suffixChoice? = some (keepsName (Text.strip name)) := by
    have hkind : (head name ending).kind = .head := rfl
    have hname : (head name ending).name = "include" := rfl
    rw [Tag.suffixChoice?, if_pos hkind, Standard.suffixChoice?, if_pos hname]
    exact congrArg (fun value => some (keepsName (Text.strip (Option.getD value [])))) hfile
  have hkept : [head name ending].filterMap Tag.suffixChoice? = [keepsName (Text.strip name)] := by
    rw [List.filterMap_cons_some hchoice, List.filterMap_nil]
  exact Except.bind_eq_ok_iff.2 ⟨_, scan_tag suffix hn he, congrArg Except.ok hkept⟩

def fileName (literal : Text) : Text :=
  "a." ++ encode .literal (Text.strip literal)

theorem isFilled_fileName (literal : Text) : (fileName literal).IsFilled :=
  ⟨'a', List.mem_cons_self, by decide⟩

theorem isPlain_fileName (literal : Text) : IsPlain (fileName literal) := by
  have hforeign : ∀ c ∈ ("\"'\\$(\x7b\x7d%" : Text), Marker.IsForeign c := by decide
  apply IsPlain.append (by decide)
  intro c hc hm
  exact Marker.not_isForeign_of_mem hc (hforeign c hm)

theorem strip_fileName (literal : Text) : Text.strip (fileName literal) = fileName literal := by
  apply Text.strip_eq_self
  · intro c hc
    obtain rfl := Option.some.inj hc
    decide
  · rw [fileName, List.getLast?_append, Marker.getLast?_encode]
    decide

/-- The dot before the marker is in the last part of the name if the payload has no slash. -/
theorem mem_lastPart_fileName :
    '.' ∈ lastPart (fileName literal) ↔ '/' ∉ payloadOf (Text.strip literal) := by
  let digits := Marker.serial Marker.literal.word (Text.strip literal)
  let lead : Text := Marker.opening Marker.literal.word ++ digits ++ ['@']
  let close : Text := Marker.closing Marker.literal.word
  have hname : fileName literal = ("a." ++ lead) ++ (payloadOf (Text.strip literal) ++ close) := by
    have hmarker :
        encode .literal (Text.strip literal) = lead ++ (payloadOf (Text.strip literal) ++ close) :=
      List.append_assoc ..
    rw [fileName, hmarker]
    exact (List.append_assoc ..).symm
  have hdigits : '/' ∉ digits := fun hm =>
    Marker.forall_mem_serial (p := ('/' ≠ ·)) (by decide) _ _ _ hm rfl
  have hopening : '/' ∉ Marker.opening Marker.literal.word := by decide
  have hlead : '/' ∉ "a." ++ lead ∧ '.' ∈ "a." ++ lead := by
    simp [lead, hdigits, hopening]
  have hclose : '/' ∉ close ∧ '.' ∉ close := by decide
  rw [hname]
  constructor
  · intro hdot hslash
    rw [Standard.lastPart_append _ (List.mem_append_left close hslash)] at hdot
    rcases List.mem_append.1 (Standard.lastPart_subset _ hdot) with hpayload | hclosing
    · exact Marker.not_mem_payloadOf _ (by decide) (by decide) hpayload
    · exact hclose.2 hclosing
  · intro hslash
    have hnone : '/' ∉ ("a." ++ lead) ++ (payloadOf (Text.strip literal) ++ close) := by
      intro hm
      rcases List.mem_append.1 hm with hm | hm
      · exact hlead.1 hm
      · exact (List.mem_append.1 hm).elim hslash hclose.1
    rw [Standard.lastPart_of_not_mem hnone]
    exact List.mem_append_left _ hlead.2

theorem keepsName_fileName (literal : Text) :
    keepsName (fileName literal) = decide ('/' ∉ payloadOf (Text.strip literal)) := by
  have hstart : Expression.startsExpression (fileName literal) = false := rfl
  rw [keepsName, hstart, Bool.false_or, List.contains_eq_mem, decide_eq_decide]
  exact mem_lastPart_fileName

def suffixOf (literal : Text) : Text :=
  if '/' ∈ payloadOf (Text.strip literal) then ".html" else []

theorem included_fileName (literal : Text) :
    included ".html" (fileName literal) none = fileName literal ++ suffixOf literal := by
  have hs : IsEnding (endingOf ".html" none) :=
    ⟨⟨by decide, by decide, by decide⟩, by decide, by decide⟩
  rw [included_eq (isFilled_fileName literal) (isPlain_fileName literal) hs, strip_fileName,
    suffixOf]
  by_cases hslash : '/' ∈ payloadOf (Text.strip literal)
  · rw [if_pos hslash, if_neg fun hdot => mem_lastPart_fileName.1 hdot hslash]
    rfl
  · rw [if_neg hslash, if_pos (mem_lastPart_fileName.2 hslash), List.append_nil]

/-- The inclusion of a file with a literal in its name. -/
def ofLiteral (literal : Text) : Text :=
  "\x7b% include file=\"a." ++ (Engine.literalSpan literal ++ "\" %\x7d")

/-- The inclusion compiles to one of the same name, which gets the suffix just if there is a slash
in the payload of the marker. -/
theorem compile_ofLiteral (strict : Bool)
    (hl : Text.strip literal ≠ [] ∧ ¬ Literal.EndsIn literal) :
    (Engine.standard ".html" strict).compile (ofLiteral literal) none =
        .ok ("\x7b% include \"a." ++
          (Target.raw (Text.strip literal) ++ (suffixOf literal ++ "\" %\x7d"))) ∧
      (Engine.standard ".html" strict).suffixChoices (ofLiteral literal) =
        .ok [decide ('/' ∉ payloadOf (Text.strip literal))] := by
  have hf : fileName literal ≠ [] := List.cons_ne_nil _ _
  have hn : IsPlain (fileName literal) := isPlain_fileName literal
  have hnone : ∀ e ∈ (none : Option Text), IsPlain e := nofun
  have htag : tag (fileName literal) none =
      "\x7b% include file=\"a." ++ (encode .literal (Text.strip literal) ++ "\" %\x7d") := by
    simp [tag, Tag.written, Tag.colon, Attribute.argument, attributes, Attribute.present,
      Attribute.written, fileName]
  have hstatement : statement (fileName literal ++ suffixOf literal) = "\x7b% include \"a." ++
      (encode .literal (Text.strip literal) ++ (suffixOf literal ++ "\" %\x7d")) := by
    simp [statement, Target.statement, fileName]
  have hcode := nodes_tag ".html" strict hn hnone .code (by simp)
  have hnode := runPass_node_eq strict hf hn (by decide : IsPlain ".html") hnone
  have hchoices := choices_tag ".html" strict hf hn hnone
  rw [included_fileName, hstatement] at hnode
  rw [strip_fileName, keepsName_fileName] at hchoices
  rw [htag] at hcode hnode hchoices
  have hplain : Core.start.Plain (suffixOf literal ++ "\" %\x7d") := by
    rw [suffixOf]
    split <;> decide
  obtain ⟨hcompile, hsame⟩ :=
    Engine.compile_of_one_literal strict none (by decide) (by decide) hl hcode
    hnode (by decide) hplain
  exact ⟨hcompile, hsame.trans hchoices⟩

end Inclusion

end ThemeMarkup
