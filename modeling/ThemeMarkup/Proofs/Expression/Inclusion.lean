import ThemeMarkup.Proofs.Argument
import ThemeMarkup.Proofs.Expression.Rewriting
import ThemeMarkup.Proofs.Inclusion

namespace ThemeMarkup

namespace Expression

open Attribute (isNameStart ne_of_isNameStart)

variable {text ending value : Text}

theorem ink_rewritten_pos (h : text.IsFilled) : 0 < Text.ink (rewritten text) := by
  obtain ⟨c, rest, hc⟩ := List.exists_cons_of_ne_nil (toTarget_ne_nil h)
  rw [toTarget_eq_strip] at hc
  rw [← Text.ink_strip, Text.ink_pos_iff, hc]
  have hhead : c ∈ (Text.strip (rewritten text)).head? := hc ▸ rfl
  exact ⟨c, List.mem_cons_self, Text.isBlank_of_mem_head?_strip hhead⟩

theorem rewritten_cons_of_isNameStart {c : Char} (hc : isNameStart c = true) (after : Text) :
    rewritten (c :: after) = c :: rewritten after := by
  rw [rewritten, dropSigils_cons (ne_of_isNameStart hc (by decide)),
    pointArrows_cons (ne_of_isNameStart hc (by decide))]
  rfl

theorem rewritten_append_singleton (before : Text) {c : Char} (hn : isNameStart c = false)
    (hp : c ≠ '>') : rewritten (before ++ [c]) = rewritten before ++ [c] := by
  have hself : rewritten [c] = [c] := rewritten_eq_self_iff.2
    ⟨fun d _ h => absurd h.length_le (by simp), fun h => absurd h.length_le (by simp)⟩
  rw [rewritten_append, hself]
  · rintro - d ⟨⟩
    exact hn
  · rintro - ⟨⟩
    exact hp rfl

theorem rewritten_append_name (before : Text) {c : Char} (hc : isNameStart c = true)
    (after : Text) :
    rewritten (before ++ '$' :: c :: after) = rewritten before ++ c :: rewritten after := by
  have hdrop : dropSigils ('$' :: c :: after) = dropSigils (c :: after) := if_pos hc
  rw [rewritten, dropSigils_append, hdrop, ← rewritten_cons_of_isNameStart hc]
  · refine pointArrows_append fun _ => ?_
    rw [dropSigils_cons (ne_of_isNameStart hc (by decide))]
    exact fun h => ne_of_isNameStart hc (by decide) (Option.some.inj h)
  · rintro - d ⟨⟩
    decide

theorem rewritten_append_point (before after : Text) :
    rewritten (before ++ '-' :: '>' :: after) = rewritten before ++ '.' :: rewritten after := by
  have hpoint : rewritten ('-' :: '>' :: after) = '.' :: rewritten after := by
    rw [rewritten, dropSigils_cons (by decide), dropSigils_cons (by decide), pointArrows]
    rfl
  rw [rewritten_append, hpoint]
  · rintro - d ⟨⟩
    decide
  · rintro - ⟨⟩

/-- An expression changes with any text after it that is not blank, even if a sigil or the shaft of
an arrow at its end is taken up by that text. -/
theorem toTarget_append_ne (h : ending.IsFilled) (text : Text) :
    toTarget (text ++ ending) ≠ toTarget text := by
  rw [toTarget_eq_strip, toTarget_eq_strip]
  by_cases hs : text.getLast? = some '$' ∧ ∃ c ∈ ending.head?, isNameStart c = true
  · obtain ⟨hl, c, hh, hc⟩ := hs
    obtain ⟨before, rfl⟩ := List.getLast?_eq_some_iff.1 hl
    obtain ⟨after, rfl⟩ := List.head?_eq_some_iff.1 hh
    have hne : c ≠ '$' := ne_of_isNameStart hc (by decide)
    rw [List.append_assoc, List.singleton_append, rewritten_append_name before hc,
      rewritten_append_singleton before (by decide) (by decide)]
    exact Text.strip_append_ne (Attribute.isBlank_of_isNameStart hc) (by decide) hne _ _
  · by_cases ha : text.getLast? = some '-' ∧ ending.head? = some '>'
    · obtain ⟨hl, hh⟩ := ha
      obtain ⟨before, rfl⟩ := List.getLast?_eq_some_iff.1 hl
      obtain ⟨after, rfl⟩ := List.head?_eq_some_iff.1 hh
      rw [List.append_assoc, List.singleton_append, rewritten_append_point,
        rewritten_append_singleton before (by decide) (by decide)]
      exact Text.strip_append_ne (by decide) (by decide) (by decide) _ _
    · have happend : rewritten (text ++ ending) = rewritten text ++ rewritten ending := by
        apply rewritten_append
        · intro hl c hc
          by_contra hn
          exact hs ⟨hl, c, hc, Bool.not_eq_false _ ▸ hn⟩
        · exact fun hl hh => ha ⟨hl, hh⟩
      intro he
      have hink := congrArg Text.ink he
      have hpos := ink_rewritten_pos h
      rw [happend, Text.ink_strip, Text.ink_strip, Text.ink_append] at hink
      omega

theorem toTarget_append_eq_iff : toTarget (text ++ ending) = toTarget text ↔ ¬ ending.IsFilled := by
  refine ⟨fun h hf => toTarget_append_ne hf text h, fun h => ?_⟩
  have hblank : ∀ c ∈ ending, Text.isBlank c = true := by
    intro c hc
    by_contra hb
    exact h ⟨c, hc, Bool.not_eq_true _ ▸ hb⟩
  rw [toTarget_eq_strip, toTarget_eq_strip, rewritten_append_blank text hblank,
    Text.strip_append _ hblank]

/-- Whether a value is an expression: by its first character, or if something is called in it. -/
def IsExpression (value : Text) : Prop :=
  startsExpression (Text.strip value) = true ∨ '(' ∈ Text.strip value

instance (value : Text) : Decidable (IsExpression value) :=
  inferInstanceAs (Decidable (_ ∨ _))

theorem quote_of_isExpression (h : IsExpression value) : quote value = toTarget value := by
  have hcond : (startsExpression (Text.strip value) || (Text.strip value).contains '(') = true := by
    rw [Bool.or_eq_true, List.contains_iff_mem]
    exact h
  exact (if_pos hcond).trans (toTarget_strip value)

theorem IsExpression.ne_nil (h : IsExpression value) : value ≠ [] := by
  rintro rfl
  exact absurd h (by decide)

theorem IsExpression.append (h : IsExpression value) (ending : Text) :
    IsExpression (Text.strip value ++ ending) := by
  rcases h with h | h
  · cases hs : Text.strip value with
    | nil =>
      rw [hs] at h
      contradiction
    | cons c rest =>
      rw [hs] at h
      have hfirst : c ∈ (Text.strip value).head? := hs ▸ rfl
      have hc := Text.isBlank_of_mem_head?_strip hfirst
      left
      have hhead := Text.head?_strip_cons hc (rest ++ ending)
      obtain ⟨after, hafter⟩ := List.head?_eq_some_iff.1 hhead
      rw [List.cons_append, hafter]
      exact h
  · exact .inr ((Text.mem_strip_iff (by decide)).2 (List.mem_append_left _ h))

end Expression

namespace Inclusion

open Expression
open Standard (lastPart withSuffix)

variable {engine : Engine} {suffix text value inner : Text} {root node : Node}

theorem quote_withSuffix (h : IsExpression value) (ending : Text) :
    quote (withSuffix (Text.strip value) ending) =
      toTarget (withSuffix (Text.strip value) ending) := by
  apply quote_of_isExpression
  rw [withSuffix]
  split
  · rwa [IsExpression, Text.strip_strip]
  · exact h.append ending

theorem toTarget_withSuffix_iff {name ending : Text} :
    toTarget (withSuffix name ending) = toTarget name ↔
      startsExpression name = true ∨ '.' ∈ lastPart name ∨ ¬ ending.IsFilled := by
  rw [withSuffix]
  split
  · next h =>
    rw [Bool.or_eq_true, List.contains_iff_mem] at h
    exact iff_of_true rfl (or_assoc.1 (.inl h))
  · next h =>
    rw [Bool.or_eq_true, List.contains_iff_mem] at h
    rw [toTarget_append_eq_iff, ← or_assoc]
    exact (or_iff_right h).symm

theorem statement_inj {inner other : Text} (h : Target.statement inner = Target.statement other) :
    inner = other :=
  List.append_cancel_left (List.append_cancel_right h)

section

variable [Marker.Serials]

theorem compileContent_statement (hd : engine.delimiters.node.IsProper)
    (ht : engine.tree .node text = .ok root) (hn : node ∈ root.preorder)
    (hname : node.name = some "include") (hb : node.bodyOutcome (.standard suffix) = .ok inner)
    (hv : (node.attributesOf "include").get? "file" = some value) (hf : value ≠ []) :
    node.compileContent (.standard suffix) = .ok (Target.statement ("include " ++
      quote (withSuffix (Text.strip value)
        (endingOf suffix ((node.attributesOf "include").get? "ext"))))) := by
  have hpresent : ∀ key ∈ (Standard.requiredAttributes.get? "include").getD [],
      Compiler.isMissing (node.attributesOf "include") key = false := by
    refine List.forall_mem_singleton.2 ?_
    obtain ⟨c, rest, rfl⟩ := List.exists_cons_of_ne_nil hf
    rw [Compiler.isMissing, hv]
  have hroutine : (Compiler.standard suffix).routines.get? (Registry.nodeRoutine "include") =
      some (Compiler.writing (Standard.includeNode suffix)) := (Compiler.get?_standard ..).trans rfl
  obtain ⟨given, hgiven, hattributes, -⟩ :=
    Engine.exists_given hd ht hn hname hroutine hpresent hb
  obtain ⟨ext, hext⟩ := Node.exists_attribute "include" "ext" (by decide) node
  have hhold : given.givenAttributes.Hold (attributes value (some ext)) := by
    intro key value? hm
    rw [hattributes, Table.get?_map]
    rcases List.mem_pair.1 hm with hm | hm
    · cases hm
      rw [hv]
      rfl
    · cases hm
      rw [hext]
      rfl
  rw [hgiven, includeNode_eq hhold, ← hext]

theorem compileContent_eq (hd : engine.delimiters.node.IsProper)
    (ht : engine.tree .node text = .ok root) (hn : node ∈ root.preorder)
    (hname : node.name = some "include") (hb : node.bodyOutcome (.standard suffix) = .ok inner)
    (hv : (node.attributesOf "include").get? "file" = some value) (he : IsExpression value) :
    node.compileContent (.standard suffix) = .ok (Target.statement ("include " ++
      toTarget (withSuffix (Text.strip value)
        (endingOf suffix ((node.attributesOf "include").get? "ext"))))) := by
  rw [compileContent_statement hd ht hn hname hb hv he.ne_nil, quote_withSuffix he]

/-- What becomes of a node that includes an expression: the statement with the expression and, where
it is put, the ending. It is that with the expression alone just if the ending is not put or is
blank. -/
theorem compileContent_of_isExpression (hd : engine.delimiters.node.IsProper)
    (ht : engine.tree .node text = .ok root) (hn : node ∈ root.preorder)
    (hname : node.name = some "include") (hb : node.bodyOutcome (.standard suffix) = .ok inner)
    (hv : (node.attributesOf "include").get? "file" = some value) (he : IsExpression value) :
    let name := Text.strip value
    let ending := endingOf suffix ((node.attributesOf "include").get? "ext")
    node.compileContent (.standard suffix) =
        .ok (Target.statement ("include " ++ toTarget (withSuffix name ending))) ∧
      (node.compileContent (.standard suffix) =
          .ok (Target.statement ("include " ++ toTarget value)) ↔
        startsExpression name = true ∨ '.' ∈ lastPart name ∨ ¬ ending.IsFilled) := by
  intro name ending
  have hcontent := compileContent_eq hd ht hn hname hb hv he
  refine ⟨hcontent, ?_⟩
  rw [hcontent, ← toTarget_withSuffix_iff, toTarget_strip]
  constructor
  · intro h
    exact List.append_cancel_left (statement_inj (Except.ok.inj h))
  · intro h
    rw [h]

theorem exists_of_argument (suffix text argument value ext : Text)
    (hheads : ((Engine.standard suffix false).tree .node text).map Node.loneHeads =
      .ok [("include", argument)])
    (hfile : (Compiler.readAttributes ["file", "ext"] argument).get? "file" = some value)
    (hext : (Compiler.readAttributes ["file", "ext"] argument).get? "ext" = some ext) :
    ∃ root, (Engine.standard suffix false).tree .node text = .ok root ∧
      ∃ node ∈ root.preorder, node.name = some "include" ∧
        node.bodyOutcome (.standard suffix) = .ok [] ∧
        (node.attributesOf "include").get? "file" = some value ∧
        (node.attributesOf "include").get? "ext" = some ext := by
  obtain ⟨root, ht, node, hn, hname, rfl, hbody⟩ := Node.exists_of_loneHeads hheads
  exact ⟨root, ht, node, hn, hname, hbody _, hfile, hext⟩

end

attribute [local instance] Marker.Serials.sample

theorem compileContent_of_isExpression_pointed :
    ∃ root, (Engine.standard ".html" false).tree .node "\x7b% include file=\"f('a.b')\" %\x7d" =
      .ok root ∧
      ∃ node ∈ root.preorder, node.name = some "include" ∧
        (node.attributesOf "include").get? "file" = some "f('a.b')" ∧ IsExpression "f('a.b')" ∧
        node.compileContent (.standard ".html") = .ok "\x7b% include f('a.b') %\x7d" := by
  obtain ⟨root, ht, node, hn, hname, hbody, hfile, -⟩ :=
    exists_of_argument ".html" "\x7b% include file=\"f('a.b')\" %\x7d" "file=\"f('a.b')\""
      "f('a.b')" []
      (by cbv) (by cbv) (by cbv)
  have he : IsExpression "f('a.b')" := by decide
  have hcontent := (compileContent_of_isExpression (Engine.isProper_standard _ _) ht hn hname hbody
    hfile he).2
  exact ⟨root, ht, node, hn, hname, hfile, he, hcontent.2 (.inr (.inl (by decide)))⟩

/-- A call without one, to which the ending of theme files is put. -/
theorem compileContent_called :
    ∃ root, (Engine.standard ".html" false).tree .node "\x7b% include file=\"theme(x)\" %\x7d" =
      .ok root ∧
      ∃ node ∈ root.preorder, node.name = some "include" ∧
        (node.attributesOf "include").get? "file" = some "theme(x)" ∧ IsExpression "theme(x)" ∧
        node.compileContent (.standard ".html") = .ok "\x7b% include theme(x).html %\x7d" ∧
        Target.statement ("include " ++ toTarget "theme(x)") = "\x7b% include theme(x) %\x7d" := by
  obtain ⟨root, ht, node, hn, hname, hbody, hfile, hext⟩ :=
    exists_of_argument ".html" "\x7b% include file=\"theme(x)\" %\x7d" "file=\"theme(x)\""
      "theme(x)" []
      (by cbv) (by cbv) (by cbv)
  have he : IsExpression "theme(x)" := by decide
  have hcontent := compileContent_eq (Engine.isProper_standard _ _) ht hn hname hbody hfile he
  rw [hext] at hcontent
  exact ⟨root, ht, node, hn, hname, hfile, he, hcontent, by decide⟩

end Inclusion

end ThemeMarkup
