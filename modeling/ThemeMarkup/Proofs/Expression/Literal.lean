import ThemeMarkup.Proofs.Expression.Inclusion

namespace ThemeMarkup

namespace Target

variable {text read literal : Text} {c : Char}

theorem readLiteral?_cons {quote : Char} (hb : c ≠ '\\') (hq : c ≠ quote) (text : Text) :
    readLiteral? quote (c :: text) = (readLiteral? quote text).map (c :: ·) := by
  rw [readLiteral?]
  · exact if_neg hq
  · rintro d rest rfl
    contradiction

/-- What is read of a literal has lost a backslash for each double quote and each backslash that it
holds. -/
theorem length_of_readLiteral? (h : readLiteral? '"' text = some read) :
    read.length + read.count '"' + read.count '\\' + 1 ≤ text.length := by
  fun_induction readLiteral? '"' text generalizing read with
  | case1 c text ih =>
    obtain ⟨read, hr, rfl⟩ := Option.map_eq_some_iff.1 h
    have hrest := ih hr
    simp only [List.length_cons, List.count_cons]
    grind
  | case2 =>
    obtain rfl := Option.some.inj h
    exact Nat.le_refl 1
  | case3 => contradiction
  | case4 c text hb hq ih =>
    obtain ⟨read, hr, rfl⟩ := Option.map_eq_some_iff.1 h
    have hrest := ih hr
    have hne : c ≠ '\\' := by
      intro hc
      cases text with
      | nil => contradiction
      | cons d text => exact hb d text hc rfl
    rw [List.count_cons_of_ne hq, List.count_cons_of_ne hne, List.length_cons, List.length_cons]
    omega
  | case5 => contradiction

end Target

namespace Expression

open Inclusion
open Marker (escaped)
open Standard (withSuffix)

variable {value : Text}

theorem quote_of_not_isExpression (h : ¬ IsExpression value) :
    quote value = '"' :: ((Text.strip value).flatMap escaped ++ ['"']) := by
  have hcond :
      (startsExpression (Text.strip value) || (Text.strip value).contains '(') = false := by
    rw [Bool.eq_false_iff, ne_eq, Bool.or_eq_true, List.contains_iff_mem]
    exact h
  rw [quote, hcond]
  rfl

theorem length_flatMap_escaped (text : Text) :
    (text.flatMap escaped).length = text.length + text.count '"' := by
  induction text with
  | nil => rfl
  | cons c text ih =>
    rw [List.flatMap_cons, List.length_append, ih, List.length_cons, List.count_cons, escaped]
    by_cases hc : c = '"'
    · simp only [hc, if_pos, BEq.rfl, List.length_cons, List.length_nil]
      omega
    · simp only [hc, beq_false_of_ne hc, if_neg, List.length_cons, List.length_nil,
        Bool.false_eq_true, not_false_eq_true]
      omega

/-- Text in which double quotes are escaped and backslashes are not is read back just if it has no
backslash. -/
theorem readLiteral?_escaped_iff {text : Text} :
    Target.readLiteral? '"' (text.flatMap escaped ++ ['"']) = some text ↔ '\\' ∉ text := by
  constructor
  · intro h
    have hlength := Target.length_of_readLiteral? h
    rw [List.length_append, length_flatMap_escaped, List.length_singleton] at hlength
    exact List.count_eq_zero.1 (by omega)
  · intro h
    induction text with
    | nil => rfl
    | cons c text ih =>
      obtain ⟨hc, ht⟩ := not_or.1 (mt List.mem_cons.2 h)
      have ih := ih ht
      rw [List.flatMap_cons, escaped, List.append_assoc]
      split
      · next hq =>
        subst hq
        exact congrArg (Option.map _) ih
      · next hq =>
        rw [List.singleton_append, Target.readLiteral?_cons (Ne.symm hc) hq, ih]
        rfl

section

variable [Marker.Serials]

/-- A value that is no expression becomes one literal, which is read back as the value without outer
blanks just if no backslash is in it. Each inclusion of it as a file becomes a statement that
includes what is read. -/
theorem readLiteral?_quote_iff (h : ¬ IsExpression value) :
    (∃ literal, quote value = '"' :: literal ∧
      (Target.readLiteral? '"' literal = some (Text.strip value) ↔ '\\' ∉ Text.strip value)) ∧
    ∀ {engine : Engine} {suffix text name inner : Text} {root node : Node},
      engine.delimiters.node.IsProper → engine.tree .node text = .ok root → node ∈ root.preorder →
      node.name = some "include" → node.bodyOutcome (.standard suffix) = .ok inner →
      (node.attributesOf "include").get? "file" = some name → name ≠ [] →
      withSuffix (Text.strip name) (endingOf suffix ((node.attributesOf "include").get? "ext")) =
      value →
      ∃ literal, node.compileContent (.standard suffix) =
          .ok (Target.statement ("include " ++ '"' :: literal)) ∧
        (Target.readLiteral? '"' literal = some (Text.strip value) ↔
          '\\' ∉ Text.strip value) := by
  have hquote := quote_of_not_isExpression h
  refine ⟨⟨_, hquote, readLiteral?_escaped_iff⟩, ?_⟩
  intro engine suffix text name inner root node hd ht hn hname hb hv hf hvalue
  refine ⟨_, ?_, readLiteral?_escaped_iff⟩
  rw [compileContent_statement hd ht hn hname hb hv hf, hvalue, hquote]

end

attribute [local instance] Marker.Serials.sample

theorem readLiteral?_quote_iff_marked :
    ¬ IsExpression "a\"b.html" ∧
      (∃ literal, quote "a\"b.html" = '"' :: literal ∧
        Target.readLiteral? '"' literal = some "a\"b.html") ∧
      ∃ root, (Engine.standard ".html" false).tree .node "\x7b% include file='a\"b' %\x7d" =
      .ok root ∧
        ∃ node ∈ root.preorder, ∃ literal,
          node.compileContent (.standard ".html") =
            .ok (Target.statement ("include " ++ '"' :: literal)) ∧
          Target.readLiteral? '"' literal = some "a\"b.html" := by
  have he : ¬ IsExpression "a\"b.html" := by decide
  obtain ⟨root, ht, node, hn, hname, hbody, hfile, hext⟩ :=
    exists_of_argument ".html" "\x7b% include file='a\"b' %\x7d" "file='a\"b'" "a\"b" []
      (by cbv) (by cbv) (by cbv)
  obtain ⟨⟨literal, hliteral, hread⟩, hinclusion⟩ := readLiteral?_quote_iff he
  obtain ⟨included, hstatement, hincluded⟩ :=
    hinclusion (Engine.isProper_standard _ _) ht hn hname hbody hfile
    (by decide) (by rw [hext]; decide)
  exact ⟨he, ⟨literal, hliteral, hread.2 (by decide)⟩, root, ht, node, hn, included, hstatement,
    hincluded.2 (by decide)⟩

/-- A backslash at the end takes the closing quote as a character of the literal. -/
theorem readLiteral?_quote_unclosed :
    ¬ IsExpression "a\\" ∧ quote "a\\" = "\"a\\\"" ∧ Target.readLiteral? '"' "a\\\"" = none := by
  decide

end Expression

end ThemeMarkup
