import ThemeMarkup.Proofs.Argument
import ThemeMarkup.Proofs.Attribute.Reading
import ThemeMarkup.Proofs.Expression.Quotation
import ThemeMarkup.Proofs.Inclusion

namespace ThemeMarkup

namespace Text

variable {text before after gap : Text}

/-- The mark of the quotation that goes on after a character, if `open?` is that of the one in which
the character stands. -/
def quotationAfter (open? : Option Char) (c : Char) (rest : Text) : Option Char :=
  match open? with
  | none => if IsMark c ∧ c ∈ rest then some c else none
  | some mark => if c = mark then none else some mark

/-- The mark of the quotation that goes on after the first of two texts. -/
def quotationAt (open? : Option Char) : Text → Text → Option Char
  | [], _ => open?
  | c :: before, after => quotationAt (quotationAfter open? c (before ++ after)) before after

theorem quotationAt_append (open? : Option Char) (before more after : Text) :
    quotationAt open? (before ++ more) after =
      quotationAt (quotationAt open? before (more ++ after)) more after := by
  induction before generalizing open? with
  | nil => rfl
  | cons c before ih =>
    rw [List.cons_append, quotationAt, quotationAt, ih, List.append_assoc]

theorem quotationAt_none (h : ∀ c ∈ gap, ¬ IsMark c) (after : Text) :
    quotationAt none gap after = none := by
  induction gap with
  | nil => rfl
  | cons c gap ih =>
    obtain ⟨hc, hgap⟩ := List.forall_mem_cons.1 h
    rw [quotationAt, quotationAfter, if_neg fun hm => hc hm.1]
    exact ih hgap

theorem quotationAt_append_right (h : ∀ c ∈ gap, ¬ IsMark c) (open? : Option Char)
    (before after : Text) :
    quotationAt open? before (after ++ gap) = quotationAt open? before after := by
  induction before generalizing open? with
  | nil => rfl
  | cons c before ih =>
    have hafter : quotationAfter open? c (before ++ (after ++ gap)) =
        quotationAfter open? c (before ++ after) := by
      cases open? with
      | none =>
        have hmem : IsMark c ∧ c ∈ before ++ (after ++ gap) ↔ IsMark c ∧ c ∈ before ++ after := by
          refine and_congr_right fun hm => ?_
          rw [← List.append_assoc, List.mem_append]
          exact or_iff_left fun hc => h c hc hm
        simp only [quotationAfter, hmem]
      | some mark => rfl
    rw [quotationAt, quotationAt, hafter, ih]

theorem not_isMark_of_isBlank {c : Char} (h : isBlank c = true) : ¬ IsMark c := by
  rintro (rfl | rfl) <;> contradiction

def comparisonSigns : Text :=
  "=!<>"

/-- Whether every equals sign outside quotations is that of a comparison. -/
def OnlyCompares (text : Text) : Prop :=
  ∀ before after, text = before ++ after → after.head? = some '=' →
    quotationAt none before after = none →
    before.getLast?.any (· ∈ comparisonSigns) = true ∨ after.tail.head? = some '='

/-- Whether no pair of a name and a value begins after a blank in a quotation. -/
def QuotesNoPair (text : Text) : Prop :=
  ∀ before after, text = before ++ after → (quotationAt none before after).isSome = true →
    before.getLast?.any isBlank = true → Attribute.read? after = none

theorem forall_splits_iff {p : Text → Text → Prop} :
    (∀ before after, text = before ++ after → p before after) ↔
      ∀ n < text.length + 1, p (text.take n) (text.drop n) := by
  constructor
  · exact fun h n _ => h _ _ (List.take_append_drop n text).symm
  · rintro h before after rfl
    have hp := h before.length (by rw [List.length_append]; omega)
    rwa [List.take_left, List.drop_left] at hp

instance (text : Text) : Decidable text.OnlyCompares :=
  decidable_of_iff (∀ n < text.length + 1, _) forall_splits_iff.symm

instance (text : Text) : Decidable text.QuotesNoPair :=
  decidable_of_iff (∀ n < text.length + 1, _) forall_splits_iff.symm

theorem any_getLast?_append {p : Char → Bool} (h : (before ++ after).getLast?.any p = true) :
    after.getLast?.any p = true ∨ after = [] ∧ before.getLast?.any p = true := by
  cases hl : after.getLast? with
  | none =>
    obtain rfl := List.getLast?_eq_none_iff.1 hl
    rw [List.append_nil] at h
    exact .inr ⟨rfl, h⟩
  | some c =>
    rw [List.getLast?_append, hl] at h
    exact .inl h

theorem exists_of_any_getLast? {p : Char → Bool} (h : text.getLast?.any p = true) :
    ∃ c ∈ text, p c = true := by
  obtain ⟨c, hc, hp⟩ := (Option.any_eq_true ..).1 h
  exact ⟨c, List.mem_of_getLast? hc, hp⟩

theorem OnlyCompares.strip (h : text.OnlyCompares) : (strip text).OnlyCompares := by
  obtain ⟨lead, trail, htext, hl, ht⟩ := exists_around_strip text
  have hunmarked {gap : Text} (hg : ∀ c ∈ gap, isBlank c = true) : ∀ c ∈ gap, ¬ IsMark c :=
    fun c hc => not_isMark_of_isBlank (hg c hc)
  intro before after he hequals hq
  obtain ⟨rest, rfl⟩ := List.head?_eq_some_iff.1 hequals
  have hsplit : text = (lead ++ before) ++ ('=' :: (rest ++ trail)) := by
    rw [htext, he, List.append_assoc, List.append_assoc, List.cons_append]
  have hquotation : quotationAt none (lead ++ before) ('=' :: (rest ++ trail)) = none := by
    rw [quotationAt_append, quotationAt_none (hunmarked hl), ← List.cons_append,
      quotationAt_append_right (hunmarked ht), hq]
  rcases h _ _ hsplit rfl hquotation with hlast | hnext
  · rcases any_getLast?_append hlast with hlast | ⟨-, hlead⟩
    · exact .inl hlast
    · obtain ⟨c, hc, hsign⟩ := exists_of_any_getLast? hlead
      have hsigns : ∀ d ∈ comparisonSigns, isBlank d = false := by decide
      have hblank := hl c hc
      rw [hsigns c (of_decide_eq_true hsign)] at hblank
      contradiction
  · right
    cases rest with
    | nil =>
      obtain ⟨after, rfl⟩ := List.head?_eq_some_iff.1 hnext
      exact absurd (ht '=' List.mem_cons_self) (by decide)
    | cons d rest => exact hnext

open Attribute (read? isNameChar) in
theorem OnlyCompares.read?_eq_none (h : text.OnlyCompares) (he : text = before ++ after)
    (hq : quotationAt none before after = none) : read? after = none := by
  cases hread : read? after with
  | none => rfl
  | some found =>
    obtain ⟨⟨name, value⟩, rest⟩ := found
    obtain ⟨blanks, more, rfl, hne, hname, hb, hdouble, -⟩ := Attribute.exists_of_read? hread
    have hgap : ∀ c ∈ name ++ blanks, ¬ IsMark c ∧ c ∉ comparisonSigns := by
      have hnot :
          ∀ d ∈ '"' :: '\'' :: comparisonSigns, isNameChar d = false ∧ isBlank d = false := by
        decide
      intro c hc
      have hout : c ∉ '"' :: '\'' :: comparisonSigns := by
        intro hm
        rcases List.mem_append.1 hc with hc | hc
        · exact absurd (hname c hc) (by simp [hnot c hm])
        · exact absurd (hb c hc) (by simp [hnot c hm])
      simp only [List.mem_cons, not_or] at hout
      exact ⟨not_or.2 ⟨hout.1, hout.2.1⟩, hout.2.2⟩
    have hquotation : quotationAt none (before ++ (name ++ blanks)) ('=' :: more) = none := by
      rw [quotationAt_append, List.append_assoc, hq]
      exact quotationAt_none (fun c hc => (hgap c hc).1) _
    rcases h (before ++ (name ++ blanks)) ('=' :: more) (by rw [he]; simp) rfl hquotation
      with hc | hc
    · rcases any_getLast?_append hc with hlast | ⟨hnil, -⟩
      · obtain ⟨c, hc, hsign⟩ := exists_of_any_getLast? hlast
        exact absurd (of_decide_eq_true hsign) (hgap c hc).2
      · exact absurd (List.append_eq_nil_iff.1 hnil).1 hne
    · exact absurd hc hdouble

end Text

namespace Attribute

variable {text : Text}

theorem pairsFrom_of_onlyCompares (h : text.OnlyCompares) :
    pairsFrom true text = [] ↔ text.QuotesNoPair := by
  rw [pairsFrom_eq_nil_iff]
  constructor
  · rintro ⟨-, h⟩ before after he - hblank
    exact h before after he hblank
  · intro hquotes
    refine ⟨fun _ => h.read?_eq_none (List.nil_append text).symm rfl,
      fun before after he hblank => ?_⟩
    cases hq : Text.quotationAt none before after with
    | none => exact h.read?_eq_none he hq
    | some mark => exact hquotes before after he (hq ▸ rfl) hblank

/-- A text is the value of the default attribute just if it gives no pairs, for no value that is
read is the whole text. -/
theorem parse_eq_default_iff (hf : text.IsFilled) (key : Text) :
    parse text (some key) = Table.ofList [(key, Text.strip text)] ↔
      key ≠ [] ∧ pairsFrom true (Text.strip text) = [] := by
  have hnodup : ([(key, Text.strip text)].map Prod.fst).Nodup := List.nodup_singleton key
  have hvalue : (Table.ofList [(key, Text.strip text)]).get? key = some (Text.strip text) :=
    (Table.get?_ofList hnodup key).trans List.lookup_cons_self
  obtain ⟨c, rest, hc⟩ := List.exists_cons_of_ne_nil (Text.strip_ne_nil hf)
  cases hp : pairsFrom true (Text.strip text) with
  | nil =>
    cases key with
    | nil =>
      refine iff_of_false (fun h => ?_) (fun h => h.1 rfl)
      rw [← h] at hvalue
      unfold parse at hvalue
      dsimp only at hvalue
      rw [hp, hc] at hvalue
      contradiction
    | cons d key =>
      refine iff_of_true ?_ ⟨List.cons_ne_nil _ _, rfl⟩
      unfold parse
      dsimp only
      rw [hp, hc]
  | cons pair pairs =>
    refine iff_of_false (fun h => ?_) (fun h => List.cons_ne_nil _ _ h.2)
    have hshort : (parse text (some key)).Every (·.length < (Text.strip text).length) := by
      rw [parse_of_pairsFrom (hp ▸ List.cons_ne_nil _ _)]
      apply Table.every_ofList
      intro entry hentry
      obtain ⟨⟨name, value⟩, hm, rfl⟩ := List.mem_map.1 hentry
      obtain ⟨after, rest, hsuffix, hread⟩ := exists_of_mem_pairsFrom hm
      exact Nat.lt_of_lt_of_le (length_lt_of_read? hread) hsuffix.length_le
    exact Nat.lt_irrefl _ (hshort key _ (h ▸ hvalue))

end Attribute

namespace Standard

open Expression (toTarget toTarget_strip quote)

variable {table : Attributes} {key value : Text} {attributes : List (Text × Option Text)}

/-- What nodes become by their names if bare text is all that their head tags say. -/
def ofBare (suffix text inner : Text) : List (Text × Text) :=
  [("if", Target.statement ("if " ++ toTarget text) ++ inner ++ Target.statement "endif"),
    ("elseif", Target.statement ("elif " ++ toTarget text)),
    ("list", Target.statement ("for value in " ++ toTarget text) ++ inner ++
      Target.statement "endfor"),
    ("include", Target.statement ("include " ++ quote (withSuffix (Text.strip text) suffix))),
    ("assign", Target.statement ("set " ++ toTarget text ++ " = none"))]

theorem need_eq_ok (h : table.Hold attributes) (hm : (key, some value) ∈ attributes) :
    need table key = .ok value := by
  rw [need, h key _ hm]
  rfl

theorem given_eq_otherwise (h : table.Hold attributes) (key : Text) (hm : (key, none) ∈ attributes)
    (otherwise : Text) : given table key otherwise = otherwise := by
  rw [given, h key _ hm]
  rfl

end Standard

namespace Engine

open Standard

variable {engine : Engine} {suffix source name inner out : Text} {root node : Node}

theorem get?_attributesOf_bare {first : Text} {others : List Text}
    (hknown : knownAttributes.get? name = some (first :: others)) (hfirst : first ≠ [])
    (hf : node.argumentText.IsFilled)
    (hp : Attribute.pairsFrom true (Text.strip node.argumentText) = []) (key : Text) :
    (node.attributesOf name).get? key =
      ([(first, Text.strip node.argumentText)].lookup key).or
        (if key ∈ first :: others then some [] else none) := by
  have hparse := (Attribute.parse_eq_default_iff hf first).2 ⟨hfirst, hp⟩
  have hnodup : ([(first, Text.strip node.argumentText)].map Prod.fst).Nodup :=
    List.nodup_singleton first
  rw [Node.attributesOf, hknown, Compiler.get?_readAttributes, Option.getD_some, List.head?_cons,
    hparse, Table.get?_ofList hnodup]

variable [Marker.Serials]

/-- A node whose head tag gives no pairs has the text of the tag as its first attribute and no
other. -/
theorem exists_given_bare (hd : engine.delimiters.node.IsProper)
    (ht : engine.tree .node source = .ok root) (hn : node ∈ root.preorder)
    (hname : node.name = some name) (hb : node.bodyOutcome (.standard suffix) = .ok inner)
    {content : Node → Except Error Text}
    (hroutine : (Compiler.standard suffix).routines.get? (Registry.nodeRoutine name) =
      some (Compiler.writing content))
    {first : Text} {others : List Text}
    (hknown : knownAttributes.get? name = some (first :: others))
    (hrequired : requiredAttributes.get? name = some [first]) (hfirst : first ≠ [] ∧ first ∉ others)
    (hf : node.argumentText.IsFilled)
    (hp : Attribute.pairsFrom true (Text.strip node.argumentText) = []) :
    ∃ given : Node, node.compileContent (.standard suffix) = content given ∧
      given.givenAttributes.Hold
        ((first, some (Text.strip node.argumentText)) :: others.map fun key => (key, none)) ∧
      given.bodyContent = inner := by
  have hget := get?_attributesOf_bare hknown hfirst.1 hf hp
  have hvalue : (node.attributesOf name).get? first = some (Text.strip node.argumentText) := by
    rw [hget, List.lookup_cons_self]
    rfl
  have hpresent : ∀ key ∈ (requiredAttributes.get? name).getD [],
      Compiler.isMissing (node.attributesOf name) key = false := by
    rw [hrequired]
    refine List.forall_mem_singleton.2 ?_
    obtain ⟨c, rest, hc⟩ := List.exists_cons_of_ne_nil (Text.strip_ne_nil hf)
    rw [Compiler.isMissing, hvalue, hc]
  obtain ⟨given, hgiven, hattributes, hbody⟩ := exists_given hd ht hn hname hroutine hpresent hb
  refine ⟨given, hgiven, ?_, hbody⟩
  intro key value? hm
  rw [hattributes, Table.get?_map]
  rcases List.mem_cons.1 hm with hm | hm
  · cases hm
    rw [hvalue]
    rfl
  · obtain ⟨other, ho, he⟩ := List.mem_map.1 hm
    cases he
    have hne : key ≠ first := by
      rintro rfl
      exact hfirst.2 ho
    rw [hget, List.lookup_cons, beq_false_of_ne hne, if_pos (List.mem_cons_of_mem _ ho)]
    rfl

/-- A node whose head tag gives no pairs is compiled with the text of the tag. -/
theorem compileContent_bare (hd : engine.delimiters.node.IsProper)
    (ht : engine.tree .node source = .ok root) (hn : node ∈ root.preorder)
    (hname : node.name = some name) (hb : node.bodyOutcome (.standard suffix) = .ok inner)
    (hf : node.argumentText.IsFilled)
    (hp : Attribute.pairsFrom true (Text.strip node.argumentText) = [])
    (hm : (name, out) ∈ ofBare suffix node.argumentText inner) :
    node.compileContent (.standard suffix) = .ok out := by
  have hstrip := Expression.toTarget_strip node.argumentText
  have hget := Compiler.get?_standard suffix
  simp only [ofBare, List.mem_cons, Prod.mk.injEq, List.not_mem_nil, or_false] at hm
  rcases hm with ⟨rfl, rfl⟩ | ⟨rfl, rfl⟩ | ⟨rfl, rfl⟩ | ⟨rfl, rfl⟩ | ⟨rfl, rfl⟩
  · obtain ⟨given, hgiven, hhold, rfl⟩ :=
      exists_given_bare hd ht hn hname hb ((hget _).trans rfl) rfl rfl (by decide) hf hp
    rw [hgiven, ifNode, need_eq_ok hhold List.mem_cons_self, ← hstrip]
    rfl
  · obtain ⟨given, hgiven, hhold, rfl⟩ :=
      exists_given_bare hd ht hn hname hb ((hget _).trans rfl) rfl rfl (by decide) hf hp
    rw [hgiven, elseifNode, need_eq_ok hhold List.mem_cons_self, ← hstrip]
    rfl
  · obtain ⟨given, hgiven, hhold, rfl⟩ :=
      exists_given_bare hd ht hn hname hb ((hget _).trans rfl) rfl rfl (by decide) hf hp
    rw [hgiven, listNode, need_eq_ok hhold List.mem_cons_self, ← hstrip]
    dsimp only
    rw [given_eq_otherwise hhold "key" (by simp),
      given_eq_otherwise hhold "value" (by simp),
      given_eq_otherwise hhold "index" (by simp)]
    have hnone : Expression.toTarget [] = [] := rfl
    have hvalue : Expression.toTarget "value" = "value" := by decide
    simp only [hnone, hvalue, if_true, List.append_nil]
    rfl
  · obtain ⟨given, hgiven, hhold, rfl⟩ :=
      exists_given_bare hd ht hn hname hb ((hget _).trans rfl) rfl rfl (by decide) hf hp
    have hheld : given.givenAttributes.Hold
        (Inclusion.attributes (Text.strip node.argumentText) none) := hhold
    rw [hgiven, Inclusion.includeNode_eq hheld, Text.strip_strip]
    rfl
  · obtain ⟨given, hgiven, hhold, rfl⟩ :=
      exists_given_bare hd ht hn hname hb ((hget _).trans rfl) rfl rfl (by decide) hf hp
    rw [hgiven, assignNode, need_eq_ok hhold List.mem_cons_self, ← hstrip]
    dsimp only
    rw [given_eq_otherwise hhold "value" (by simp)]
    have hnone : Expression.toTarget "none" = "none" := by decide
    simp only [hnone, List.append_assoc]
    rfl

end Engine

namespace Attribute

variable {text : Text}

section

variable [Marker.Serials]

/-- In a text where every equals sign outside quotations is that of a comparison, no pair is read
just if none begins after a blank in a quotation. Then the text is the value of the default
attribute, and a node whose head tag says nothing else is compiled with it. -/
theorem parse_of_onlyCompares (hf : text.IsFilled) (hc : text.OnlyCompares) :
    (∀ key, parse text (some key) = Table.ofList [(key, Text.strip text)] ↔
      key ≠ [] ∧ (Text.strip text).QuotesNoPair) ∧
    ((Text.strip text).QuotesNoPair → ∀ (engine : Engine) (suffix source : Text) (root : Node),
      engine.delimiters.node.IsProper → engine.tree .node source = .ok root →
      ∀ node ∈ root.preorder, node.argumentText = text →
      ∀ name inner out, node.name = some name → node.bodyOutcome (.standard suffix) = .ok inner →
        (name, out) ∈ Standard.ofBare suffix text inner →
        node.compileContent (.standard suffix) = .ok out) := by
  have hpairs := pairsFrom_of_onlyCompares hc.strip
  constructor
  · intro key
    rw [parse_eq_default_iff hf, hpairs]
  · rintro hquotes engine suffix source root hd ht node hn rfl name inner out hname hb hm
    exact Engine.compileContent_bare hd ht hn hname hb hf (hpairs.2 hquotes) hm

end

attribute [local instance] Marker.Serials.sample

theorem parse_of_onlyCompares_quotedSign :
    Text.IsFilled "x == \"a=1\"" ∧ Text.OnlyCompares "x == \"a=1\"" ∧
      (parse "x == \"a=1\"" (some "condition")).entries =
      [("condition".toList, "x == \"a=1\"".toList)] ∧
      ∃ root, (Engine.standard ".html" false).tree .node "\x7b% elseif x == \"a=1\" %\x7d" =
      .ok root ∧
        ∃ node ∈ root.preorder, node.argumentText = "x == \"a=1\"" ∧
          node.compileContent (.standard ".html") = .ok "\x7b% elif x == \"a=1\" %\x7d" := by
  have hf : Text.IsFilled "x == \"a=1\"" := by decide
  have hc : Text.OnlyCompares "x == \"a=1\"" := by decide
  have hquotes : (Text.strip "x == \"a=1\"").QuotesNoPair := by decide
  have hheads : ((Engine.standard ".html" false).tree .node
      "\x7b% elseif x == \"a=1\" %\x7d").map Node.loneHeads = .ok [("elseif", "x == \"a=1\"")] := by
    cbv
  obtain ⟨root, ht, node, hn, hname, hargument, hbody⟩ := Node.exists_of_loneHeads hheads
  obtain ⟨hparse, hnodes⟩ := parse_of_onlyCompares hf hc
  refine ⟨hf, hc, ?_, root, ht, node, hn, hargument, ?_⟩
  · rw [(hparse "condition").2 ⟨by decide, hquotes⟩]
    decide
  · have hout : ("elseif".toList, "\x7b% elif x == \"a=1\" %\x7d".toList) ∈
        Standard.ofBare ".html" "x == \"a=1\"" [] := by decide
    exact hnodes hquotes _ ".html" _ _ (Engine.isProper_standard _ _) ht node hn hargument _ _
      _ hname
      (hbody _) hout

/-- A quotation in which a pair begins after a blank. -/
theorem parse_quotedPair :
    Text.IsFilled "x == \"n a=1\"" ∧ Text.OnlyCompares "x == \"n a=1\"" ∧
      (parse "x == \"n a=1\"" (some "condition")).entries = [("a".toList, "1".toList)] ∧
      parse "x == \"n a=1\"" (some "condition") ≠
        Table.ofList [("condition".toList, Text.strip "x == \"n a=1\"")] := by
  have hparse :
      (parse "x == \"n a=1\"" (some "condition")).entries = [("a".toList, "1".toList)] := by
    cbv
  refine ⟨by decide, by decide, hparse, fun h => ?_⟩
  rw [h] at hparse
  contradiction

end Attribute

end ThemeMarkup
