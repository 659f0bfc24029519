import ThemeMarkup.Proofs.Argument
import ThemeMarkup.Proofs.Marked.Compile

namespace ThemeMarkup

open Expression (toTarget quote)
open Standard (knownAttributes requiredAttributes nodeNames)

variable {suffix text template : Text} {strict : Bool} {root : Node}

namespace Attribute

variable {argument rest key value : Text}

/-- Whether a value stands between two quotes of a kind in a text. -/
def Quotes (value argument : Text) : Prop :=
  ∃ quote ∈ ['"', '\''], quote :: (value ++ [quote]) <:+: argument

theorem Quotes.of_infix (h : Quotes value text) (hi : text <:+: argument) :
    Quotes value argument := by
  obtain ⟨quote, hq, hin⟩ := h
  exact ⟨quote, hq, hin.trans hi⟩

theorem isFilled_or_of_readValue? (h : readValue? text = some (value, rest)) :
    value.IsFilled ∨ Quotes value text := by
  cases text with
  | nil => contradiction
  | cons c text =>
    rw [readValue?] at h
    split at h
    · next hc =>
      right
      rw [eq_of_readQuoted? h]
      exact ⟨c, by simpa using hc, [], rest, by simp⟩
    · split at h
      · next hc =>
        left
        cases h
        rw [isBare, Bool.and_eq_true_iff, Bool.and_eq_true_iff, Bool.not_eq_true'] at hc
        exact ⟨c, List.mem_cons_self, hc.1.1⟩
      · contradiction

theorem every_parse_isFilled (argument : Text) (default? : Option Text) :
    (parse argument default?).Every fun value => value.IsFilled ∨ Quotes value argument := by
  apply every_parse_of_pairs
  · intro hne
    left
    by_contra hblank
    apply hne
    rw [← Text.strip_strip]
    exact Text.strip_eq_nil_iff.2 hblank
  · intro ⟨name, value⟩ hpair
    obtain ⟨after, rest, hsuffix, hread⟩ := exists_of_mem_pairsFrom hpair
    obtain ⟨blanks, more, rfl, -, -, -, -, hvalue⟩ := exists_of_read? hread
    apply (isFilled_or_of_readValue? hvalue).imp_right
    intro hquotes
    have hmore : more <:+ name ++ (blanks ++ '=' :: more) := ⟨name ++ (blanks ++ ['=']), by simp⟩
    have hin : Text.stripLeft more <:+: Text.strip argument :=
      ((List.dropWhile_suffix _).trans (hmore.trans hsuffix)).isInfix
    exact hquotes.of_infix (hin.trans (Text.strip_infix argument))

end Attribute

namespace Standard

/-- What the routine of a tag writes with the value of the attribute that the tag must have. -/
inductive Writes (value : Text) : Text → Text → Prop where
  | condition (body : Text) :
      Writes value "if" (Target.statement ("if " ++ toTarget value) ++ body ++
        Target.statement "endif")
  | otherwise : Writes value "elseif" (Target.statement ("elif " ++ toTarget value))
  | loop (names access after : Text) :
      Writes value "list"
        (Target.statement ("for " ++ names ++ " in " ++ toTarget value ++ access) ++ after)
  | inclusion (ending : Text) :
      Writes value "include"
        (Target.statement ("include " ++ quote (withSuffix (Text.strip value) ending)))
  | setting (source : Text) :
      Writes value "assign" (Target.statement ("set " ++ toTarget value ++ " = " ++ source))

theorem need_map {table : Table Text} {key value : Text} (h : table.get? key = some value) :
    need (table.map some) key = .ok value := by
  rw [need, Table.get?_map, h]
  rfl

/-- Whether a routine writes, for nodes that have the attributes they must have, with their values.
-/
def WritesRequired (name : Text) (content : Node → Except Error Text) : Prop :=
  ∀ (node : Node) (table : Table Text), node.givenAttributes = table.map some →
    (∀ key ∈ (requiredAttributes.get? name).getD [], ∃ value, table.get? key = some value) →
    ∃ out, content node = .ok out ∧ ∀ key ∈ (requiredAttributes.get? name).getD [],
      ∀ value, table.get? key = some value → Writes value name out

variable {name : Text} {content : Node → Except Error Text}

theorem writesRequired_of_need (key : Text) (hr : (requiredAttributes.get? name).getD [] = [key])
    (hc : ∀ node value, need node.givenAttributes key = .ok value →
      ∃ out, content node = .ok out ∧ Writes value name out) : WritesRequired name content := by
  intro node table hg hk
  rw [hr] at hk ⊢
  obtain ⟨value, hv⟩ := hk key (List.mem_singleton_self key)
  obtain ⟨out, hout, hw⟩ := hc node value (hg ▸ need_map hv)
  refine ⟨out, hout, ?_⟩
  intro other ho value' hv'
  rw [List.mem_singleton.1 ho, hv] at hv'
  cases hv'
  exact hw

theorem writesRequired_of_none (hr : (requiredAttributes.get? name).getD [] = [])
    (inner : Text) : WritesRequired name fun _ => return Target.statement inner := by
  intro node table _ _
  rw [hr]
  exact ⟨_, rfl, nofun⟩

theorem writesRequired_ifNode : WritesRequired "if" ifNode := by
  refine writesRequired_of_need "condition" (by decide) ?_
  intro node value h
  refine ⟨_, ?_, .condition node.bodyContent⟩
  rw [ifNode, h]
  rfl

theorem writesRequired_elseifNode : WritesRequired "elseif" elseifNode := by
  refine writesRequired_of_need "condition" (by decide) ?_
  intro node value h
  refine ⟨_, ?_, .otherwise⟩
  rw [elseifNode, h]
  rfl

theorem writesRequired_includeNode (suffix : Text) :
    WritesRequired "include" (includeNode suffix) := by
  refine writesRequired_of_need "file" (by decide) ?_
  intro node value h
  refine ⟨_, ?_, .inclusion (given node.givenAttributes "ext" suffix)⟩
  rw [includeNode, h]
  rfl

theorem writesRequired_assignNode : WritesRequired "assign" assignNode := by
  refine writesRequired_of_need "name" (by decide) ?_
  intro node value h
  refine ⟨_, ?_, .setting (toTarget (given node.givenAttributes "value" "none"))⟩
  rw [assignNode, h]
  rfl

theorem writesRequired_listNode : WritesRequired "list" listNode := by
  refine writesRequired_of_need "for" (by decide) ?_
  intro node value h
  let item := toTarget (given node.givenAttributes "value" "value")
  let key := toTarget (given node.givenAttributes "key" [])
  have hloop (names access : Text) {head : Text} (after : Text)
      (he : head = "for " ++ names ++ " in " ++ toTarget value ++ access) :
      Writes value "list" (Target.statement head ++ after) := he ▸ .loop names access after
  rw [listNode, h]
  refine ⟨_, rfl, ?_⟩
  rw [List.append_assoc, List.append_assoc]
  by_cases hk : key = []
  · apply hloop item []
    rw [List.append_nil]
    exact if_pos hk
  · apply hloop (key ++ ", " ++ item) ".items()"
    rw [← List.append_assoc, ← List.append_assoc]
    exact if_neg hk

theorem mem_known_of_mem_required (hn : name ∈ nodeNames)
    (hk : key ∈ (requiredAttributes.get? name).getD []) :
    key ∈ (knownAttributes.get? name).getD [] := by
  have hall : ∀ name ∈ nodeNames, ∀ key ∈ (requiredAttributes.get? name).getD [],
      key ∈ (knownAttributes.get? name).getD [] := by decide
  exact hall name hn key hk

variable [Marker.Serials]

theorem exists_writesRequired (suffix : Text) (hn : name ∈ nodeNames) :
    ∃ content, (Compiler.standard suffix).routines.get? (Registry.nodeRoutine name) =
      some (Compiler.writing content) ∧ WritesRequired name content := by
  apply exists_writing suffix hn
  case hif => exact writesRequired_ifNode
  case helseif => exact writesRequired_elseifNode
  case hlist => exact writesRequired_listNode
  case hinclude => exact writesRequired_includeNode suffix
  case hassign => exact writesRequired_assignNode
  case helse | hbreak | hcontinue => exact writesRequired_of_none (by decide) _

end Standard

theorem findSome?_cons_or {α β : Type} (f : α → Option β) (a : α) (l : List α) :
    (a :: l).findSome? f = (f a).or (l.findSome? f) := by
  rw [List.findSome?_cons]
  cases f a <;> rfl

namespace Node

variable {compiler : Compiler} {node : Node} {name key : Text}

/-- The span of a node's head tag, which the attribute node has. -/
def headSpan (node : Node) : Span :=
  (node.children.find? (·.isAttribute)).elim node.span (·.span)

/-- The attribute that a node of some name must have and lacks. -/
def missing? (name : Text) (node : Node) : Option Text :=
  ((requiredAttributes.get? name).getD []).find? (Compiler.isMissing (node.attributesOf name))

/-- The error of a node whose head tag lacks an attribute that it must have. -/
def lacking? (node : Node) : Option TagError :=
  node.name.bind fun name => (node.missing? name).map fun key =>
    { fault := .missingAttribute name key, span := node.headSpan }

theorem isMissing_of_lacking? (h : node.lacking? = none) (hn : node.name = some name) :
    ∀ key ∈ (requiredAttributes.get? name).getD [],
      Compiler.isMissing (node.attributesOf name) key = false := by
  rw [lacking?, hn, Option.bind_some, Option.map_eq_none_iff, missing?, List.find?_eq_none] at h
  intro key hk
  exact Bool.not_eq_true _ ▸ h key hk

theorem exists_lacking? (hn : node.name = some name)
    (hk : key ∈ (requiredAttributes.get? name).getD [])
    (hm : Compiler.isMissing (node.attributesOf name) key = true) :
    ∃ e, node.lacking? = some e := by
  apply Option.isSome_iff_exists.1
  apply Option.isSome_iff_ne_none.2
  intro hnone
  rw [isMissing_of_lacking? hnone hn key hk] at hm
  contradiction

theorem get?_attributesOf_of_blank (hk : key ∈ (knownAttributes.get? name).getD [])
    (hb : ¬ node.argumentText.IsFilled) : (node.attributesOf name).get? key = some [] := by
  have hempty (default? : Option Text) : Attribute.parse node.argumentText default? = ∅ := by
    have hnone : Attribute.pairsFrom true [] = [] := by rw [Attribute.pairsFrom]
    unfold Attribute.parse
    rw [Text.strip_eq_nil_iff.2 hb]
    dsimp only
    rw [hnone]
  rw [attributesOf, Compiler.get?_readAttributes, hempty, if_pos hk]
  rfl

theorem eq_nil_or_of_get?_attributesOf {value : Text}
    (h : (node.attributesOf name).get? key = some value) :
    value = [] ∨ value.IsFilled ∨ Attribute.Quotes value node.argumentText := by
  rw [attributesOf, Compiler.get?_readAttributes, Option.or_eq_some_iff] at h
  rcases h with h | ⟨-, h⟩
  · exact .inr (Attribute.every_parse_isFilled _ _ key value h)
  · split at h
    · exact .inl (Option.some.inj h).symm
    · contradiction

/-- Whether a node has a value for an attribute and writes with it: one that is not empty, and not
blank unless it stands between quotes. -/
structure Gives [Marker.Serials] (suffix : Text) (node : Node)
    (name key value content : Text) : Prop where
  get?_eq : (node.attributesOf name).get? key = some value
  ne_nil : value ≠ []
  isFilled_or_quotes : value.IsFilled ∨ Attribute.Quotes value node.argumentText
  compileContent_eq : node.compileContent (.standard suffix) = .ok content
  writes : Standard.Writes value name content

/-- Children are compiled one after the other, up to the first that fails. -/
theorem failure?_substituted (compiler : Compiler) (text : Text) (children : List Node) :
    failure? (substituted compiler text children) =
      children.findSome? fun child => failure? (child.compileContent compiler) := by
  induction children generalizing text with
  | nil =>
    rw [substituted_nil]
    rfl
  | cons child children ih =>
    cases hcut : Text.cut? child.source text with
    | none =>
      rw [substituted_cons_of_none hcut, findSome?_cons_or]
      apply failure?_bind
      intro _ _
      exact ih text
    | some parts =>
      obtain ⟨before, rest⟩ := parts
      rw [substituted_cons hcut, findSome?_cons_or]
      apply failure?_bind
      intro content _
      rw [← ih rest]
      cases substituted compiler rest children <;> rfl

end Node

namespace Pairing

open Node

variable {head tail : Tag} {table : Table Text} {inner : List Node} {key : Text}

theorem exists_of_attributes (hn : head.name ∈ nodeNames) (h : head.attributes = .ok table) :
    ∀ key ∈ (requiredAttributes.get? head.name).getD [], ∃ value, table.get? key = some value := by
  intro key hk
  have hknown := Standard.mem_known_of_mem_required hn hk
  rw [Tag.attributes] at h
  split at h
  · contradiction
  · rw [← Except.ok.inj h, Compiler.get?_readAttributes, if_pos hknown]
    cases (Attribute.parse _ _).get? key with
    | none => exact ⟨[], rfl⟩
    | some value => exact ⟨value, rfl⟩

theorem failure?_attributes {node : Node} (hn : node.name = some head.name)
    (ha : node.argumentText = head.argument) (hs : node.headSpan = head.span) :
    failure? head.attributes = node.lacking?.map Error.tag := by
  rw [Tag.attributes, lacking?, hn, Option.bind_some, missing?, attributesOf, ha, hs]
  cases ((requiredAttributes.get? head.name).getD []).find? _ <;> rfl

variable [Marker.Serials]

theorem failure?_loneNode (suffix text : Text) (hn : head.name ∈ nodeNames) :
    failure? ((loneNode text head).compileContent (.standard suffix)) =
      (loneNode text head).lacking?.map Error.tag := by
  have hfailure : failure? head.attributes = (loneNode text head).lacking?.map Error.tag :=
    failure?_attributes rfl rfl rfl
  rw [← hfailure]
  cases ha : head.attributes with
  | error e =>
    rw [loneNode_of_error suffix text ha]
    rfl
  | ok table =>
    obtain ⟨content, hroutine, hwrites⟩ := Standard.exists_writesRequired suffix hn
    obtain ⟨node, hnode, hgiven, -⟩ := exists_loneNode text hroutine ha
    obtain ⟨out, hout, -⟩ := hwrites node table hgiven (exists_of_attributes hn ha)
    rw [hnode, hout]
    rfl

theorem failure?_pairNode (suffix : Text) (hn : head.name ∈ nodeNames)
    (he : text.slice (head.span.last + 1) tail.span.first = [] → inner = []) :
    failure? ((pairNode text head tail inner).compileContent (.standard suffix)) =
      ((pairNode text head tail inner).lacking?.map Error.tag).or
        (inner.findSome? fun node => failure? (node.compileContent (.standard suffix))) := by
  have hfailure : failure? head.attributes =
      (pairNode text head tail inner).lacking?.map Error.tag := failure?_attributes rfl rfl rfl
  rw [← hfailure, ← failure?_substituted _ (text.slice (head.span.last + 1) tail.span.first)]
  cases ha : head.attributes with
  | error e =>
    rw [pairNode_of_error ha]
    rfl
  | ok table =>
    cases hb : substituted (.standard suffix) (text.slice (head.span.last + 1) tail.span.first)
      inner with
    | error e =>
      rw [pairNode_of_body_error ha hb he]
      rfl
    | ok body =>
      obtain ⟨content, hroutine, hwrites⟩ := Standard.exists_writesRequired suffix hn
      obtain ⟨node, hnode, hgiven, -⟩ := exists_pairNode hroutine ha hb he
      obtain ⟨out, hout, -⟩ := hwrites node table hgiven (exists_of_attributes hn ha)
      rw [hnode, hout]
      rfl

end Pairing

namespace Forest

open Node Pairing

variable {d : Delimiters} {names : List Text} {lo hi : Int} {f : Forest}

theorem findSome?_preorder_loneNode (text : Text) (head : Tag) :
    (loneNode text head).preorder.findSome? lacking? = (loneNode text head).lacking? := by
  rw [preorder_loneNode, findSome?_cons_or]
  exact Option.or_none

theorem findSome?_preorder_pairNode {head tail : Tag} (hh : head.Stands d names text)
    (ht : tail.Stands d names text)
    (hf : Tag.Row d names text (head.span.last + 1) tail.span.first f.tags) :
    (pairNode text head tail (f.nodes text)).preorder.findSome? lacking? =
      (pairNode text head tail (f.nodes text)).lacking?.or
        ((preorders (f.nodes text)).findSome? lacking?) := by
  rcases Int.lt_or_eq_of_le hf.le with h | h
  · rw [preorder_pairNode_of_lt hh ht h, findSome?_cons_or]
    rfl
  · rw [preorder_pairNode_of_eq hh ht h, nodes_of_le hf (Int.le_of_eq h.symm), findSome?_cons_or]
    rfl

variable [Marker.Serials]

/-- The nodes of a forest compile up to the first that lacks an attribute. -/
theorem failure?_nodes (suffix : Text) (hr : Tag.Row d names text lo hi f.tags)
    (hn : ∀ tag ∈ f.tags, tag.name ∈ nodeNames) :
    ((f.nodes text).findSome? fun node => failure? (node.compileContent (.standard suffix))) =
      ((preorders (f.nodes text)).findSome? lacking?).map Error.tag := by
  -- a head tag is asked for its attributes before its body is compiled, as the preorder has it
  induction f generalizing lo hi with
  | nil =>
    rw [nodes, preorders_nil]
    rfl
  | stray tail next ih => exact ih hr.2.2.2 (List.forall_mem_cons.1 hn).2
  | lone head next ih =>
    obtain ⟨hhead, hn⟩ := List.forall_mem_cons.1 hn
    rw [nodes, findSome?_cons_or, failure?_loneNode suffix text hhead, ih hr.2.2.2 hn,
      preorders_cons, List.findSome?_append, findSome?_preorder_loneNode, Option.map_or]
  | pair head inner tail next ihi ih =>
    obtain ⟨-, -, hh, hr⟩ := hr
    obtain ⟨hri, ht, hr⟩ := Tag.row_append_cons.1 hr
    obtain ⟨hhead, hn⟩ := List.forall_mem_cons.1 hn
    obtain ⟨hni, hn⟩ := List.forall_mem_append.1 hn
    have hempty := nodes_of_slice_eq_nil hh ht hri
    rw [nodes, findSome?_cons_or, failure?_pairNode suffix hhead hempty, ihi hri hni,
      ih hr (List.forall_mem_cons.1 hn).2, preorders_cons, List.findSome?_append,
      findSome?_preorder_pairNode hh ht hri, Option.map_or, Option.map_or]

end Forest

namespace Engine

open Node

variable {node : Node} {name key : Text} {e : TagError}

theorem headSpan_of_hasChildren {head : Tag} {stop : Int}
    (h : HasChildren head stop node.children) :
    node.headSpan = head.span := by
  obtain ⟨argument, hargument, hspan, -, hchildren⟩ := h
  rw [headSpan, ← hspan]
  split at hchildren
  · obtain ⟨body, hchildren, -⟩ := hchildren
    rw [hchildren, List.find?_cons, hargument]
    rfl
  · rw [hchildren, List.find?_cons, hargument]
    rfl

theorem exists_bodyOutcome {compiler : Compiler} {compiled : Text}
    (hc : root.compileContent compiler = .ok compiled) (hn : node ∈ root.preorder) :
    ∃ inner, node.bodyOutcome compiler = .ok inner := by
  rw [bodyOutcome]
  cases hb : node.body? with
  | none => exact ⟨[], rfl⟩
  | some body =>
    have hchild : body ∈ node.children := List.mem_of_find?_eq_some hb
    exact exists_of_compileContent hc body (mem_preorder_of_child hn hchild)

section

variable [Marker.Serials]

theorem failure?_tree (ht : (standard suffix strict).tree .node text = .ok root) :
    failure? (root.compileContent (.standard suffix)) =
      (root.preorder.findSome? lacking?).map Error.tag := by
  obtain ⟨names, f, rfl, hrow, -, hnames⟩ := exists_forest ht
  rw [compileContent_of_routine rfl, failure?_substituted, preorder_eq, findSome?_cons_or]
  exact Forest.failure?_nodes suffix hrow hnames

theorem exists_head (ht : (standard suffix strict).tree .node text = .ok root)
    (hn : node ∈ root.preorder) (hname : node.name = some name) :
    ∃ tags, Tag.scan (Compiler.standard suffix).registry .usual text = .ok tags ∧
      ∃ head ∈ tags, head.kind = .head ∧ head.name = name ∧ node.headSpan = head.span := by
  have hd := isProper_standard suffix strict
  obtain ⟨f, hscan, hm, rfl⟩ := (tree_node_eq_ok_iff hd).1 ht
  rw [preorder_eq] at hn
  rcases List.mem_cons.1 hn with rfl | hn
  · contradiction
  · have hnamed : node.name.isSome = true := by
      rw [hname]
      rfl
    have hformed := Forest.formed_nodes (Tag.row_of_scan hd hscan) hm (List.Subset.refl _)
    obtain ⟨head, hhead, hform⟩ := exists_of_mem_right hformed (List.mem_filter.2 ⟨hn, hnamed⟩)
    obtain ⟨hmem, hkind⟩ := List.mem_filter.1 hhead
    refine ⟨f.tags, hscan, head, hmem, of_decide_eq_true hkind, ?_, ?_⟩
    · exact Option.some.inj (hform.name.symm.trans hname)
    · rcases hform.closed with ⟨-, hchildren⟩ | ⟨tail, -, -, -, -, -, hchildren⟩
      · exact headSpan_of_hasChildren hchildren
      · exact headSpan_of_hasChildren hchildren

theorem atHead_of_lacking? (ht : (standard suffix strict).tree .node text = .ok root)
    (hn : node ∈ root.preorder) (h : node.lacking? = some e) :
    (standard suffix strict).AtHead text e ∧ ∃ name key, e.fault = .missingAttribute name key := by
  obtain ⟨name, hname, h⟩ := Option.bind_eq_some_iff.1 h
  obtain ⟨key, -, rfl⟩ := Option.map_eq_some_iff.1 h
  obtain ⟨tags, hscan, head, hm, hk, rfl, hspan⟩ := exists_head ht hn hname
  exact ⟨⟨tags, hscan, head, hm, hk, hspan, .inr ⟨key, rfl⟩⟩, head.name, key, rfl⟩

theorem exists_covers_of_atHead (h : (standard suffix strict).AtHead text e) :
    ∃ source, e.span.Covers text source := by
  obtain ⟨tags, hscan, head, hm, -, hspan, -⟩ := h
  rw [hspan]
  exact ⟨head.source, ((Tag.row_of_scan (isProper_standard suffix strict) hscan).stands
    hm).1.covers⟩

theorem exists_protect (suffix : Text) (strict : Bool) (template : Text) :
    ∃ text, (standard suffix strict).protect template = .ok text := by
  have hd : ({} : DelimiterSet).code.left ≠ [] := by decide
  obtain ⟨hidden, hhidden⟩ : ∃ hidden, Found.Edits (Literal.read? .usual)
      HidesLiteral template hidden :=
    ((Literal.steady_read? .usual).scans_scanFrom 0 template).exists_edits_of_makes fun _ =>
      ⟨_, rfl⟩
  obtain ⟨text, htext⟩ : ∃ text,
      Found.Edits (Code.read? ({} : DelimiterSet).code Standard.codeNames) ProtectsCode
        hidden text := by
    apply ((Code.steady_read? hd Standard.codeNames).scans_scanFrom 0 hidden).exists_edits_of_makes
    intro text value rest hread
    obtain ⟨-, -, hname, -⟩ := Code.spells_of_read? hread
    obtain ⟨sigil, hsigil⟩ := Sigil.exists_name hname
    exact ⟨_, sigil, hsigil, rfl⟩
  refine ⟨text, ?_⟩
  rw [protect, (replaces_hideLiterals suffix strict).runPass_standard (by decide) hhidden]
  exact (replaces_code suffix strict).runPass_standard (by decide) htext

/-- A node that lacks no attribute it must have gives a value for it if the tree compiles. -/
theorem exists_gives (ht : (standard suffix strict).tree .node text = .ok root) {compiled : Text}
    (hc : root.compileContent (.standard suffix) = .ok compiled) (hn : node ∈ root.preorder)
    (hname : node.name = some name) (hk : key ∈ (requiredAttributes.get? name).getD []) :
    ∃ value content, node.Gives suffix name key value content := by
  have hlacking : root.preorder.findSome? lacking? = none := by
    have hfailure := failure?_tree ht
    rw [hc] at hfailure
    exact Option.map_eq_none_iff.1 hfailure.symm
  have hthere := isMissing_of_lacking? (List.findSome?_eq_none_iff.1 hlacking node hn) hname
  obtain ⟨tags, hscan, head, hm, -, rfl, -⟩ := exists_head ht hn hname
  have hnames := Tag.mem_nodeNames_of_scan hscan head hm
  obtain ⟨inner, hinner⟩ := exists_bodyOutcome hc hn
  obtain ⟨content, hroutine, hwrites⟩ := Standard.exists_writesRequired suffix hnames
  obtain ⟨given, hgiven, hattributes, -⟩ :=
    exists_given (isProper_standard suffix strict) ht hn hname hroutine hthere hinner
  have hvalues : ∀ key ∈ (requiredAttributes.get? head.name).getD [],
      ∃ value, (node.attributesOf head.name).get? key = some value := by
    intro key hk
    exact exists_attribute head.name key (Standard.mem_known_of_mem_required hnames hk) node
  obtain ⟨out, hout, hw⟩ := hwrites given _ hattributes hvalues
  obtain ⟨value, hvalue⟩ := hvalues key hk
  have hne : value ≠ [] := by
    rintro rfl
    have hmissing := hthere key hk
    rw [Compiler.isMissing, hvalue] at hmissing
    contradiction
  refine ⟨value, out, hvalue, hne, ?_, hgiven.trans hout, hw key hk value hvalue⟩
  exact (eq_nil_or_of_get?_attributesOf hvalue).resolve_left hne

/-- In a template that compiles every attribute that must be there has a value, which is not blank
unless blanks stand between quotes, and the expression that is written of it is empty just if it is
blank. -/
theorem required_attributes (suffix : Text) (strict : Bool) (template : Text) (file : Option Text) :
    ∃ text, (standard suffix strict).protect template = .ok text ∧
      (∀ out, (standard suffix strict).compile template file = .ok out →
        ∃ root, (standard suffix strict).tree .node text = .ok root ∧
          ∀ node ∈ root.preorder, ∀ name, node.name = some name →
            ∀ key ∈ (requiredAttributes.get? name).getD [],
              ∃ value content, node.Gives suffix name key value content ∧
                (toTarget value = [] ↔ ¬ value.IsFilled)) ∧
      ∀ root, (standard suffix strict).tree .node text = .ok root →
        ∀ node ∈ root.preorder, ∀ name, node.name = some name →
          ∀ key ∈ (requiredAttributes.get? name).getD [],
            (node.attributesOf name).get? key = some [] ∨ ¬ node.argumentText.IsFilled →
              ∃ e shown, root.preorder.findSome? lacking? = some e ∧
                (∃ name key, e.fault = .missingAttribute name key) ∧
                (standard suffix strict).AtHead text e ∧
                (standard suffix strict).compile template file = .error (.tag shown) ∧
                shown.fault = e.fault ∧
                shown.span = if text = template then e.span
                  else (e.span.relocate? text template).getD e.span := by
  obtain ⟨text, hprotect⟩ := exists_protect suffix strict template
  refine ⟨text, hprotect, ?_, ?_⟩
  · intro out hout
    cases hrun : (standard suffix strict).runPass .node text with
    | error e =>
      rw [compile_of_node_error hprotect hrun] at hout
      contradiction
    | ok compiled =>
      obtain ⟨root, ht, hcompiled⟩ := Except.bind_eq_ok_iff.1 hrun
      refine ⟨root, ht, ?_⟩
      intro node hn name hname key hk
      obtain ⟨value, content, hgives⟩ := exists_gives ht hcompiled hn hname hk
      exact ⟨value, content, hgives, Expression.toTarget_eq_nil_iff⟩
  · intro root ht node hn name hname key hk hvalue
    have hmissing : Compiler.isMissing (node.attributesOf name) key = true := by
      obtain ⟨tags, hscan, head, hm, -, rfl, -⟩ := exists_head ht hn hname
      have hknown := Standard.mem_known_of_mem_required (Tag.mem_nodeNames_of_scan hscan head hm) hk
      rw [Compiler.isMissing, hvalue.elim id (get?_attributesOf_of_blank hknown)]
    obtain ⟨other, hother⟩ := exists_lacking? hname hk hmissing
    obtain ⟨e, he⟩ : ∃ e, root.preorder.findSome? lacking? = some e := by
      apply Option.isSome_iff_exists.1
      apply List.findSome?_isSome_iff.2
      exact ⟨node, hn, hother ▸ rfl⟩
    obtain ⟨first, hfirst, hlacking⟩ := List.exists_of_findSome?_eq_some he
    obtain ⟨hhead, hfault⟩ := atHead_of_lacking? ht hfirst hlacking
    have hrun : (standard suffix strict).runPass .node text = .error (.tag e) := by
      have hfailure := failure?_tree ht
      rw [he] at hfailure
      rw [runPass, ht]
      exact failure?_eq_some_iff.1 hfailure
    obtain ⟨source, hcovers⟩ := exists_covers_of_atHead hhead
    obtain ⟨shown, hshown, hsame, hspan⟩ := exists_locate hcovers template file
    refine ⟨e, shown, he, hfault, hhead, ?_, hsame, hspan⟩
    rw [compile_of_node_error hprotect hrun, hshown]

end

/-- The attributes that the nodes of a tree must have, each with the name of the node and its value.
-/
def requirements (root : Node) : List (Text × Text × Option Text) :=
  root.preorder.flatMap fun node => node.name.elim [] fun name =>
    ((requiredAttributes.get? name).getD []).map fun key =>
      (name, key, (node.attributesOf name).get? key)

theorem exists_of_requirements {tree : Except Error Node} {found : List (Text × Text × Option Text)}
    {value? : Option Text} (h : tree.map requirements = .ok found)
    (hm : (name, key, value?) ∈ found) :
    ∃ root, tree = .ok root ∧ ∃ node ∈ root.preorder, node.name = some name ∧
      key ∈ (requiredAttributes.get? name).getD [] ∧ (node.attributesOf name).get? key =
      value? := by
  cases tree with
  | error e => contradiction
  | ok root =>
    rw [← Except.ok.inj h] at hm
    obtain ⟨node, hn, hentry⟩ := List.mem_flatMap.1 hm
    cases hname : node.name with
    | none =>
      rw [hname] at hentry
      contradiction
    | some other =>
      rw [hname] at hentry
      obtain ⟨key, hk, he⟩ := List.mem_map.1 hentry
      cases he
      exact ⟨root, rfl, node, hn, hname, hk, rfl⟩

def loopText : Text :=
  "\x7b% list for='$a->b' %\x7d\x7b% :list %\x7d"

def emptyText : Text :=
  "x\x7b% if condition=\"\" %\x7d\x7b% :if %\x7d"

attribute [local instance] Marker.Serials.sample

theorem required_attributes_list :
    (∃ root, (standard ".html" false).tree .node loopText = .ok root ∧
      (standard ".html" false).compile loopText none =
        .ok "\x7b% for value in a.b %\x7d\x7b% endfor %\x7d" ∧
      ∃ node ∈ root.preorder, ∃ content, node.Gives ".html" "list" "for" "$a->b" content) ∧
      ∃ shown, (standard ".html" false).compile emptyText none = .error (.tag shown) ∧
        shown.fault = .missingAttribute "if" "condition" ∧ shown.span = ⟨1, 21, 0, 0, 1, 21⟩ := by
  constructor
  · have hfound : ((standard ".html" false).tree .node loopText).map requirements =
        .ok [("list", "for", some "$a->b")] := by cbv
    have hcompile : (standard ".html" false).compile loopText none =
        .ok "\x7b% for value in a.b %\x7d\x7b% endfor %\x7d" := by cbv
    have hprotect : (standard ".html" false).protect loopText = .ok loopText := by cbv
    obtain ⟨root, ht, node, hn, hname, hk, hvalue⟩ :=
      exists_of_requirements hfound List.mem_cons_self
    obtain ⟨text, htext, hgives, -⟩ := required_attributes ".html" false loopText none
    obtain rfl : loopText = text := Except.ok.inj (hprotect.symm.trans htext)
    obtain ⟨root', ht', hall⟩ := hgives _ hcompile
    obtain rfl : root = root' := Except.ok.inj (ht.symm.trans ht')
    obtain ⟨value, content, hnode, -⟩ := hall node hn _ hname _ hk
    obtain rfl := Option.some.inj (hvalue.symm.trans hnode.get?_eq)
    exact ⟨root, ht, hcompile, node, hn, content, hnode⟩
  · have hfound : ((standard ".html" false).tree .node emptyText).map requirements =
        .ok [("if", "condition", some [])] := by cbv
    have hfirst : ((standard ".html" false).tree .node emptyText).map
        (fun root => root.preorder.findSome? lacking?) =
          .ok (some
            { fault := .missingAttribute "if" "condition", span := ⟨1, 21, 0, 0, 1, 21⟩ }) := by cbv
    have hprotect : (standard ".html" false).protect emptyText = .ok emptyText := by cbv
    obtain ⟨root, ht, node, hn, hname, hk, hvalue⟩ :=
      exists_of_requirements hfound List.mem_cons_self
    obtain ⟨text, htext, -, hlacks⟩ := required_attributes ".html" false emptyText none
    obtain rfl : emptyText = text := Except.ok.inj (hprotect.symm.trans htext)
    obtain ⟨e, shown, he, -, -, hshown, hfault, hspan⟩ :=
      hlacks root ht node hn _ hname _ hk (.inl hvalue)
    rw [ht] at hfirst
    obtain rfl := Option.some.inj (he.symm.trans (Except.ok.inj hfirst))
    rw [if_pos rfl] at hspan
    exact ⟨shown, hshown, hfault, hspan⟩

def blankText : Text :=
  "\x7b% if condition=\" \" %\x7dx\x7b% :if %\x7d"

/-- A blank between quotes is taken for a condition, and an empty one is written. -/
theorem compile_blankText :
    (standard ".html" false).protect blankText = .ok blankText ∧
      (standard ".html" false).compile blankText none = .ok "\x7b% if  %\x7dx\x7b% endif %\x7d" ∧
      ∃ root, (standard ".html" false).tree .node blankText = .ok root ∧
        ∃ node ∈ root.preorder, node.name = some "if" ∧
          ("condition" : Text) ∈ (requiredAttributes.get? "if").getD [] ∧
          (node.attributesOf "if").get? "condition" = some " " ∧ ¬ Text.IsFilled " " := by
  have hfound : ((standard ".html" false).tree .node blankText).map requirements =
      .ok [("if", "condition", some " ")] := by cbv
  obtain ⟨root, ht, node, hn, hname, hk, hvalue⟩ := exists_of_requirements hfound List.mem_cons_self
  exact ⟨by cbv, by cbv, root, ht, node, hn, hname, hk, hvalue, by decide⟩

end Engine

end ThemeMarkup
