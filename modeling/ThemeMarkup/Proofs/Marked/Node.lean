import ThemeMarkup.Proofs.Marked.Tag
import ThemeMarkup.Proofs.StandardPass

namespace ThemeMarkup

open Marker (Marked)
open Node (substituted)
open Standard (knownAttributes requiredAttributes)

variable {Holds : Marker → Text → Prop} {Bad : Error → Prop} {suffix text : Text} {head tail : Tag}

variable [Marker.Serials]

def Tag.lacking (head : Tag) (key : Text) : Error :=
  .tag { fault := .missingAttribute head.name key, span := head.span }

namespace Node

variable {compiler : Compiler} {children : List Node}

/-- Compiled nodes that are put in the place of texts between braces cut no marker. -/
theorem meets_substituted (h : Marked .hashes Holds text)
    (hc : ∀ child ∈ children, child.source.IsBraced ∧
      Except.Meets (fun out => Marked .start Holds out ∧ out.IsBraced) Bad
      (child.compileContent compiler)) :
    Except.Meets (Marked .start Holds) Bad (substituted compiler text children) := by
  induction children generalizing text with
  | nil =>
    rw [substituted_nil]
    exact h.mono (by decide) fun _ _ holds => holds
  | cons child children ih =>
    obtain ⟨⟨hbraced, hchild⟩, hrest⟩ := List.forall_mem_cons.1 hc
    cases hcut : Text.cut? child.source text with
    | none =>
      rw [substituted_cons_of_none hcut]
      exact hchild.bind fun _ _ => ih h hrest
    | some parts =>
      obtain ⟨before, rest⟩ := parts
      rw [substituted_cons hcut]
      rw [← Text.append_of_cut? hcut, List.append_assoc] at h
      obtain ⟨hbefore, hafter⟩ := h.of_append (hbraced.seam_before_append before rest)
      have hmore := ih (hafter.of_append (hbraced.seam_after rest)).2 hrest
      apply hchild.bind
      rintro content ⟨hcontent, hends⟩
      apply hmore.bind
      intro after hafter
      have hweak : Marked .start Holds before := hbefore.mono (by decide) fun _ _ holds => holds
      change Marked .start Holds (before ++ content ++ after)
      rw [List.append_assoc]
      exact hweak.append (hcontent.append hafter (hends.seam_after after))
        (hends.seam_before_append before after)

end Node

/-- The attributes that a head tag gives to its node, or the error of the tag if it lacks one. -/
def Tag.attributes (head : Tag) : Except Error (Table Text) :=
  let table := Compiler.readAttributes ((knownAttributes.get? head.name).getD []) head.argument
  match ((requiredAttributes.get? head.name).getD []).find? (Compiler.isMissing table) with
  | some key => .error (head.lacking key)
  | none => .ok table

theorem Tag.meets_attributes (h : head.Carries Holds) :
    Except.Meets (fun table => (∀ key ∈ (knownAttributes.get? head.name).getD [],
        (table.get? key).isSome = true) ∧ table.Every (Marked .hashes Holds))
      (fun e => ∃ key, e = head.lacking key) head.attributes := by
  unfold attributes
  dsimp only
  split
  · next key _ => exact ⟨key, rfl⟩
  · constructor
    · intro key hk
      rw [Compiler.get?_readAttributes, if_pos hk, Option.isSome_or]
      exact Bool.or_true _
    · exact Compiler.every_readAttributes h.argument (.plain (by decide)) _

namespace Pairing

variable {table : Table Text} {inner : List Node} {body : Text} {e : Error}
  {content : Node → Except Error Text}

theorem apply_attributeNode (suffix : Text) (head : Tag) :
    (Compiler.standard suffix).apply (attributeNode head) =
      head.attributes.map fun table =>
        { (attributeNode head).toPiece with attributes := table.map some } := by
  have hroutine : (Compiler.standard suffix).routines.get? "attributeNode" =
      some (Compiler.attributeRoutine knownAttributes requiredAttributes) :=
    (Compiler.get?_standard ..).trans rfl
  rw [Compiler.apply]
  simp only [attributeNode, hroutine, Compiler.attributeRoutine, Option.getD_some, Tag.attributes]
  generalize ((requiredAttributes.get? head.name).getD []).find? _ = missing
  cases missing with
  | none => rfl
  | some key => rfl

theorem compile_attributeNode (suffix : Text) (h : head.attributes = .ok table) :
    (attributeNode head).compile (.standard suffix) =
      ⟨⟨{ (attributeNode head).toPiece with attributes := table.map some }, []⟩, none⟩ := by
  apply Node.compile_leaf
  exact (apply_attributeNode suffix head).trans (by rw [h]; rfl)

theorem compileContent_attributeNode (suffix : Text) (h : head.attributes = .error e) :
    (attributeNode head).compileContent (.standard suffix) = .error e := by
  apply Node.compileContent_leaf_error
  exact (apply_attributeNode suffix head).trans (by rw [h]; rfl)

theorem exists_loneNode (text : Text)
    (hw : (Compiler.standard suffix).routines.get? (Registry.nodeRoutine head.name) =
      some (Compiler.writing content)) (h : head.attributes = .ok table) :
    ∃ node : Node, (loneNode text head).compileContent (.standard suffix) = content node ∧
      node.givenAttributes = table.map some ∧ node.bodyContent = [] := by
  obtain ⟨given, hchildren⟩ :=
    Node.compileChildren_of_forall₂ head.argument (.cons (compile_attributeNode suffix h) .nil)
  have hr : (loneNode text head).routine = some (Registry.nodeRoutine head.name) := rfl
  exact ⟨_, Node.compileContent_of_writing hr hw hchildren, rfl, rfl⟩

theorem loneNode_of_error (suffix text : Text) (h : head.attributes = .error e) :
    (loneNode text head).compileContent (.standard suffix) = .error e := by
  have hchildren : (loneNode text head).children = [] ++ attributeNode head :: [] := rfl
  exact Node.compileContent_of_child_error hchildren .nil (compileContent_attributeNode suffix h)

theorem exists_pairNode (hw : (Compiler.standard suffix).routines.get?
    (Registry.nodeRoutine head.name) =
      some (Compiler.writing content)) (h : head.attributes = .ok table)
    (hb : substituted (.standard suffix) (text.slice (head.span.last + 1) tail.span.first) inner =
      .ok body)
    (he : text.slice (head.span.last + 1) tail.span.first = [] → inner = []) :
    ∃ node : Node, (pairNode text head tail inner).compileContent (.standard suffix) =
      content node ∧
      node.givenAttributes = table.map some ∧ node.bodyContent = body := by
  have hempty : text.slice (head.span.last + 1) tail.span.first = [] → body = [] := by
    intro hslice
    rw [hslice, he hslice, Node.substituted_nil] at hb
    exact (Except.ok.inj hb).symm
  obtain ⟨compiled, hbodies, hcontent⟩ := exists_compiled_bodyNodes hb hempty
  obtain ⟨given, hchildren⟩ := Node.compileChildren_of_forall₂
    (text.slice head.span.first (tail.span.last + 1))
    (.cons (compile_attributeNode suffix h) hbodies)
  have hr : (pairNode text head tail inner).routine = some (Registry.nodeRoutine head.name) := rfl
  refine ⟨_, Node.compileContent_of_writing hr hw hchildren, rfl, ?_⟩
  rw [Node.bodyContent_cons_of_not rfl, hcontent]

theorem pairNode_of_error (h : head.attributes = .error e) :
    (pairNode text head tail inner).compileContent (.standard suffix) = .error e := by
  have hchildren : (pairNode text head tail inner).children =
      [] ++ attributeNode head :: (bodyNodes text head tail).map (·.withChildren inner) := rfl
  exact Node.compileContent_of_child_error hchildren .nil (compileContent_attributeNode suffix h)

theorem pairNode_of_body_error (h : head.attributes = .ok table)
    (hb : substituted (.standard suffix) (text.slice (head.span.last + 1) tail.span.first) inner =
      .error e)
    (he : text.slice (head.span.last + 1) tail.span.first = [] → inner = []) :
    (pairNode text head tail inner).compileContent (.standard suffix) = .error e := by
  have hslice : text.slice (head.span.last + 1) tail.span.first ≠ [] := by
    intro hn
    rw [hn, he hn, Node.substituted_nil] at hb
    contradiction
  have hbodies : bodyNodes text head tail = [bodyNode text head tail] := by
    rw [bodyNodes]
    split
    · contradiction
    · rfl
  have hchildren : (pairNode text head tail inner).children =
      [attributeNode head] ++ (bodyNode text head tail).withChildren inner :: [] := by
    simp only [pairNode, hbodies]
    rfl
  have herror : ((bodyNode text head tail).withChildren inner).compileContent (.standard suffix) =
      .error e := (Node.compileContent_of_routine rfl).trans hb
  exact Node.compileContent_of_child_error hchildren (.cons (compile_attributeNode suffix h) .nil)
    herror

theorem meets_loneNode (hs : Text.Unmarked suffix) (h : head.Carries Holds)
    (hb : ∀ key, Bad (head.lacking key)) (text : Text) :
    Except.Meets (fun out => Marked .start Holds out ∧ out.IsBraced) Bad
      ((loneNode text head).compileContent (.standard suffix)) := by
  have hattributes := Tag.meets_attributes h
  cases ha : head.attributes with
  | error e =>
    rw [ha] at hattributes
    obtain ⟨key, rfl⟩ := hattributes
    rw [loneNode_of_error suffix text ha]
    exact hb key
  | ok table =>
    rw [ha] at hattributes
    obtain ⟨content, hroutine, hwrites⟩ := Standard.exists_routine hs Holds h.name
    obtain ⟨node, hnode, hgiven, hbody⟩ := exists_loneNode text hroutine ha
    have hempty : Marked .start Holds node.bodyContent := hbody ▸ .plain (by decide)
    obtain ⟨out, hout, hmarked⟩ := hwrites node ⟨⟨table, hgiven, hattributes⟩, hempty⟩
    rw [hnode, hout]
    exact hmarked

theorem meets_pairNode (hs : Text.Unmarked suffix) (h : head.Carries Holds)
    (hb : ∀ key, Bad (head.lacking key))
    (hi : Except.Meets (Marked .start Holds) Bad (substituted (.standard suffix)
      (text.slice (head.span.last + 1) tail.span.first) inner))
    (he : text.slice (head.span.last + 1) tail.span.first = [] → inner = []) :
    Except.Meets (fun out => Marked .start Holds out ∧ out.IsBraced) Bad
      ((pairNode text head tail inner).compileContent (.standard suffix)) := by
  have hattributes := Tag.meets_attributes h
  cases ha : head.attributes with
  | error e =>
    rw [ha] at hattributes
    obtain ⟨key, rfl⟩ := hattributes
    rw [pairNode_of_error ha]
    exact hb key
  | ok table =>
    rw [ha] at hattributes
    cases hbody : substituted (.standard suffix) (text.slice (head.span.last + 1) tail.span.first)
        inner with
    | error e =>
      rw [hbody] at hi
      rw [pairNode_of_body_error ha hbody he]
      exact hi
    | ok body =>
      rw [hbody] at hi
      obtain ⟨content, hroutine, hwrites⟩ := Standard.exists_routine hs Holds h.name
      obtain ⟨node, hnode, hgiven, hcontent⟩ := exists_pairNode hroutine ha hbody he
      obtain ⟨out, hout, hmarked⟩ := hwrites node ⟨⟨table, hgiven, hattributes⟩, hcontent.symm ▸ hi⟩
      rw [hnode, hout]
      exact hmarked

end Pairing

namespace Forest

variable {registry : Registry} {strict : Bool} {d : Delimiters} {names : List Text} {lo hi : Int}
  {f : Forest}

/-- All nodes of a forest stand between braces and compile to marked text between braces, unless one
of its head tags lacks an attribute. -/
theorem meets_nodes {waiting : Option Tag} (hs : Text.Unmarked suffix)
    (ht : Marked .hashes Holds text)
    (hr : Tag.Row d names text lo hi f.tags) (hm : Matched registry strict waiting f)
    (hc : ∀ tag ∈ f.tags, tag.Carries Holds)
    (hb : ∀ head ∈ f.tags, head.kind = .head → ∀ key, Bad (head.lacking key)) :
    ∀ node ∈ f.nodes text, node.source.IsBraced ∧
      Except.Meets (fun out => Marked .start Holds out ∧ out.IsBraced) Bad
        (node.compileContent (.standard suffix)) := by
  induction f generalizing lo hi waiting with
  | nil => exact nofun
  | stray tail next ih =>
    exact ih hr.2.2.2 hm.2 (List.forall_mem_cons.1 hc).2 (List.forall_mem_cons.1 hb).2
  | lone head next ih =>
    obtain ⟨hk, -, -, hm⟩ := hm
    obtain ⟨hhead, hc⟩ := List.forall_mem_cons.1 hc
    obtain ⟨hlacking, hb⟩ := List.forall_mem_cons.1 hb
    intro node hn
    rcases List.mem_cons.1 hn with rfl | hn
    · exact ⟨hhead.braced, Pairing.meets_loneNode hs hhead (hlacking hk) text⟩
    · exact ih hr.2.2.2 hm hc hb node hn
  | pair head inner tail next ihi ih =>
    obtain ⟨hk, -, -, -, hmi, hm⟩ := hm
    obtain ⟨-, -, hh, hr⟩ := hr
    obtain ⟨hri, ht', hr⟩ := Tag.row_append_cons.1 hr
    obtain ⟨hhead, hc⟩ := List.forall_mem_cons.1 hc
    obtain ⟨hlacking, hb⟩ := List.forall_mem_cons.1 hb
    obtain ⟨hci, hc⟩ := List.forall_mem_append.1 hc
    obtain ⟨hbi, hb⟩ := List.forall_mem_append.1 hb
    obtain ⟨htail, hc⟩ := List.forall_mem_cons.1 hc
    intro node hn
    rcases List.mem_cons.1 hn with rfl | hn
    · have hlt := Int.add_one_le_iff.1 hri.le
      obtain ⟨hbraced, hbody⟩ :=
        Pairing.marked_pairNode hh ht' hlt hhead.braced htail.braced ht (inner.nodes text)
      exact ⟨hbraced, Pairing.meets_pairNode hs hhead (hlacking hk)
        (Node.meets_substituted hbody (ihi hri hmi hci hbi)) (nodes_of_slice_eq_nil hh ht' hri)⟩
    · exact ih hr hm hc (List.forall_mem_cons.1 hb).2 node hn

end Forest

/-- The third pass ends in marked text or in the error of a head tag, which has no tail tag or lacks
an attribute. -/
theorem Engine.meets_runPass_node (hs : Text.Unmarked suffix) (strict : Bool)
    (h : Marked .hashes Holds text) :
    ∃ tags, Tag.scan (Compiler.standard suffix).registry .usual text = .ok tags ∧
      Except.Meets (Marked .start Holds)
        (fun e => ∃ head ∈ tags, head.kind = .head ∧
          (e = head.unpaired ∨ ∃ key, e = head.lacking key))
        ((standard suffix strict).runPass .node text) := by
  have hproper : Delimiters.usual.IsProper := by decide
  have hascii : ∀ name ∈ Standard.nodeTags.keys, ∀ c ∈ name, Text.isAscii c = true := by decide
  obtain ⟨tags, hscan⟩ := Tag.exists_scan_eq_ok Standard.codeTags hascii hproper text
  have htags : Tag.scan (Compiler.standard suffix).registry .usual text = .ok tags := hscan
  refine ⟨tags, htags, ?_⟩
  rw [runPass_node_of_scan (isProper_standard suffix strict) htags]
  cases hgrow : Forest.grow (standard suffix strict).compiler.registry
      (standard suffix strict).strict tags with
  | error e =>
    obtain ⟨head, hm, hk, -, he⟩ := Forest.unpaired_of_grow hgrow
    exact ⟨head, hm, hk, .inl he⟩
  | ok forest =>
    obtain ⟨rfl, hmatched⟩ := Forest.grow_eq_ok_iff.1 hgrow
    apply Node.meets_substituted h
    apply Forest.meets_nodes hs h (Tag.row_of_scan hproper htags) hmatched
      (Tag.carries_of_scan h htags)
    intro head hm hk key
    exact ⟨head, hm, hk, .inr ⟨key, rfl⟩⟩

end ThemeMarkup
