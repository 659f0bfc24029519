import Mathlib
import ThemeMarkup.Compiler.Form
import ThemeMarkup.Proofs.Except
import ThemeMarkup.Proofs.Marker
import ThemeMarkup.Proofs.Node.Insert
import ThemeMarkup.Proofs.Splice
import ThemeMarkup.Proofs.Tag.Code
import ThemeMarkup.Proofs.Tag.Literal

namespace ThemeMarkup

namespace Found

variable {α : Type} {read : Text → Option (α × Text)} {text : Text} {offset : Nat}
  {finds : List (Found α)} {nodes : List Node}

def IsLeaf (text : Text) (found : Found α) (node : Node) : Prop :=
  node.source = found.source ∧ node.span = found.span text ∧ node.children = []

theorem first_span (found : Found α) (text : Text) : (found.span text).first = found.offset := rfl

theorem last_span {found : Found α} (h : found.source ≠ []) (text : Text) :
    (found.span text).last + 1 = found.offset + found.source.length := by
  have hpos := List.length_pos_iff.2 h
  simp only [span, Span.ofRange]
  omega

theorem IsLeaf.isMeasured {found : Found α} {node : Node} (h : IsLeaf text found node)
    (hn : found.source ≠ []) : node.IsMeasured := by
  rw [Node.IsMeasured, h.2.1, h.1, last_span hn, first_span]

theorem Located.inOrder (h : Located read text offset finds)
    (hl : List.Forall₂ (IsLeaf text) finds nodes) : Node.InOrder nodes := by
  obtain ⟨-, ho, hr, -⟩ := h
  induction hl with
  | nil => exact ⟨by simp, .nil⟩
  | @cons found node finds nodes hnode hnodes ih =>
    obtain ⟨ha, ho⟩ := List.pairwise_cons.1 ho
    have ih := ih ho fun f hf => hr f (List.mem_cons_of_mem _ hf)
    have hlast := last_span (hr found List.mem_cons_self).1 text
    have hpos := List.length_pos_iff.2 (hr found List.mem_cons_self).1
    refine ⟨fun n hn => ?_, .cons (fun n hn => ?_) ih.2⟩
    · rcases List.mem_cons.1 hn with rfl | hn
      · rw [Span.IsOrdered, hnode.2.1, first_span]
        omega
      · exact ih.1 n hn
    · obtain ⟨f, hf, hleaf⟩ := exists_of_mem_right hnodes hn
      have := ha f hf
      rw [hnode.2.1, hleaf.2.1, first_span]
      omega

theorem Scans.hits {rest : Text} (hr : Steady read) (h : Scans read offset rest finds)
    (hl : List.Forall₂ (IsLeaf text) finds nodes) : Node.Hits offset rest nodes := by
  induction h generalizing nodes with
  | done hs =>
    cases hl
    trivial
  | @find offset source rest value finds gap hs hn hread hm ih =>
    cases hl with
    | @cons _ node _ nodes hnode hnodes =>
      refine ⟨gap, rest, ?_, ?_, ?_⟩
      · rw [hnode.1]
        exact hr.cut?_source hs hread
      · rw [hnode.2.1, first_span]
        exact Int.natCast_add ..
      · rw [hnode.2.1, last_span hn]
        simpa using ih hnodes

end Found

namespace Engine

def begins (engine : Engine) (pass : Pass) (text : Text) : Bool :=
  let registry := engine.compiler.registry
  match pass with
  | .hideLiterals => (Literal.read? engine.delimiters.literal text).isSome
  | .code => (Code.read? engine.delimiters.code (Registry.byLength registry.code.keys) text).isSome
  | .node => (Tag.read? engine.delimiters.node (Registry.byLength registry.node.keys) text).isSome
  | .showCode => (Marker.read? .code text).isSome
  | .showLiterals => (Marker.read? .literal text).isSome

/-- The leftmost spans at which something that a pass looks for can begin, each after the end of the
one before it, as nodes. -/
structure Leftmost (engine : Engine) (pass : Pass) (text : Text) (nodes : List Node) : Prop where
  inOrder : Node.InOrder nodes
  located : ∀ node ∈ nodes, ∃ offset : Nat,
    node.span = Span.ofRange text offset node.source.length ∧ node.source ≠ [] ∧
      node.source <+: text.drop offset ∧ engine.begins pass (text.drop offset) = true
  silent : ∀ i < text.length,
    (∀ node ∈ nodes, ¬ (node.span.first ≤ i ∧ (i : Int) ≤ node.span.last)) →
      engine.begins pass (text.drop i) = false

variable {engine : Engine} {pass : Pass} {text : Text} {nodes : List Node}

theorem isLeaf_of_nodes (hp : pass ≠ .node) (hd : engine.delimiters.code.left ≠ [])
    (h : engine.nodes pass text = .ok nodes) :
    ∃ (α : Type) (read : Text → Option (α × Text)), Found.Steady read ∧
      (∀ text, engine.begins pass text = (read text).isSome) ∧
      List.Forall₂ (Found.IsLeaf text) (Found.scan read text) nodes := by
  have hmap {α : Type} (finds : List (Found α)) (leaf : Found α → Node)
      (hl : ∀ found, Found.IsLeaf text found (leaf found)) :
      List.Forall₂ (Found.IsLeaf text) finds (finds.map leaf) :=
    List.forall₂_map_right_iff.2 (List.forall₂_same.2 fun found _ => hl found)
  cases pass with
  | node => contradiction
  | hideLiterals =>
    refine ⟨_, _, Literal.steady_read? engine.delimiters.literal, fun _ => rfl, ?_⟩
    rw [← Except.ok.inj h]
    exact hmap _ _ fun _ => ⟨rfl, rfl, rfl⟩
  | showCode =>
    refine ⟨_, _, Marker.steady_read? .code, fun _ => rfl, ?_⟩
    rw [← Except.ok.inj h]
    exact hmap _ _ fun _ => ⟨rfl, rfl, rfl⟩
  | showLiterals =>
    refine ⟨_, _, Marker.steady_read? .literal, fun _ => rfl, ?_⟩
    rw [← Except.ok.inj h]
    exact hmap _ _ fun _ => ⟨rfl, rfl, rfl⟩
  | code =>
    refine ⟨_, _, Code.steady_read? hd _, fun _ => rfl, ?_⟩
    refine (Except.mapM_eq_ok_iff.1 h).imp fun found node hf => ?_
    simp only [bind, Except.bind] at hf
    split at hf
    · contradiction
    · rw [← Except.ok.inj hf]
      exact ⟨rfl, rfl, rfl⟩

theorem leftmost_of_nodes (hp : pass ≠ .node) (hd : engine.delimiters.code.left ≠ [])
    (h : engine.nodes pass text = .ok nodes) : Leftmost engine pass text nodes := by
  obtain ⟨α, read, hr, hb, hl⟩ := isLeaf_of_nodes hp hd h
  have hloc := (hr.scans_scanFrom 0 text).located text rfl
  refine ⟨hloc.inOrder hl, fun node hn => ?_, fun i hi hout => ?_⟩
  · obtain ⟨found, hf, hleaf⟩ := exists_of_mem_right hl hn
    obtain ⟨hne, rest, hdrop, hread⟩ := hloc.reads found hf
    refine ⟨found.offset, ?_, ?_, ?_, ?_⟩
    · rw [hleaf.1, hleaf.2.1, Found.span]
    · rwa [hleaf.1]
    · rw [hleaf.1, hdrop]
      exact List.prefix_append ..
    · rw [hb, hdrop, hread]
      rfl
  · rw [hb, hloc.silent i (Nat.zero_le i) hi fun found hf hin => ?_]
    · rfl
    · obtain ⟨node, hn, hleaf⟩ := exists_of_mem_right (List.Forall₂.flip hl) hf
      have hlast := Found.last_span (hloc.reads found hf).1 text
      refine hout node hn ?_
      rw [hleaf.2.1, Found.first_span]
      omega

/-- A text with the spans that a pass finds replaced, by their offsets, by what their nodes compile
to. -/
def splicePass (engine : Engine) (pass : Pass) (text : Text) : Except Error Text := do
  let nodes ← engine.nodes pass text
  let contents ← nodes.mapM (Node.compileContent engine.compiler)
  return Text.splice 0 text ((nodes.map (·.span)).zip contents)

theorem runPass_eq_splicePass (hd : engine.delimiters.code.left ≠ []) (hp : pass ≠ .node)
    (text : Text) : engine.runPass pass text = engine.splicePass pass text := by
  rw [runPass, tree, splicePass]
  cases hn : engine.nodes pass text with
  | error e => rfl
  | ok nodes =>
    obtain ⟨α, read, hr, -, hl⟩ := isLeaf_of_nodes hp hd hn
    have hscan := hr.scans_scanFrom 0 text
    have hloc := hscan.located text rfl
    have htree : nodes.foldlM insert (root text) = .ok ((root text).withChildren nodes) :=
      Node.foldlM_insert [] (root text) (hloc.inOrder hl)
    have hmeasured : ∀ node ∈ nodes, node.IsMeasured := fun node hmem => by
      obtain ⟨found, hf, hleaf⟩ := exists_of_mem_right hl hmem
      exact hleaf.isMeasured (hloc.reads found hf).1
    have hcontent : ((root text).withChildren nodes).compileContent engine.compiler =
        Node.substituted engine.compiler text nodes := Node.compileContent_of_routine rfl
    have hsplice := Node.substituted_eq_splice engine.compiler (hscan.hits hr hl) hmeasured
    simp only [bind, Except.bind, htree, hcontent, hsplice]
    cases nodes.mapM (Node.compileContent engine.compiler) <;> rfl

/-- A flat pass replaces the spans that it finds, by their offsets, and nothing else. -/
theorem runPass_eq_splice (engine : Engine) (hd : engine.delimiters.code.left ≠ []) (pass : Pass)
    (hp : pass ≠ .node) (text : Text) :
    engine.runPass pass text = engine.splicePass pass text ∧
      ∀ nodes, engine.nodes pass text = .ok nodes → Leftmost engine pass text nodes := by
  constructor
  · exact runPass_eq_splicePass hd hp text
  · intro nodes h
    exact leftmost_of_nodes hp hd h

attribute [local instance] Marker.Serials.sample

/-- An engine with one code tag, which puts its payload in angle brackets. -/
def angles : Engine where
  compiler := .ofForms (Table.ofList [("$", "variable")]) ∅ ∅ ∅
    (Table.ofList [("variableCode", .angle)])

theorem runPass_eq_splice_equal_tags :
    angles.delimiters.code.left ≠ [] ∧ Pass.code ≠ .node ∧
      angles.splicePass .code "\x7b\x7b $a \x7d\x7d<a>\x7b\x7b $a \x7d\x7d" = .ok "<a><a><a>" := by
  have hd : angles.delimiters.code.left ≠ [] := by decide
  have hp : Pass.code ≠ .node := by decide
  have hout : angles.runPass .code "\x7b\x7b $a \x7d\x7d<a>\x7b\x7b $a \x7d\x7d" =
      .ok "<a><a><a>" := by cbv
  exact ⟨hd, hp, (runPass_eq_splice angles hd .code hp _).1.symm.trans hout⟩

end Engine

end ThemeMarkup
