import ThemeMarkup.Config.Engine
import ThemeMarkup.Proofs.Node.Insert
import ThemeMarkup.Proofs.Pairing.Forest
import ThemeMarkup.Proofs.Splice
import ThemeMarkup.Proofs.Tag.Row

namespace ThemeMarkup

namespace Pairing

def bodyNode (text : Text) (head tail : Tag) : Node :=
  let body := text.slice (head.span.last + 1) tail.span.first
  { source := body
    content := body
    span := Span.ofRange text (head.span.last + 1).toNat body.length
    isBody := true }

/-- The node of a pair whose body holds the given nodes. -/
def pairNode (text : Text) (head tail : Tag) (inner : List Node) : Node :=
  (toNode text ⟨head, some tail⟩).withChildren
    (attributeNode head :: (bodyNodes text head tail).map (·.withChildren inner))

abbrev loneNode (text : Text) (head : Tag) : Node :=
  toNode text ⟨head, none⟩

variable {d : Delimiters} {names : List Text} {text : Text} {head tail : Tag}

theorem toNode_pair (text : Text) (head tail : Tag) :
    toNode text ⟨head, some tail⟩ = pairNode text head tail [] := by
  have hbody : (bodyNodes text head tail).map (·.withChildren []) = bodyNodes text head tail := by
    unfold bodyNodes
    split <;> rfl
  rw [pairNode, hbody]
  rfl

section Stands

variable (hh : head.Stands d names text) (ht : tail.Stands d names text)

include hh ht

theorem bodyNode_covers (h : head.span.last + 1 < tail.span.first) :
    (bodyNode text head tail).span.Covers text (bodyNode text head tail).source ∧
      (bodyNode text head tail).span.first = head.span.last + 1 ∧
      (bodyNode text head tail).span.last + 1 = tail.span.first := by
  have hb := hh.covers.bounds
  have hb' := ht.covers.bounds
  exact Text.covers_slice (by omega) h (by omega)

theorem bodyNodes_of_lt (h : head.span.last + 1 < tail.span.first) :
    bodyNodes text head tail = [bodyNode text head tail] := by
  obtain ⟨⟨first, -, hne, -⟩, -⟩ := bodyNode_covers hh ht h
  rw [bodyNodes]
  split
  · next hs => exact absurd hs hne
  · rfl

theorem bodyNodes_of_eq (h : head.span.last + 1 = tail.span.first) :
    bodyNodes text head tail = [] := by
  have hb := hh.covers.bounds
  have hb' := ht.covers.bounds
  obtain ⟨n, hn⟩ := Int.eq_ofNat_of_zero_le (show 0 ≤ tail.span.first by omega)
  have hslice : text.slice (head.span.last + 1) tail.span.first = [] := by
    rw [h, hn, Text.slice_eq (Nat.le_refl n) (by omega), Nat.sub_self, List.take_zero]
  rw [bodyNodes, hslice]

theorem children_pairNode_of_lt (h : head.span.last + 1 < tail.span.first) (inner : List Node) :
    (pairNode text head tail inner).children =
      [attributeNode head, (bodyNode text head tail).withChildren inner] := by
  simp only [pairNode, bodyNodes_of_lt hh ht h]
  rfl

theorem children_pairNode_of_eq (h : head.span.last + 1 = tail.span.first) (inner : List Node) :
    (pairNode text head tail inner).children = [attributeNode head] := by
  simp only [pairNode, bodyNodes_of_eq hh ht h]
  rfl

theorem pairNode_covers (h : head.span.last < tail.span.first) (inner : List Node) :
    (pairNode text head tail inner).span.Covers text (pairNode text head tail inner).source ∧
      (pairNode text head tail inner).span.first = head.span.first ∧
      (pairNode text head tail inner).span.last = tail.span.last := by
  have hb := hh.covers.bounds
  have hb' := ht.covers.bounds
  have hstop : tail.span.last + 1 ≤ text.length := by omega
  obtain ⟨hc, hf, hl⟩ := Text.covers_slice (show 0 ≤ head.span.first by omega) (by omega) hstop
  exact ⟨hc, hf, (Int.add_left_inj 1).1 hl⟩

end Stands

end Pairing

namespace Forest

open Pairing

variable {d : Delimiters} {names : List Text} {text : Text} {lo hi : Int} {f : Forest}

/-- The nodes of a forest in the order of their heads, each with those inside it. -/
def nodes (text : Text) : Forest → List Node
  | nil => []
  | stray _ next => next.nodes text
  | lone head next => loneNode text head :: next.nodes text
  | pair head inner tail next => pairNode text head tail (inner.nodes text) :: next.nodes text

/-- A node that lies between two offsets and whose span covers its source. -/
structure Placed (text : Text) (lo hi : Int) (node : Node) : Prop where
  covers : node.span.Covers text node.source
  after : lo ≤ node.span.first
  before : node.span.last < hi

/-- A node of two characters or more that lies between two offsets. -/
structure Fits (text : Text) (lo hi : Int) (node : Node) : Prop extends Placed text lo hi node where
  long : node.span.first < node.span.last

theorem Placed.mono {lo' hi' : Int} {node : Node} (h : Placed text lo hi node) (hl : lo' ≤ lo)
    (hh : hi ≤ hi') : Placed text lo' hi' node :=
  ⟨h.covers, Int.le_trans hl h.after, Int.lt_of_lt_of_le h.before hh⟩

theorem Fits.mono {lo' hi' : Int} {node : Node} (h : Fits text lo hi node) (hl : lo' ≤ lo)
    (hh : hi ≤ hi') : Fits text lo' hi' node :=
  ⟨h.toPlaced.mono hl hh, h.long⟩

theorem fits_nodes (h : Tag.Row d names text lo hi f.tags) :
    ∀ node ∈ f.nodes text, Fits text lo hi node := by
  induction f generalizing lo with
  | nil => simp [nodes]
  | stray tail next ih =>
    obtain ⟨hl, -, hs, hr⟩ := h
    have := hs.long
    exact fun node hn => (ih hr node hn).mono (by omega) (Int.le_refl _)
  | lone head next ih =>
    obtain ⟨hl, -, hs, hr⟩ := h
    have hlong := hs.long
    have hle := hr.le
    intro node hn
    rcases List.mem_cons.1 hn with rfl | hn
    · exact ⟨⟨hs.covers, hl, show head.span.last < hi by omega⟩, hlong⟩
    · exact (ih hr node hn).mono (by omega) (Int.le_refl _)
  | pair head inner tail next _ ih =>
    obtain ⟨hl, -, hs, hr⟩ := h
    obtain ⟨hi', ht, hr⟩ := Tag.row_append_cons.1 hr
    have hlong := hs.long
    have hlong' := ht.long
    have hle := hr.le
    have hle' := hi'.le
    obtain ⟨hc, hf, hlast⟩ := pairNode_covers hs ht (by omega) (inner.nodes text)
    intro node hn
    rcases List.mem_cons.1 hn with rfl | hn
    · exact ⟨⟨hc, by omega, by omega⟩, by omega⟩
    · exact (ih hr node hn).mono (by omega) (Int.le_refl _)

theorem nodes_of_le (h : Tag.Row d names text lo hi f.tags) (hle : hi ≤ lo) :
    f.nodes text = [] := by
  refine List.eq_nil_iff_forall_not_mem.2 fun node hn => ?_
  have hfits := fits_nodes h node hn
  have := hfits.after
  have := hfits.before
  have := hfits.long
  omega

theorem nodes_of_slice_eq_nil {head tail : Tag} (hh : head.Stands d names text)
    (ht : tail.Stands d names text)
    (hr : Tag.Row d names text (head.span.last + 1) tail.span.first f.tags)
    (hs : text.slice (head.span.last + 1) tail.span.first = []) : f.nodes text = [] := by
  rcases Int.lt_or_eq_of_le hr.le with hlt | heq
  · obtain ⟨⟨_, -, hne, -⟩, -⟩ := bodyNode_covers hh ht hlt
    exact absurd hs hne
  · exact nodes_of_le hr (Int.le_of_eq heq.symm)

theorem inOrder_nodes (h : Tag.Row d names text lo hi f.tags) : Node.InOrder (f.nodes text) := by
  refine ⟨fun node hn => Int.le_of_lt (fits_nodes h node hn).long, ?_⟩
  induction f generalizing lo with
  | nil => exact .nil
  | stray tail next ih => exact ih h.2.2.2
  | lone head next ih =>
    obtain ⟨-, -, -, hr⟩ := h
    exact .cons (fun node hn => (Int.add_one_le_iff.1 (fits_nodes hr node hn).after)) (ih hr)
  | pair head inner tail next _ ih =>
    obtain ⟨-, -, hs, hr⟩ := h
    obtain ⟨hi', ht, hr⟩ := Tag.row_append_cons.1 hr
    have hle := hi'.le
    obtain ⟨-, -, hlast⟩ := pairNode_covers hs ht (by omega) (inner.nodes text)
    refine .cons (fun node hn => ?_) (ih hr)
    have := (fits_nodes hr node hn).after
    omega

section Insertion

variable {head tail : Tag} {inner siblings after : List Node}

/-- A node inside a pair that is inserted next to the pair's node goes to the end of its body. -/
theorem insertAmong_pairNode (hh : head.Stands d names text) (ht : tail.Stands d names text)
    {node : Node} (hn : Fits text (head.span.last + 1) tail.span.first node)
    (hi : Node.InOrder (inner ++ [node])) :
    (Node.insertAmong node (pairNode text head tail inner).children).map
        (pairNode text head tail inner).withChildren =
      .ok (pairNode text head tail (inner ++ [node])) := by
  have hlong := hh.long
  have hlt : head.span.last + 1 < tail.span.first := by
    have := hn.after
    have := hn.before
    have := hn.long
    omega
  obtain ⟨-, hf, hl⟩ := bodyNode_covers hh ht hlt
  have hattr : node.span.relation (attributeNode head).span = .after :=
    Span.relation_after_of_lt (Int.le_of_lt hlong) (Int.le_of_lt hn.long)
      (Int.add_one_le_iff.1 hn.after)
  have hbody :
      node.span.relation ((bodyNode text head tail).withChildren inner).span = .inside := by
    have := hn.after
    have := hn.before
    have := hn.long
    refine Span.relation_inside ?_ ?_ ?_ ?_ <;>
      simp only [Node.withChildren] <;> omega
  have hsib : ∀ sibling ∈ inner, node.span.relation sibling.span = .after := fun s hs =>
    Span.relation_after_of_lt (hi.1 s (by simp [hs])) (hi.1 node (by simp))
      ((List.pairwise_append.1 hi.2).2.2 s hs node (by simp))
  have hchildren := children_pairNode_of_lt hh ht hlt
  have hnode : (pairNode text head tail inner).withChildren
      (pairNode text head tail (inner ++ [node])).children =
        pairNode text head tail (inner ++ [node]) := rfl
  rw [← hnode, hchildren, hchildren, Node.insertAmong_cons, hattr]
  dsimp only
  rw [Node.insertAmong_cons, hbody]
  dsimp only
  rw [show ((bodyNode text head tail).withChildren inner).children = inner from rfl,
    Node.insertAmong_after hsib]
  rfl

/-- The node of a pair, inserted, takes the siblings that lie in its body. -/
theorem insertAmong_swallow (inner : List Node) (hh : head.Stands d names text)
    (ht : tail.Stands d names text)
    (hs : ∀ node ∈ siblings, Fits text (head.span.last + 1) tail.span.first node)
    (hi : Node.InOrder (inner ++ siblings)) :
    Node.insertAmong (pairNode text head tail inner) (siblings ++ after) =
      Node.insertAmong (pairNode text head tail (inner ++ siblings)) after := by
  induction siblings generalizing inner with
  | nil => rw [List.nil_append, List.append_nil]
  | cons node siblings ih =>
    have hn := hs node List.mem_cons_self
    have hlong := hh.long
    have hlong' := ht.long
    have hlong'' := hn.long
    have hafter := hn.after
    have hbefore := hn.before
    obtain ⟨-, hf, hl⟩ := pairNode_covers hh ht (by omega) inner
    have haround : (pairNode text head tail inner).span.relation node.span = .around :=
      Span.relation_around (by omega) (by omega) (by omega) (by omega)
    rw [List.append_cons] at hi ⊢
    have hin : Node.InOrder (inner ++ [node]) :=
      ⟨fun n hm => hi.1 n (List.mem_append_left _ hm), (List.pairwise_append.1 hi.2).1⟩
    have hstep := insertAmong_pairNode hh ht hn hin
    rw [List.cons_append, Node.insertAmong_cons, haround]
    dsimp only
    cases hr : Node.insertAmong node (pairNode text head tail inner).children with
    | error crossing =>
      rw [hr] at hstep
      contradiction
    | ok children =>
      rw [hr] at hstep
      dsimp only
      rw [Except.ok.inj hstep]
      exact ih (inner ++ [node]) (fun n hm => hs n (List.mem_cons_of_mem _ hm)) hi

theorem insert_before (root node : Node) (h : ∀ next ∈ after, node.span.last < next.span.first) :
    Engine.insert (root.withChildren after) node = .ok (root.withChildren (node :: after)) := by
  have hbefore : Node.insertAmong node after = .ok (node :: after) :=
    Node.insertAmong_before fun next hn =>
      Span.relation_before (Int.le_of_lt (h next (List.mem_of_mem_head? hn)))
  rw [Engine.insert, Node.insertChild]
  simp only [Node.withChildren, hbefore, Except.map]

theorem insert_pairNode {root : Node} (hh : head.Stands d names text)
    (ht : tail.Stands d names text) (hl : head.span.last < tail.span.first)
    (hs : ∀ node ∈ siblings, Fits text (head.span.last + 1) tail.span.first node)
    (hi : Node.InOrder siblings) (ha : ∀ next ∈ after, tail.span.last < next.span.first) :
    Engine.insert (root.withChildren (siblings ++ after)) (pairNode text head tail []) =
      .ok (root.withChildren (pairNode text head tail siblings :: after)) := by
  have hlast := (pairNode_covers hh ht hl siblings).2.2
  have hbefore := insert_before root (pairNode text head tail siblings) fun next hn =>
    hlast ▸ ha next hn
  rw [Engine.insert, Node.insertChild] at hbefore ⊢
  simp only [Node.withChildren] at hbefore ⊢
  rw [insertAmong_swallow [] hh ht hs hi]
  exact hbefore

/-- Inserting the nodes of a forest's pairings, the last first, before what comes after them. -/
theorem foldlM_insert_pairings (root : Node) (h : Tag.Row d names text lo hi f.tags)
    (ha : ∀ next ∈ after, hi ≤ next.span.first) :
    (f.pairings.reverse.map (toNode text)).foldlM Engine.insert (root.withChildren after) =
      .ok (root.withChildren (f.nodes text ++ after)) := by
  have hnext {f : Forest} {hi : Int} {tag : Tag} {after : List Node}
      (hr : Tag.Row d names text (tag.span.last + 1) hi f.tags)
      (ha : ∀ next ∈ after, hi ≤ next.span.first) :
      ∀ next ∈ f.nodes text ++ after, tag.span.last < next.span.first := fun n hn => by
    rcases List.mem_append.1 hn with hn | hn
    · exact Int.add_one_le_iff.1 (fits_nodes hr n hn).after
    · exact Int.lt_of_lt_of_le (Int.add_one_le_iff.1 hr.le) (ha n hn)
  induction f generalizing lo hi after with
  | nil => rfl
  | stray tail next ih => exact ih h.2.2.2 ha
  | lone head next ih =>
    obtain ⟨-, -, -, hr⟩ := h
    simp only [pairings, List.reverse_cons, List.map_append, List.foldlM_append, ih hr ha,
      List.map_cons, List.map_nil, List.foldlM_cons, List.foldlM_nil, bind_pure]
    exact insert_before root _ (hnext hr ha)
  | pair head inner tail next ihi ih =>
    obtain ⟨-, -, hs, hr⟩ := h
    obtain ⟨hi', ht, hr⟩ := Tag.row_append_cons.1 hr
    have hinner := ihi hi' fun n hn => Int.le_of_lt (Int.lt_trans ht.long (hnext hr ha n hn))
    simp only [pairings, List.reverse_cons, List.reverse_append, List.map_append,
      List.foldlM_append, ih hr ha, List.map_cons, List.map_nil, List.foldlM_cons, List.foldlM_nil,
      bind_pure, toNode_pair]
    simp only [bind, Except.bind, hinner]
    exact insert_pairNode hs ht (Int.add_one_le_iff.1 hi'.le) (fits_nodes hi') (inOrder_nodes hi')
      (hnext hr ha)

end Insertion

end Forest

namespace Engine

section

variable [Marker.Serials]

theorem isProper_standard (suffix : Text) (strict : Bool) :
    (standard suffix strict).delimiters.node.IsProper := by
  change Delimiters.IsProper .usual
  decide

end

theorem tree_node_eq (engine : Engine) (hd : engine.delimiters.node.IsProper) (text : Text) :
    engine.tree .node text = (do
      let tags ← Tag.scan engine.compiler.registry engine.delimiters.node text
      let forest ← Forest.grow engine.compiler.registry engine.strict tags
      return (root text).withChildren (forest.nodes text)) := by
  rw [tree, nodes]
  cases ht : Tag.scan engine.compiler.registry engine.delimiters.node text with
  | error e => rfl
  | ok tags =>
    simp only [bind, Except.bind, Pairing.nodes, Forest.match?_eq_grow]
    cases hg : Forest.grow engine.compiler.registry engine.strict tags with
    | error e => rfl
    | ok forest =>
      have hrow := Tag.row_of_scan hd ht
      rw [← (Forest.grow_eq_ok_iff.1 hg).1] at hrow
      have hfold := Forest.foldlM_insert_pairings (root text) hrow (List.forall_mem_nil _)
      rw [List.append_nil] at hfold
      exact hfold

theorem tree_node_of_scan {engine : Engine} {text : Text} {tags : List Tag}
    (hd : engine.delimiters.node.IsProper)
    (ht : Tag.scan engine.compiler.registry engine.delimiters.node text = .ok tags) :
    engine.tree .node text =
      (Forest.grow engine.compiler.registry engine.strict tags).map fun f =>
        (root text).withChildren (f.nodes text) := by
  rw [tree_node_eq engine hd, ht]
  simp only [bind, Except.bind]
  cases Forest.grow engine.compiler.registry engine.strict tags with
  | error e => rfl
  | ok f => rfl

theorem runPass_node_of_scan {engine : Engine} {text : Text} {tags : List Tag}
    (hd : engine.delimiters.node.IsProper)
    (ht : Tag.scan engine.compiler.registry engine.delimiters.node text = .ok tags) :
    engine.runPass .node text =
      (Forest.grow engine.compiler.registry engine.strict tags).bind fun f =>
        Node.substituted engine.compiler text (f.nodes text) := by
  rw [runPass, tree_node_of_scan hd ht]
  cases Forest.grow engine.compiler.registry engine.strict tags with
  | error e => rfl
  | ok f => exact Node.compileContent_of_routine rfl

theorem tree_node_eq_ok_iff {engine : Engine} (hd : engine.delimiters.node.IsProper) {text : Text}
    {root : Node} :
    engine.tree .node text = .ok root ↔ ∃ f : Forest,
      Tag.scan engine.compiler.registry engine.delimiters.node text = .ok f.tags ∧
        f.Matched engine.compiler.registry engine.strict none ∧
        root = (Engine.root text).withChildren (f.nodes text) := by
  rw [tree_node_eq engine hd]
  constructor
  · intro h
    obtain ⟨tags, hscan, hforest⟩ := Except.bind_eq_ok_iff.1 h
    obtain ⟨f, hgrow, hroot⟩ := Except.bind_eq_ok_iff.1 hforest
    obtain ⟨rfl, hm⟩ := Forest.grow_eq_ok_iff.1 hgrow
    exact ⟨f, hscan, hm, (Except.ok.inj hroot).symm⟩
  · rintro ⟨f, hscan, hm, rfl⟩
    have hgrow := Forest.grow_eq_ok_iff.2 ⟨rfl, hm⟩
    exact Except.bind_eq_ok_iff.2 ⟨_, hscan, Except.bind_eq_ok_iff.2 ⟨f, hgrow, rfl⟩⟩

end Engine

end ThemeMarkup
