import Mathlib
import ThemeMarkup.Compiler.Standard
import ThemeMarkup.Config.Engine
import ThemeMarkup.Proofs.Node.Preorder
import ThemeMarkup.Proofs.Pairing.Tree

namespace ThemeMarkup

/-- The children of a head tag's node whose inside ends before the offset `stop`: an attribute that
spans the head tag and, if the inside is not empty, a body that spans it. -/
def HasChildren (head : Tag) (stop : Int) (children : List Node) : Prop :=
  ∃ argument : Node, argument.isAttribute = true ∧ argument.span = head.span ∧
    argument.children = [] ∧
    if head.span.last + 1 < stop then
      ∃ body : Node, children = [argument, body] ∧ body.isBody = true ∧
        body.span.first = head.span.last + 1 ∧ body.span.last + 1 = stop
    else children = [argument]

/-- The node that a head tag forms, alone or with a tail tag that closes it. -/
structure Formed (strict : Bool) (tags : List Tag) (head : Tag) (node : Node) : Prop where
  name : node.name = some head.name
  first : node.span.first = head.span.first
  closed : (node.span = head.span ∧ HasChildren head (head.span.last + 1) node.children) ∨
    ∃ tail ∈ tags, tail.kind = .tail ∧ nameCloses strict head.name tail.name = true ∧
      head.span.last < tail.span.first ∧ node.span.last = tail.span.last ∧
      HasChildren head tail.span.first node.children

/-- Whether a node is where it belongs among some nodes: in no body and one of the topmost, or a
child of the innermost body around it. -/
def Housed (nodes topmost : List Node) (node : Node) : Prop :=
  (node ∈ topmost ∧ ∀ body ∈ nodes, body.isBody = true → ¬ body.span.Holds node.span) ∨
    ∃ body ∈ nodes, body.isBody = true ∧ node ∈ body.children ∧ body.span.Holds node.span ∧
      ∀ other ∈ nodes, other.isBody = true → other.span.Holds node.span →
        other.span.Holds body.span

theorem Housed.mono {nodes nodes' topmost topmost' : List Node} {node : Node}
    (h : Housed nodes topmost node) (hn : nodes ⊆ nodes') (ht : topmost ⊆ topmost')
    (ho : ∀ other ∈ nodes', other.isBody = true → other.span.Holds node.span → other ∈ nodes) :
    Housed nodes' topmost' node := by
  rcases h with ⟨hmem, hout⟩ | ⟨body, hb, hk, hc, hh, hin⟩
  · exact .inl ⟨ht hmem, fun other hm hk hh => hout other (ho other hm hk hh) hk hh⟩
  · exact .inr ⟨body, hn hb, hk, hc, hh, fun other hm hk hh => hin other (ho other hm hk hh) hk hh⟩

/-- Some trees in which the nodes of tags are where they belong. -/
def Nested (trees : List Node) : Prop :=
  ∀ node ∈ Node.preorders trees, node.name.isSome = true →
    Housed (Node.preorders trees) trees node

/-- A node by itself: it has the text that its span covers, its children lie within its span, each
before the next, and they are nodes of tags unless it is one itself. -/
structure Sound (text : Text) (node : Node) : Prop where
  source_eq : node.source = node.span.read text
  within : ∀ child ∈ node.children, child.span.first ≤ child.span.last ∧ node.span.Holds child.span
  siblings : node.children.Pairwise fun child next => child.span.last < next.span.first
  tagged : node.name = none → ∀ child ∈ node.children, child.name.isSome = true

/-- The tree of tags that stand in a text. -/
structure Shaped (strict : Bool) (text : Text) (tags : List Tag) (root : Node) : Prop where
  heads : List.Forall₂ (Formed strict tags) (tags.filter (·.kind = .head))
    (root.preorder.filter (·.name.isSome))
  sound : ∀ node ∈ root.preorder, Sound text node
  nested : Nested root.children
  structural : root.name = none ∧ root.isBody = false

namespace Forest

open Pairing Node

variable {registry : Registry} {strict : Bool} {d : Delimiters} {names : List Text} {text : Text}
  {lo hi : Int} {f : Forest} {head tail : Tag} {inner : List Node}

@[simp] theorem preorder_attributeNode (head : Tag) :
    (attributeNode head).preorder = [attributeNode head] := by
  rw [preorder_eq]
  exact congrArg (_ :: ·) preorders_nil

@[simp] theorem preorder_loneNode (text : Text) (head : Tag) :
    (loneNode text head).preorder = [loneNode text head, attributeNode head] := by
  rw [preorder_eq]
  exact congrArg (_ :: ·) (by simp [toNode])

theorem mem_preorders_lone {next : Forest} {node : Node} :
    node ∈ preorders ((lone head next).nodes text) ↔
      node = loneNode text head ∨ node = attributeNode head ∨
      node ∈ preorders (next.nodes text) := by
  simp [nodes]

section Pair

variable (hh : head.Stands d names text) (ht : tail.Stands d names text)

include hh ht

theorem preorder_pairNode_of_lt (h : head.span.last + 1 < tail.span.first) (inner : List Node) :
    (pairNode text head tail inner).preorder =
      pairNode text head tail inner :: attributeNode head ::
        (bodyNode text head tail).withChildren inner :: preorders inner := by
  rw [preorder_eq, children_pairNode_of_lt hh ht h, preorders_cons, preorder_attributeNode,
    preorders_cons, preorder_eq, preorders_nil, List.append_nil]
  rfl

theorem preorder_pairNode_of_eq (h : head.span.last + 1 = tail.span.first) (inner : List Node) :
    (pairNode text head tail inner).preorder =
      [pairNode text head tail inner, attributeNode head] := by
  rw [preorder_eq, children_pairNode_of_eq hh ht h, preorders_cons, preorder_attributeNode,
    preorders_nil, List.append_nil]

theorem mem_preorder_pairNode {f : Forest}
    (hf : Tag.Row d names text (head.span.last + 1) tail.span.first f.tags) {node : Node} :
    node ∈ (pairNode text head tail (f.nodes text)).preorder ↔
      node = pairNode text head tail (f.nodes text) ∨ node = attributeNode head ∨
      (head.span.last + 1 < tail.span.first ∧
        node = (bodyNode text head tail).withChildren (f.nodes text)) ∨
      node ∈ preorders (f.nodes text) := by
  rcases Int.lt_or_eq_of_le hf.le with h | h
  · simp [preorder_pairNode_of_lt hh ht h, h]
  · simp [preorder_pairNode_of_eq hh ht h, nodes_of_le hf (Int.le_of_eq h.symm), h]

theorem mem_preorders_pair {f next : Forest}
    (hf : Tag.Row d names text (head.span.last + 1) tail.span.first f.tags) {node : Node} :
    node ∈ preorders ((pair head f tail next).nodes text) ↔
      (node = pairNode text head tail (f.nodes text) ∨ node = attributeNode head ∨
        (head.span.last + 1 < tail.span.first ∧
          node = (bodyNode text head tail).withChildren (f.nodes text)) ∨
        node ∈ preorders (f.nodes text)) ∨
      node ∈ preorders (next.nodes text) := by
  rw [nodes, preorders_cons, List.mem_append, mem_preorder_pairNode hh ht hf]

theorem placed_pairNode {f : Forest} (hl : lo ≤ head.span.first) (hi' : tail.span.last < hi)
    (hf : Tag.Row d names text (head.span.last + 1) tail.span.first f.tags)
    (hp : ∀ node ∈ preorders (f.nodes text),
      Placed text (head.span.last + 1) tail.span.first node) :
    ∀ node ∈ (pairNode text head tail (f.nodes text)).preorder, Placed text lo hi node := by
  have hle := hf.le
  have hlong := hh.long
  have hlong' := ht.long
  obtain ⟨hc, hfirst, hlast⟩ := pairNode_covers hh ht (by omega) (f.nodes text)
  intro node hn
  rcases (mem_preorder_pairNode hh ht hf).1 hn with rfl | rfl | ⟨hlt, rfl⟩ | hn
  · exact ⟨hc, by omega, by omega⟩
  · exact ⟨hh.covers, hl, show head.span.last < hi by omega⟩
  · obtain ⟨hc, hfirst, hlast⟩ := bodyNode_covers hh ht hlt
    exact ⟨hc, show lo ≤ (bodyNode text head tail).span.first by omega,
      show (bodyNode text head tail).span.last < hi by omega⟩
  · exact (hp node hn).mono (by omega) (by omega)

end Pair

theorem placed_preorders (h : Tag.Row d names text lo hi f.tags) :
    ∀ node ∈ preorders (f.nodes text), Placed text lo hi node := by
  induction f generalizing lo hi with
  | nil => simp [nodes]
  | stray tail next ih =>
    obtain ⟨hl, -, hs, hr⟩ := h
    have := hs.long
    exact fun node hn => (ih hr node hn).mono (by omega) (Int.le_refl _)
  | lone head next ih =>
    obtain ⟨hl, -, hs, hr⟩ := h
    have hlong := hs.long
    have hle := hr.le
    intro node hn
    rcases mem_preorders_lone.1 hn with rfl | rfl | hn
    · exact ⟨hs.covers, hl, show head.span.last < hi by omega⟩
    · exact ⟨hs.covers, hl, show head.span.last < hi by omega⟩
    · exact (ih hr node hn).mono (by omega) (Int.le_refl _)
  | pair head inner tail next ihi ih =>
    obtain ⟨hl, -, hs, hr⟩ := h
    obtain ⟨hi', ht, hr⟩ := Tag.row_append_cons.1 hr
    have hlong := hs.long
    have hlong' := ht.long
    have hle := hr.le
    have hle' := hi'.le
    intro node hn
    rcases List.mem_append.1 (preorders_cons .. ▸ hn) with hn | hn
    · exact placed_pairNode hs ht hl (by omega) hi' (ihi hi') node hn
    · exact (ih hr node hn).mono (by omega) (Int.le_refl _)

theorem isSome_name_nodes (text : Text) (f : Forest) :
    ∀ node ∈ f.nodes text, node.name.isSome = true := by
  induction f with
  | nil => simp [nodes]
  | stray tail next ih => exact ih
  | lone head next ih => exact List.forall_mem_cons.2 ⟨rfl, ih⟩
  | pair head inner tail next _ ih => exact List.forall_mem_cons.2 ⟨rfl, ih⟩

theorem sound_of_nodes {node : Node} (hc : node.source = node.span.read text)
    (hf : node.span.first = lo) (hl : node.span.last + 1 = hi)
    (h : Tag.Row d names text lo hi f.tags) (hn : node.children = f.nodes text) :
    Sound text node := by
  subst hf hl
  refine ⟨hc, fun child hm => ?_, ?_, fun _ child hm => ?_⟩
  · rw [hn] at hm
    have hfits := fits_nodes h child hm
    exact ⟨Int.le_of_lt hfits.long, hfits.after, Int.lt_add_one_iff.1 hfits.before⟩
  · rw [hn]
    exact (inOrder_nodes h).2
  · rw [hn] at hm
    exact isSome_name_nodes text f child hm

theorem sound_attributeNode (hs : head.Stands d names text) : Sound text (attributeNode head) :=
  ⟨hs.covers.read_eq.symm, by simp [attributeNode], by simp [attributeNode],
    by simp [attributeNode]⟩

theorem sound_loneNode (hs : head.Stands d names text) : Sound text (loneNode text head) := by
  have hlong := hs.long
  refine ⟨hs.covers.read_eq.symm, fun child hm => ?_, by simp [toNode], nofun⟩
  rw [List.mem_singleton.1 (show child ∈ [attributeNode head] from hm)]
  exact ⟨Int.le_of_lt hlong, Int.le_refl _, Int.le_refl _⟩

theorem sound_pairNode (hh : head.Stands d names text) (ht : tail.Stands d names text)
    (h : head.span.last < tail.span.first) (inner : List Node) :
    Sound text (pairNode text head tail inner) := by
  have hlong := hh.long
  have hlong' := ht.long
  obtain ⟨hc, hfirst, hlast⟩ := pairNode_covers hh ht h inner
  have hspan : (attributeNode head).span = head.span := rfl
  rcases Int.lt_or_eq_of_le (Int.add_one_le_iff.2 h) with hlt | heq
  · obtain ⟨-, hfirst', hlast'⟩ := bodyNode_covers hh ht hlt
    refine ⟨hc.read_eq.symm, ?_, ?_, nofun⟩ <;> rw [children_pairNode_of_lt hh ht hlt]
    · simp only [List.forall_mem_cons, Span.Holds, withChildren, hspan, List.not_mem_nil,
        false_implies, implies_true, and_true]
      omega
    · simp only [List.pairwise_cons, List.forall_mem_cons, List.not_mem_nil, false_implies,
        implies_true, and_true, List.Pairwise.nil, withChildren, hspan]
      omega
  · refine ⟨hc.read_eq.symm, ?_, ?_, nofun⟩ <;> rw [children_pairNode_of_eq hh ht heq]
    · simp only [List.forall_mem_cons, Span.Holds, hspan, List.not_mem_nil, false_implies,
        implies_true, and_true]
      omega
    · exact List.pairwise_singleton ..

theorem sound_preorders (h : Tag.Row d names text lo hi f.tags) :
    ∀ node ∈ preorders (f.nodes text), Sound text node := by
  induction f generalizing lo hi with
  | nil => simp [nodes]
  | stray tail next ih => exact ih h.2.2.2
  | lone head next ih =>
    obtain ⟨-, -, hs, hr⟩ := h
    intro node hn
    rcases mem_preorders_lone.1 hn with rfl | rfl | hn
    · exact sound_loneNode hs
    · exact sound_attributeNode hs
    · exact ih hr node hn
  | pair head inner tail next ihi ih =>
    obtain ⟨-, -, hs, hr⟩ := h
    obtain ⟨hi', ht, hr⟩ := Tag.row_append_cons.1 hr
    intro node hn
    rcases (mem_preorders_pair hs ht hi').1 hn with (rfl | rfl | ⟨hlt, rfl⟩ | hn) | hn
    · exact sound_pairNode hs ht (Int.add_one_le_iff.1 hi'.le) _
    · exact sound_attributeNode hs
    · obtain ⟨hc, hfirst, hlast⟩ := bodyNode_covers hs ht hlt
      exact sound_of_nodes hc.read_eq.symm hfirst hlast hi' rfl
    · exact ihi hi' node hn
    · exact ih hr node hn

theorem hasChildren_pairNode (hh : head.Stands d names text) (ht : tail.Stands d names text)
    (h : head.span.last < tail.span.first) (inner : List Node) :
    HasChildren head tail.span.first (pairNode text head tail inner).children := by
  refine ⟨attributeNode head, rfl, rfl, rfl, ?_⟩
  rcases Int.lt_or_eq_of_le (Int.add_one_le_iff.2 h) with hlt | heq
  · obtain ⟨-, hfirst, hlast⟩ := bodyNode_covers hh ht hlt
    rw [if_pos hlt]
    exact ⟨_, children_pairNode_of_lt hh ht hlt inner, rfl, hfirst, hlast⟩
  · rw [if_neg (by omega)]
    exact children_pairNode_of_eq hh ht heq inner

theorem filter_preorder_pairNode (hh : head.Stands d names text) (ht : tail.Stands d names text)
    (hf : Tag.Row d names text (head.span.last + 1) tail.span.first f.tags) :
    (pairNode text head tail (f.nodes text)).preorder.filter (·.name.isSome) =
      pairNode text head tail (f.nodes text) ::
        (preorders (f.nodes text)).filter (·.name.isSome) := by
  rcases Int.lt_or_eq_of_le hf.le with h | h
  · rw [preorder_pairNode_of_lt hh ht h]
    rfl
  · rw [preorder_pairNode_of_eq hh ht h, nodes_of_le hf (Int.le_of_eq h.symm)]
    rfl

/-- The nodes of head tags are the named ones of the tree, in the order of the heads. -/
theorem formed_nodes {waiting : Option Tag} {tags : List Tag}
    (h : Tag.Row d names text lo hi f.tags) (hm : Matched registry strict waiting f)
    (hsub : f.tags ⊆ tags) :
    List.Forall₂ (Formed strict tags) (f.tags.filter (·.kind = .head))
      ((preorders (f.nodes text)).filter (·.name.isSome)) := by
  induction f generalizing lo hi waiting with
  | nil => exact .nil
  | stray tail next ih =>
    obtain ⟨hk, hm⟩ := hm
    rw [Forest.tags, List.filter_cons_of_neg (by simp [hk])]
    exact ih h.2.2.2 hm (List.cons_subset.1 hsub).2
  | lone head next ih =>
    obtain ⟨hk, -, -, hm⟩ := hm
    obtain ⟨-, -, -, hr⟩ := h
    rw [Forest.tags, List.filter_cons_of_pos (by simp [hk]), nodes, preorders_cons,
      preorder_loneNode]
    refine .cons ⟨rfl, rfl, .inl ⟨rfl, attributeNode head, rfl, rfl, rfl, ?_⟩⟩
      (ih hr hm (List.cons_subset.1 hsub).2)
    rw [if_neg (Int.lt_irrefl _)]
    rfl
  | pair head inner tail next ihi ih =>
    obtain ⟨hk, hk', hc, -, hmi, hm⟩ := hm
    obtain ⟨-, -, hs, hr⟩ := h
    obtain ⟨hi', ht, hr⟩ := Tag.row_append_cons.1 hr
    obtain ⟨-, hsub⟩ := List.cons_subset.1 hsub
    obtain ⟨hsubi, hsub⟩ := List.append_subset.1 hsub
    obtain ⟨htail, hsub⟩ := List.cons_subset.1 hsub
    have hlt := Int.add_one_le_iff.1 hi'.le
    obtain ⟨-, hfirst, hlast⟩ := pairNode_covers hs ht hlt (inner.nodes text)
    rw [Forest.tags, List.filter_cons_of_pos (by simp [hk]), List.filter_append,
      List.filter_cons_of_neg (by simp [hk']), nodes, preorders_cons, List.filter_append,
      filter_preorder_pairNode hs ht hi', List.cons_append]
    exact .cons ⟨rfl, hfirst, .inr ⟨tail, htail, hk', hc, hlt, hlast,
      hasChildren_pairNode hs ht hlt _⟩⟩ (List.rel_append (ihi hi' hmi hsubi) (ih hr hm hsub))

theorem Placed.not_holds {mid : Int} {node other : Node} (h : Placed text lo mid node)
    (h' : Placed text mid hi other) :
    ¬ node.span.Holds other.span ∧ ¬ other.span.Holds node.span := by
  have hb := h.covers.bounds
  have hb' := h'.covers.bounds
  have hlt := h.before
  have hle := h'.after
  simp only [Span.Holds]
  omega

theorem nested_append {l l' : List Node} {mid : Int}
    (hl : ∀ node ∈ preorders l, Placed text lo mid node)
    (hl' : ∀ node ∈ preorders l', Placed text mid hi node) (h : Nested l) (h' : Nested l') :
    Nested (l ++ l') := by
  intro node hn hs
  rw [preorders_append] at hn ⊢
  rcases List.mem_append.1 hn with hn | hn
  · refine (h node hn hs).mono (List.subset_append_left ..) (List.subset_append_left ..) ?_
    intro other ho _ hh
    refine (List.mem_append.1 ho).resolve_right fun ho => ?_
    exact ((hl node hn).not_holds (hl' other ho)).2 hh
  · refine (h' node hn hs).mono (List.subset_append_right ..) (List.subset_append_right ..) ?_
    intro other ho _ hh
    refine (List.mem_append.1 ho).resolve_left fun ho => ?_
    exact ((hl other ho).not_holds (hl' node hn)).1 hh

theorem nested_loneNode (text : Text) (head : Tag) : Nested [loneNode text head] := by
  intro node hn hs
  rw [preorders_cons, preorder_loneNode, preorders_nil, List.append_nil] at hn ⊢
  rcases List.mem_pair.1 hn with rfl | rfl
  · refine .inl ⟨List.mem_singleton_self _, fun body hb hk => ?_⟩
    rcases List.mem_pair.1 hb with rfl | rfl <;> contradiction
  · contradiction

theorem nested_pairNode (hh : head.Stands d names text) (ht : tail.Stands d names text)
    (hf : Tag.Row d names text (head.span.last + 1) tail.span.first f.tags)
    (h : Nested (f.nodes text)) : Nested [pairNode text head tail (f.nodes text)] := by
  have hp := placed_preorders hf
  have hlong := hh.long
  obtain ⟨-, hfirst, hlast⟩ := pairNode_covers hh ht (Int.add_one_le_iff.1 hf.le) (f.nodes text)
  intro node hn hs
  simp only [preorders_cons, preorders_nil, List.append_nil] at hn ⊢
  rcases (mem_preorder_pairNode hh ht hf).1 hn with rfl | rfl | ⟨hlt, rfl⟩ | hn
  · refine .inl ⟨List.mem_singleton_self _, fun body hb hk hholds => ?_⟩
    have hle : head.span.last + 1 ≤ body.span.first := by
      rcases (mem_preorder_pairNode hh ht hf).1 hb with rfl | rfl | ⟨hlt, rfl⟩ | hb
      · contradiction
      · contradiction
      · exact Int.le_of_eq (bodyNode_covers hh ht hlt).2.1.symm
      · exact (hp body hb).after
    have := hholds.1
    omega
  · contradiction
  · contradiction
  · have hlt : head.span.last + 1 < tail.span.first := by
      refine Int.not_le.1 fun hle => ?_
      rw [nodes_of_le hf hle, preorders_nil] at hn
      contradiction
    obtain ⟨-, hbfirst, hblast⟩ := bodyNode_covers hh ht hlt
    have hbody := (mem_preorder_pairNode hh ht hf).2 (.inr (.inr (.inl ⟨hlt, rfl⟩)))
    have hbodyHolds : ∀ below ∈ preorders (f.nodes text),
        ((bodyNode text head tail).withChildren (f.nodes text)).span.Holds below.span := by
      intro below hm
      have := (hp below hm).after
      have := (hp below hm).before
      simp only [Span.Holds, withChildren]
      omega
    have hother {other : Node} (ho : other ∈ (pairNode text head tail (f.nodes text)).preorder)
        (hk : other.isBody = true) :
        other = (bodyNode text head tail).withChildren (f.nodes text) ∨
          other ∈ preorders (f.nodes text) := by
      rcases (mem_preorder_pairNode hh ht hf).1 ho with rfl | rfl | ⟨-, rfl⟩ | ho
      · contradiction
      · contradiction
      · exact .inl rfl
      · exact .inr ho
    rcases h node hn hs with ⟨hmem, hout⟩ | ⟨body, hb, hk, hc, hholds, hin⟩
    · refine .inr ⟨_, hbody, rfl, hmem, hbodyHolds node hn, fun other ho hk hholds => ?_⟩
      rcases hother ho hk with rfl | ho
      · exact ⟨Int.le_refl _, Int.le_refl _⟩
      · exact absurd hholds (hout other ho hk)
    · refine .inr ⟨body, (mem_preorder_pairNode hh ht hf).2 (.inr (.inr (.inr hb))), hk, hc, hholds,
        fun other ho hk hholds => ?_⟩
      rcases hother ho hk with rfl | ho
      · exact hbodyHolds body hb
      · exact hin other ho hk hholds

theorem nested_nodes (h : Tag.Row d names text lo hi f.tags) : Nested (f.nodes text) := by
  induction f generalizing lo hi with
  | nil => simp [Nested, nodes]
  | stray tail next ih => exact ih h.2.2.2
  | lone head next ih =>
    obtain ⟨-, -, hs, hr⟩ := h
    have hlone : ∀ node ∈ preorders [loneNode text head],
        Placed text head.span.first (head.span.last + 1) node := by
      intro node hn
      rw [preorders_cons, preorder_loneNode, preorders_nil, List.append_nil] at hn
      rcases List.mem_pair.1 hn with rfl | rfl <;>
        exact ⟨hs.covers, Int.le_refl _, Int.lt_succ _⟩
    exact nested_append hlone (placed_preorders hr) (nested_loneNode text head) (ih hr)
  | pair head inner tail next ihi ih =>
    obtain ⟨-, -, hs, hr⟩ := h
    obtain ⟨hi', ht, hr⟩ := Tag.row_append_cons.1 hr
    have hpair : ∀ node ∈ preorders [pairNode text head tail (inner.nodes text)],
        Placed text head.span.first (tail.span.last + 1) node := by
      intro node hn
      rw [preorders_cons, preorders_nil, List.append_nil] at hn
      exact placed_pairNode hs ht (Int.le_refl _) (Int.lt_succ _) hi' (placed_preorders hi') node hn
    exact nested_append hpair (placed_preorders hr) (nested_pairNode hs ht hi' (ihi hi')) (ih hr)

end Forest

namespace Engine

theorem root_covers {text : Text} (h : text ≠ []) : (root text).span.Covers text text := by
  obtain ⟨c, text, rfl⟩ := List.exists_cons_of_ne_nil h
  refine ⟨0, ?_, h, List.prefix_rfl⟩
  have hcut : Text.cut? (c :: text) (c :: text) = some ([], []) := by
    simpa using Text.cut?_append (c :: text) []
  simp [root, Span.locate, Text.findFrom?, Text.find?, hcut]

theorem first_root {text : Text} (h : text ≠ []) : (root text).span.first = 0 := by
  obtain ⟨first, hspan, -, hp⟩ := root_covers h
  have hle := hp.length_le
  have hpos := List.length_pos_iff.2 h
  rw [List.length_drop] at hle
  rw [hspan]
  simp only [Span.ofRange]
  omega

/-- The tree of a pass over a text in which tags stand in a row. -/
theorem shaped_of_matched {registry : Registry} {strict : Bool} {d : Delimiters} {names : List Text}
    {text : Text} {f : Forest} (h : Tag.Row d names text 0 text.length f.tags)
    (hm : Forest.Matched registry strict none f) :
    Shaped strict text f.tags ((root text).withChildren (f.nodes text)) := by
  have hpre : ((root text).withChildren (f.nodes text)).preorder =
      (root text).withChildren (f.nodes text) :: Node.preorders (f.nodes text) :=
    Node.preorder_eq _
  refine ⟨?_, ?_, Forest.nested_nodes h, rfl, rfl⟩
  · rw [hpre]
    exact Forest.formed_nodes h hm (List.Subset.refl _)
  · rw [hpre]
    refine List.forall_mem_cons.2 ⟨?_, Forest.sound_preorders h⟩
    by_cases ht : text = []
    · subst ht
      have hnone : f.nodes [] = [] := Forest.nodes_of_le h (Int.le_refl _)
      rw [hnone]
      exact ⟨rfl, by simp [Node.withChildren], .nil, by simp [Node.withChildren]⟩
    · have hc := root_covers ht
      refine Forest.sound_of_nodes hc.read_eq.symm (first_root ht) ?_ h rfl
      rw [show ((root text).withChildren (f.nodes text)).span.last + 1 = _ from hc.measured,
        first_root ht, Int.zero_add]

/-- For tags with ASCII names, the tree of the node pass has the shape of the tags that a scan
finds, or a head tag among these needs a tail tag and has none. -/
theorem tree_shaped (engine : Engine) (code : Table Text) (node : Table NodeTag)
    (hr : engine.compiler.registry = .ofTags code node)
    (hn : ∀ name ∈ node.keys, ∀ c ∈ name, Text.isAscii c = true)
    (hd : engine.delimiters.node.IsProper) (text : Text) :
    ∃ tags, Tag.scan engine.compiler.registry engine.delimiters.node text = .ok tags ∧
      match engine.tree .node text with
      | .ok root => Shaped engine.strict text tags root
      | .error e => ∃ head ∈ tags, head.kind = .head ∧
          e = .tag { fault := .unpaired head.name, span := head.span } := by
  obtain ⟨tags, ht⟩ := Tag.exists_scan_eq_ok code hn hd text
  rw [← hr] at ht
  refine ⟨tags, ht, ?_⟩
  have hrow := Tag.row_of_scan hd ht
  rw [tree_node_of_scan hd ht]
  cases hg : Forest.grow engine.compiler.registry engine.strict tags with
  | error e =>
    obtain ⟨head, hmem, hk, -, he⟩ := Forest.unpaired_of_grow hg
    exact ⟨head, hmem, hk, he⟩
  | ok f =>
    obtain ⟨rfl, hm⟩ := Forest.grow_eq_ok_iff.1 hg
    exact shaped_of_matched hrow hm

attribute [local instance] Marker.Serials.sample

theorem tree_shaped_full_body :
    (standard ".html" false).compiler.registry = .ofTags Standard.codeTags Standard.nodeTags ∧
      (∀ name ∈ Standard.nodeTags.keys, ∀ c ∈ name, Text.isAscii c = true) ∧
      (standard ".html" false).delimiters.node.IsProper ∧
      ∃ tags root,
        (standard ".html" false).tree .node
          "\x7b% if a %\x7d\x7b% else %\x7d\x7b% :if %\x7d" = .ok root ∧
        Shaped false "\x7b% if a %\x7d\x7b% else %\x7d\x7b% :if %\x7d" tags root := by
  have hr : (standard ".html" false).compiler.registry =
      .ofTags Standard.codeTags Standard.nodeTags := rfl
  have hall : Standard.nodeTags.keys.all (fun name => name.all Text.isAscii) = true := by decide
  have hn : ∀ name ∈ Standard.nodeTags.keys, ∀ c ∈ name, Text.isAscii c = true :=
    fun name hm => List.all_eq_true.1 (List.all_eq_true.1 hall name hm)
  have hd : (standard ".html" false).delimiters.node.IsProper := by decide
  have hok : (standard ".html" false).runPass .node
      "\x7b% if a %\x7d\x7b% else %\x7d\x7b% :if %\x7d" =
        .ok "\x7b% if a %\x7d\x7b% else %\x7d\x7b% endif %\x7d" := by cbv
  obtain ⟨tags, -, h⟩ := tree_shaped (standard ".html" false) Standard.codeTags Standard.nodeTags
    hr hn hd "\x7b% if a %\x7d\x7b% else %\x7d\x7b% :if %\x7d"
  rw [runPass] at hok
  cases ht : (standard ".html" false).tree .node
      "\x7b% if a %\x7d\x7b% else %\x7d\x7b% :if %\x7d" with
  | error e =>
    rw [ht] at hok
    simp only [bind, Except.bind, reduceCtorEq] at hok
  | ok root =>
    rw [ht] at h
    exact ⟨hr, hn, hd, tags, root, rfl, h⟩

end Engine

end ThemeMarkup
