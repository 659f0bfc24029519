import ThemeMarkup.Proofs.Marked.Node
import ThemeMarkup.Proofs.Pairing.Usual

namespace ThemeMarkup

open Node (substituted)

namespace Node

variable {compiler : Compiler} {text out : Text} {node root : Node} {children : List Node}

def withoutBody (node : Node) : Node :=
  node.withChildren (node.children.filter (!·.isBody))

theorem exists_substituted (h : node.compileContent compiler = .ok out) :
    ∃ given, substituted compiler node.content node.children = .ok given := by
  obtain ⟨piece, children⟩ := node
  rw [compileContent, compile] at h
  rw [substituted]
  dsimp only at h ⊢
  cases hs : (compileChildren compiler piece.content children).error with
  | some e =>
    rw [hs] at h
    contradiction
  | none => exact ⟨_, rfl⟩

theorem exists_of_substituted (h : substituted compiler text children = .ok out) :
    ∀ child ∈ children, ∃ content, child.compileContent compiler = .ok content := by
  induction children generalizing text out with
  | nil => exact nofun
  | cons child children ih =>
    cases hcut : Text.cut? child.source text with
    | none =>
      rw [substituted_cons_of_none hcut] at h
      obtain ⟨content, hc, hrest⟩ := Except.bind_eq_ok_iff.1 h
      exact List.forall_mem_cons.2 ⟨⟨content, hc⟩, ih hrest⟩
    | some parts =>
      obtain ⟨before, rest⟩ := parts
      rw [substituted_cons hcut] at h
      obtain ⟨content, hc, h⟩ := Except.bind_eq_ok_iff.1 h
      obtain ⟨after, hrest, -⟩ := Except.bind_eq_ok_iff.1 h
      exact List.forall_mem_cons.2 ⟨⟨content, hc⟩, ih hrest⟩

theorem exists_of_compileContent (h : root.compileContent compiler = .ok out) :
    ∀ node ∈ root.preorder, ∃ content, node.compileContent compiler = .ok content := by
  refine forall_mem_preorder ⟨out, h⟩ fun node ⟨_, hn⟩ child hc => ?_
  obtain ⟨given, hg⟩ := exists_substituted hn
  exact exists_of_substituted hg child hc

theorem infix_of_hits {start : Int} {child : Node} {content : Text} (hh : Hits start text children)
    (h : substituted compiler text children = .ok out) (hc : child ∈ children)
    (hcontent : child.compileContent compiler = .ok content) : content <:+: out := by
  induction children generalizing start text out with
  | nil => contradiction
  | cons first children ih =>
    obtain ⟨before, rest, hcut, -, hrest⟩ := hh
    rw [substituted_cons hcut] at h
    obtain ⟨content', hfirst, h⟩ := Except.bind_eq_ok_iff.1 h
    obtain ⟨after, hs, h⟩ := Except.bind_eq_ok_iff.1 h
    obtain rfl := Except.ok.inj h
    rcases List.mem_cons.1 hc with rfl | hc
    · obtain rfl := Except.ok.inj (hcontent.symm.trans hfirst)
      exact ⟨before, after, rfl⟩
    · exact (ih hrest hs hc).trans (List.suffix_append _ _).isInfix

theorem FindsChildren.infix_of_child {child : Node} {content : Text} (hf : node.FindsChildren)
    (hr : node.routine = none) (hs : node.content = node.source) (hc : child ∈ node.children)
    (hcontent : child.compileContent compiler = .ok content)
    (h : node.compileContent compiler = .ok out) : content <:+: out := by
  rw [compileContent_of_routine hr, hs] at h
  exact infix_of_hits hf h hc hcontent

theorem mem_preorder_iff_reaches :
    node ∈ root.preorder ↔
      Relation.ReflTransGen (fun parent child => child ∈ parent.children) root node := by
  constructor
  · exact forall_mem_preorder (P := fun node => Relation.ReflTransGen _ root node) .refl
      (fun _ hn _ hc => hn.tail hc) node
  · intro h
    induction h with
    | refl => exact mem_preorder_self root
    | tail _ hc ih => exact mem_preorder_of_child ih hc

/-- If on the way to a node what each child becomes is part of what its parent becomes, what the
node becomes is part of what the whole tree becomes. -/
theorem infix_of_way {body : Node} (h : root.compileContent compiler = .ok out)
    (hb : body ∈ root.preorder)
    (hstep : ∀ node ∈ root.preorder, ∀ child ∈ node.children, body ∈ child.preorder →
      ∀ content out, child.compileContent compiler = .ok content →
        node.compileContent compiler = .ok out → content <:+: out) :
    ∃ content, body.compileContent compiler = .ok content ∧ content <:+: out := by
  have hall := exists_of_compileContent h
  have hway :
      ∀ {node}, Relation.ReflTransGen (fun parent child => child ∈ parent.children) node body →
      node ∈ root.preorder → ∀ out, node.compileContent compiler = .ok out →
        ∃ content, body.compileContent compiler = .ok content ∧ content <:+: out := by
    intro node hway
    -- By induction on the way down, from the body upwards: each step puts one more node around it.
    induction hway using Relation.ReflTransGen.head_induction_on with
    | refl => exact fun _ out h => ⟨out, h, List.infix_rfl⟩
    | @head node child hc hway ih =>
      intro hn out h
      have hm := mem_preorder_of_child hn hc
      obtain ⟨between, hbetween⟩ := hall child hm
      obtain ⟨content, hcontent, hin⟩ := ih hm between hbetween
      have hchild := hstep node hn child hc (mem_preorder_iff_reaches.2 hway) between out hbetween h
      exact ⟨content, hcontent, hin.trans hchild⟩
  exact hway (mem_preorder_iff_reaches.1 hb) (mem_preorder_self root) out h

end Node

namespace Standard

/-- The names of tags whose routines put the body in what they write. -/
def wrappers : List Text :=
  ["if", "list"]

variable [Marker.Serials]

/-- The nodes of every standard name have a routine. -/
theorem exists_wrapping {name : Text} (suffix : Text) (hn : name ∈ nodeNames) :
    ∃ content, (Compiler.standard suffix).routines.get? (Registry.nodeRoutine name) =
        some (Compiler.writing content) ∧
      (name ∈ wrappers → ∀ node out, content node = .ok out → node.bodyContent <:+: out) ∧
      (name ∉ wrappers → ∀ node other : Node, node.givenAttributes = other.givenAttributes →
        content node = content other) := by
  apply exists_writing suffix hn
  case hif | hlist =>
    refine ⟨fun _ node out h => ?_, fun hn => absurd (by decide) hn⟩
    obtain ⟨value, -, h⟩ := Except.bind_eq_ok_iff.1 h
    obtain rfl := Except.ok.inj h
    exact ⟨_, _, rfl⟩
  case helseif =>
    refine ⟨fun h => absurd h (by decide), fun _ node other h => ?_⟩
    rw [elseifNode, elseifNode, h]
  case hinclude =>
    refine ⟨fun h => absurd h (by decide), fun _ node other h => ?_⟩
    rw [includeNode, includeNode, h]
  case hassign =>
    refine ⟨fun h => absurd h (by decide), fun _ node other h => ?_⟩
    rw [assignNode, assignNode, h]
  case helse | hbreak | hcontinue =>
    exact ⟨fun h => absurd h (by decide), fun _ _ _ _ => rfl⟩

end Standard

section

variable [Marker.Serials]

theorem Tag.mem_nodeNames_of_scan {suffix text : Text} {d : Delimiters} {tags : List Tag}
    (h : scan (Compiler.standard suffix).registry d text = .ok tags) :
    ∀ tag ∈ tags, tag.name ∈ Standard.nodeNames := by
  intro tag ht
  obtain ⟨found, -, hfound⟩ := exists_of_mem_right (Except.mapM_eq_ok_iff.1 h) ht
  obtain ⟨entry, hentry, he⟩ := Except.bind_eq_ok_iff.1 hfound
  obtain rfl := Except.ok.inj he
  exact mem_nodeNames_of_nodeTag hentry

end

namespace Forest

open Pairing Node

variable {registry : Registry} {strict : Bool} {d : Delimiters} {names : List Text} {text : Text}
  {lo hi : Int} {f : Forest}

structure Around (d : Delimiters) (names : List Text) (text : Text) (head tail : Tag)
    (inner : Forest) : Prop where
  opens : head.Stands d names text
  closes : tail.Stands d names text
  row : Tag.Row d names text (head.span.last + 1) tail.span.first inner.tags

/-- The nodes of trees of tags: those of a head tag that stands alone, those of a pair, and the
attributes and bodies of both. -/
inductive Member (d : Delimiters) (names : List Text) (text : Text) (tags : List Tag) :
    Node → Prop where
  | argument (head : Tag) : Member d names text tags (attributeNode head)
  | lone {head : Tag} (hm : head ∈ tags) : Member d names text tags (loneNode text head)
  | pair {head tail : Tag} {inner : Forest} (hm : head ∈ tags)
    (ha : Around d names text head tail inner) :
      Member d names text tags (pairNode text head tail (inner.nodes text))
  | body {head tail : Tag} {inner : Forest} (ha : Around d names text head tail inner)
      (hl : head.span.last + 1 < tail.span.first) :
      Member d names text tags ((bodyNode text head tail).withChildren (inner.nodes text))

theorem Member.mono {tags tags' : List Tag} {node : Node} (h : Member d names text tags node)
    (hs : tags ⊆ tags') : Member d names text tags' node := by
  cases h with
  | argument head => exact .argument head
  | lone hm => exact .lone (hs hm)
  | pair hm ha => exact .pair (hs hm) ha
  | body ha hl => exact .body ha hl

theorem members (h : Tag.Row d names text lo hi f.tags) :
    ∀ node ∈ preorders (f.nodes text), Member d names text f.tags node := by
  induction f generalizing lo hi with
  | nil => simp [nodes]
  | stray tail next ih =>
    exact fun node hn => (ih h.2.2.2 node hn).mono (List.subset_cons_self _ _)
  | lone head next ih =>
    obtain ⟨-, -, -, hr⟩ := h
    intro node hn
    rcases mem_preorders_lone.1 hn with rfl | rfl | hn
    · exact .lone List.mem_cons_self
    · exact .argument head
    · exact (ih hr node hn).mono (List.subset_cons_self _ _)
  | pair head inner tail next ihi ih =>
    obtain ⟨-, -, hs, hr⟩ := h
    obtain ⟨hi', ht, hr⟩ := Tag.row_append_cons.1 hr
    have ha : Around d names text head tail inner := ⟨hs, ht, hi'⟩
    intro node hn
    rcases (mem_preorders_pair hs ht hi').1 hn with (rfl | rfl | ⟨hlt, rfl⟩ | hn) | hn
    · exact .pair List.mem_cons_self ha
    · exact .argument head
    · exact .body ha hlt
    · exact (ihi hi' node hn).mono
        (List.subset_cons_of_subset _ (List.subset_append_left _ _))
    · exact (ih hr node hn).mono (List.subset_cons_of_subset _
        (List.subset_append_of_subset_right _ (List.subset_cons_self _ _)))

theorem isBody_of_mem_nodes {node : Node} (hn : node ∈ f.nodes text) : node.isBody = false := by
  induction f with
  | nil => contradiction
  | stray tail next ih => exact ih hn
  | lone head next ih =>
    rcases List.mem_cons.1 hn with rfl | hn
    · rfl
    · exact ih hn
  | pair head inner tail next _ ih =>
    rcases List.mem_cons.1 hn with rfl | hn
    · rfl
    · exact ih hn

theorem body?_eq_none_of_nodes {node : Node} (hc : node.children = f.nodes text) :
    node.body? = none := by
  rw [body?, hc]
  exact List.find?_eq_none.2 fun child hn => by simp [isBody_of_mem_nodes hn]

section Pair

variable {head tail : Tag} {inner : Forest} {suffix out : Text} {node body : Node}

theorem Member.pair_of_body? {tags : List Tag} (h : Member d names text tags node)
    (hb : node.body? = some body) :
    ∃ head ∈ tags, ∃ tail inner, Around d names text head tail inner ∧
      head.span.last + 1 < tail.span.first ∧ node = pairNode text head tail (inner.nodes text) ∧
      body = (bodyNode text head tail).withChildren (inner.nodes text) := by
  cases h with
  | argument head => contradiction
  | lone hm => contradiction
  | @pair head tail inner hm ha =>
    rcases Int.lt_or_eq_of_le ha.row.le with hlt | heq
    · refine ⟨head, hm, tail, inner, ha, hlt, rfl, ?_⟩
      rw [body?, children_pairNode_of_lt ha.opens ha.closes hlt] at hb
      exact (Option.some.inj hb).symm
    · rw [body?, children_pairNode_of_eq ha.opens ha.closes heq] at hb
      contradiction
  | body ha hl =>
    rw [body?_eq_none_of_nodes rfl] at hb
    contradiction

variable [Marker.Serials]

theorem Around.body_of_pairNode (ha : Around d names text head tail inner)
    (hl : head.span.last + 1 < tail.span.first) (hn : head.name ∈ Standard.nodeNames)
    (h : (pairNode text head tail (inner.nodes text)).compileContent (.standard suffix) = .ok out) :
    ∃ body, ((bodyNode text head tail).withChildren (inner.nodes text)).compileContent
        (.standard suffix) = .ok body ∧
      (head.name ∈ Standard.wrappers → body <:+: out) ∧
      (head.name ∉ Standard.wrappers →
        (pairNode text head tail (inner.nodes text)).withoutBody.compileContent (.standard suffix) =
          .ok out) := by
  have hempty := nodes_of_slice_eq_nil ha.opens ha.closes ha.row
  obtain ⟨content, hroutine, hwraps, hdrops⟩ := Standard.exists_wrapping suffix hn
  cases hattributes : head.attributes with
  | error e =>
    rw [pairNode_of_error hattributes] at h
    contradiction
  | ok table =>
    cases hbody : substituted (.standard suffix) (text.slice (head.span.last + 1) tail.span.first)
        (inner.nodes text) with
    | error e =>
      rw [pairNode_of_body_error hattributes hbody hempty] at h
      contradiction
    | ok body =>
      obtain ⟨node, hnode, hgiven, hcontent⟩ := exists_pairNode hroutine hattributes hbody hempty
      rw [hnode] at h
      refine ⟨body, (compileContent_of_routine rfl).trans hbody, ?_, ?_⟩
      · intro hw
        rw [← hcontent]
        exact hwraps hw node out h
      · intro hw
        let bare := (pairNode text head tail (inner.nodes text)).withoutBody
        have hchildren : bare.children = [attributeNode head] := by
          simp only [bare, withoutBody, children_pairNode_of_lt ha.opens ha.closes hl]
          rfl
        obtain ⟨given, hs⟩ := compileChildren_of_forall₂ bare.content
          (.cons (compile_attributeNode suffix hattributes) .nil)
        have hr : bare.routine = some (Registry.nodeRoutine head.name) := rfl
        rw [compileContent_of_writing hr hroutine (hchildren ▸ hs), ← h]
        exact hdrops hw _ node hgiven.symm

end Pair

end Forest

namespace Engine

open Node Pairing

section Standard

variable {suffix text : Text} {strict : Bool} {root : Node}

variable [Marker.Serials]

theorem exists_forest (ht : (standard suffix strict).tree .node text = .ok root) :
    ∃ (names : List Text) (f : Forest), root = (Engine.root text).withChildren (f.nodes text) ∧
      Tag.Row .usual names text 0 text.length f.tags ∧
      f.Matched (Compiler.standard suffix).registry strict none ∧
      ∀ tag ∈ f.tags, tag.name ∈ Standard.nodeNames := by
  have hd := isProper_standard suffix strict
  obtain ⟨f, hscan, hm, rfl⟩ := (tree_node_eq_ok_iff hd).1 ht
  exact ⟨_, f, rfl, Tag.row_of_scan hd hscan, hm, Tag.mem_nodeNames_of_scan hscan⟩

theorem exists_pair (ht : (standard suffix strict).tree .node text = .ok root) {node body : Node}
    (hn : node ∈ root.preorder) (hb : node.body? = some body) :
    ∃ (names : List Text) (head tail : Tag) (inner : Forest), head.name ∈ Standard.nodeNames ∧
      Forest.Around .usual names text head tail inner ∧ head.span.last + 1 < tail.span.first ∧
      node = pairNode text head tail (inner.nodes text) ∧
      body = (bodyNode text head tail).withChildren (inner.nodes text) := by
  obtain ⟨names, f, rfl, hrow, -, hnames⟩ := exists_forest ht
  rw [preorder_eq] at hn
  rcases List.mem_cons.1 hn with rfl | hn
  · rw [Forest.body?_eq_none_of_nodes rfl] at hb
    contradiction
  · obtain ⟨head, hm, tail, inner, ha, hl, hnode, hbody⟩ :=
      (Forest.members hrow node hn).pair_of_body? hb
    exact ⟨names, head, tail, inner, hnames head hm, ha, hl, hnode, hbody⟩

/-- Every node but those whose routines drop their bodies shows what its children become. -/
theorem infix_of_child (ht : (standard suffix strict).tree .node text = .ok root)
    {node child : Node} {content out : Text} (hn : node ∈ root.preorder)
    (hc : child ∈ node.children)
    (hchild : child.isAttribute = false) (hname : ∀ name ∈ node.name, name ∈ Standard.wrappers)
    (hcontent : child.compileContent (.standard suffix) = .ok content)
    (h : node.compileContent (.standard suffix) = .ok out) : content <:+: out := by
  have hfinds : root.FindsChildren := findsChildren_usual rfl (by decide) rfl ht
  obtain ⟨names, f, rfl, hrow, hm, hnames⟩ := exists_forest ht
  rw [preorder_eq] at hn
  rcases List.mem_cons.1 hn with rfl | hn
  · exact hfinds.infix_of_child rfl rfl hc hcontent h
  · have hbodies := Forest.finds_preorders hrow hm node hn
    cases Forest.members hrow node hn with
    | argument head => contradiction
    | lone hmem =>
      obtain rfl := List.mem_singleton.1 hc
      contradiction
    | @pair head tail inner hmem ha =>
      rcases Int.lt_or_eq_of_le ha.row.le with hlt | heq
      · rw [children_pairNode_of_lt ha.opens ha.closes hlt] at hc
        rcases List.mem_pair.1 hc with rfl | rfl
        · contradiction
        · obtain ⟨body, hbody, hwraps, -⟩ := ha.body_of_pairNode hlt (hnames head hmem) h
          obtain rfl := Except.ok.inj (hcontent.symm.trans hbody)
          exact hwraps (hname head.name rfl)
      · rw [children_pairNode_of_eq ha.opens ha.closes heq] at hc
        obtain rfl := List.mem_singleton.1 hc
        contradiction
    | body ha hl =>
      obtain ⟨hsource, hroutine, hf⟩ := hbodies.2 rfl
      exact hf.infix_of_child hroutine hsource hc hcontent h

theorem preorder_of_isAttribute (ht : (standard suffix strict).tree .node text = .ok root)
    {node : Node}
    (hn : node ∈ root.preorder) (ha : node.isAttribute = true) :
    node.preorder = [node] ∧ node.isBody = false := by
  obtain ⟨names, f, rfl, hrow, -, -⟩ := exists_forest ht
  rw [preorder_eq] at hn
  rcases List.mem_cons.1 hn with rfl | hn
  · contradiction
  · cases Forest.members hrow node hn with
    | argument head => exact ⟨Forest.preorder_attributeNode head, rfl⟩
    | lone hm => contradiction
    | pair hm ha' => contradiction
    | body ha' hl => contradiction

end Standard

section

variable [Marker.Serials]

/-- What becomes of the bodies in a tree of the standard node pass that compiles. The content of a
node with a body contains that of the body if its tag's routine puts it in, and else it is what it
would be without the body. -/
theorem body_of_tree (suffix : Text) (strict : Bool) (text out : Text) (root : Node)
    (ht : (standard suffix strict).tree .node text = .ok root)
    (ho : root.compileContent (.standard suffix) = .ok out) :
    (∀ node ∈ root.preorder, ∀ body, node.body? = some body → ∃ name content inner,
      node.name = some name ∧ node.compileContent (.standard suffix) = .ok content ∧
        body.compileContent (.standard suffix) = .ok inner ∧
        (name ∈ Standard.wrappers → inner <:+: content) ∧
        (name ∉ Standard.wrappers →
          node.withoutBody.compileContent (.standard suffix) = .ok content)) ∧
      ∀ body ∈ root.preorder, body.isBody = true →
        (∀ node ∈ root.preorder, body ∈ node.preorder → ∀ name ∈ node.name,
          name ∈ Standard.wrappers) →
        ∃ inner, body.compileContent (.standard suffix) = .ok inner ∧ inner <:+: out := by
  constructor
  · intro node hn body hb
    obtain ⟨content, hcontent⟩ := exists_of_compileContent ho node hn
    obtain ⟨names, head, tail, inner, hname, ha, hl, rfl, rfl⟩ := exists_pair ht hn hb
    obtain ⟨text', hbody, hwraps, hdrops⟩ := ha.body_of_pairNode hl hname hcontent
    exact ⟨head.name, content, text', rfl, hcontent, hbody, hwraps, hdrops⟩
  · intro body hb hbody haround
    refine infix_of_way ho hb fun node hn child hc hbelow content out hcontent h => ?_
    have hchild := mem_preorder_of_child hn hc
    refine infix_of_child ht hn hc ?_ (haround node hn ?_) hcontent h
    · cases ha : child.isAttribute with
      | false => rfl
      | true =>
        obtain ⟨hself, hno⟩ := preorder_of_isAttribute ht hchild ha
        rw [hself, List.mem_singleton] at hbelow
        rw [hbelow, hno] at hbody
        contradiction
    · rw [mem_preorder_iff_reaches] at hbelow ⊢
      exact .head hc hbelow

end

/-- The names of the nodes with a body, what the nodes become and what their bodies become. -/
def outcomesOfBodies (compiler : Compiler) (root : Node) :
    List (Option Text × Except Error Text × Except Error Text) :=
  root.preorder.filterMap fun node => node.body?.map fun body =>
    (node.name, node.compileContent compiler, body.compileContent compiler)

theorem exists_of_outcomesOfBodies {compiler : Compiler} {tree : Except Error Node}
    {name : Option Text} {content inner : Except Error Text}
    (h : tree.map (outcomesOfBodies compiler) = .ok [(name, content, inner)]) :
    ∃ root, tree = .ok root ∧ ∃ node ∈ root.preorder, ∃ body, node.body? = some body ∧
      node.name = name ∧ node.compileContent compiler = content ∧
      body.compileContent compiler = inner := by
  cases tree with
  | error e => contradiction
  | ok root =>
    have hmem : (name, content, inner) ∈ outcomesOfBodies compiler root := by
      rw [Except.ok.inj h]
      exact List.mem_singleton_self _
    obtain ⟨node, hn, hb⟩ := List.mem_filterMap.1 hmem
    obtain ⟨body, hbody, he⟩ := Option.map_eq_some_iff.1 hb
    cases he
    exact ⟨root, rfl, node, hn, body, hbody, rfl, rfl, rfl⟩

attribute [local instance] Marker.Serials.sample

theorem body_of_tree_if :
    ∃ root, (standard ".html" false).tree .node "\x7b% if a %\x7dx\x7b% :if %\x7d" = .ok root ∧
      root.compileContent (.standard ".html") = .ok "\x7b% if a %\x7dx\x7b% endif %\x7d" ∧
      ∃ node ∈ root.preorder, ∃ body, node.body? = some body ∧
        body.compileContent (.standard ".html") = .ok "x" ∧
        ∃ content, node.compileContent (.standard ".html") = .ok content ∧
        ("x" : Text) <:+: content := by
  have houtcomes : ((standard ".html" false).tree .node "\x7b% if a %\x7dx\x7b% :if %\x7d").map
      (outcomesOfBodies (.standard ".html")) =
        .ok [(some "if", .ok "\x7b% if a %\x7dx\x7b% endif %\x7d", .ok "x")] := by cbv
  have hrun : (standard ".html" false).runPass .node "\x7b% if a %\x7dx\x7b% :if %\x7d" =
      .ok "\x7b% if a %\x7dx\x7b% endif %\x7d" := by cbv
  obtain ⟨root, ht, node, hn, body, hb, hname, -, hinner⟩ := exists_of_outcomesOfBodies houtcomes
  rw [runPass, ht] at hrun
  obtain ⟨name, content, inner, hname', hcontent, hinner', hwraps, -⟩ :=
    (body_of_tree ".html" false _ _ root ht hrun).1 node hn body hb
  obtain rfl := Except.ok.inj (hinner.symm.trans hinner')
  obtain rfl := Option.some.inj (hname.symm.trans hname')
  exact ⟨root, ht, hrun, node, hn, body, hb, hinner, content, hcontent, hwraps (by decide)⟩

/-- The text between the tags of a pair that may also stand alone. -/
theorem body_dropped :
    ∃ root, (standard ".html" false).tree .node "\x7b% else %\x7dx\x7b% :else %\x7d" = .ok root ∧
      ∃ node ∈ root.preorder, ∃ body, node.body? = some body ∧
        node.compileContent (.standard ".html") = .ok "\x7b% else %\x7d" ∧
        body.compileContent (.standard ".html") = .ok "x" ∧
        ¬ ("x" : Text) <:+: "\x7b% else %\x7d" := by
  have houtcomes : ((standard ".html" false).tree .node "\x7b% else %\x7dx\x7b% :else %\x7d").map
      (outcomesOfBodies (.standard ".html")) =
        .ok [(some "else", .ok "\x7b% else %\x7d", .ok "x")] := by cbv
  obtain ⟨root, ht, node, hn, body, hb, -, hcontent, hinner⟩ := exists_of_outcomesOfBodies houtcomes
  exact ⟨root, ht, node, hn, body, hb, hcontent, hinner, by decide⟩

end Engine

end ThemeMarkup
