import ThemeMarkup.Proofs.Body

namespace ThemeMarkup

namespace Node

/-- What a head tag says after its name, which the attribute node holds. -/
def argumentText (node : Node) : Text :=
  (node.children.find? (·.isAttribute)).elim [] (·.content)

/-- The attributes that the head tag of a node of some name gives. -/
def attributesOf (name : Text) (node : Node) : Table Text :=
  Compiler.readAttributes ((Standard.knownAttributes.get? name).getD []) node.argumentText

theorem exists_attribute (name key : Text) (h : key ∈ (Standard.knownAttributes.get? name).getD [])
    (node : Node) : ∃ value, (node.attributesOf name).get? key = some value := by
  rw [attributesOf, Compiler.get?_readAttributes, if_pos h]
  cases (Attribute.parse _ _).get? key with
  | none => exact ⟨[], rfl⟩
  | some value => exact ⟨value, rfl⟩

/-- What becomes of the body of a node; nothing if it has none. -/
def bodyOutcome (compiler : Compiler) (node : Node) : Except Error Text :=
  node.body?.elim (.ok []) (·.compileContent compiler)

/-- What the head tags of the nodes without a body say: their names and the text after these. -/
def loneHeads (root : Node) : List (Text × Text) :=
  (root.preorder.filter (·.body?.isNone)).filterMap fun node => node.name.map (·, node.argumentText)

theorem exists_of_loneHeads {tree : Except Error Node} {name argument : Text}
    (h : tree.map loneHeads = .ok [(name, argument)]) :
    ∃ root, tree = .ok root ∧ ∃ node ∈ root.preorder, node.name = some name ∧
      node.argumentText = argument ∧ ∀ compiler, node.bodyOutcome compiler = .ok [] := by
  cases tree with
  | error e => contradiction
  | ok root =>
    have hmem : (name, argument) ∈ loneHeads root := by
      rw [Except.ok.inj h]
      exact List.mem_singleton_self _
    obtain ⟨node, hn, hnode⟩ := List.mem_filterMap.1 hmem
    obtain ⟨hn, hbody⟩ := List.mem_filter.1 hn
    obtain ⟨name', hname, he⟩ := Option.map_eq_some_iff.1 hnode
    cases he
    refine ⟨root, rfl, node, hn, hname, rfl, fun compiler => ?_⟩
    rw [bodyOutcome, Option.isNone_iff_eq_none.1 hbody]
    rfl

end Node

theorem Tag.attributes_eq_ok {head : Tag}
    (h : ∀ key ∈ (Standard.requiredAttributes.get? head.name).getD [],
      Compiler.isMissing (Compiler.readAttributes
        ((Standard.knownAttributes.get? head.name).getD []) head.argument) key = false) :
    head.attributes = .ok (Compiler.readAttributes
      ((Standard.knownAttributes.get? head.name).getD []) head.argument) := by
  have hnone := List.find?_eq_none.2 fun key hk => Bool.not_eq_true _ ▸ h key hk
  rw [attributes, hnone]

namespace Engine

open Node Pairing

variable {engine : Engine} {suffix text : Text} {root : Node}

variable [Marker.Serials]

/-- A node of the tree with a name becomes what the routine of this name writes for a node with the
attributes that the head tag gives and with the compiled body, if no attribute is missing that must
be there. -/
theorem exists_given (hd : engine.delimiters.node.IsProper) (ht : engine.tree .node text = .ok root)
    {node : Node} (hn : node ∈ root.preorder) {name inner : Text} (hname : node.name = some name)
    {content : Node → Except Error Text}
    (hroutine : (Compiler.standard suffix).routines.get? (Registry.nodeRoutine name) =
      some (Compiler.writing content))
    (hr : ∀ key ∈ (Standard.requiredAttributes.get? name).getD [],
      Compiler.isMissing (node.attributesOf name) key = false)
    (hb : node.bodyOutcome (.standard suffix) = .ok inner) :
    ∃ given : Node, node.compileContent (.standard suffix) = content given ∧
      given.givenAttributes = (node.attributesOf name).map some ∧ given.bodyContent = inner := by
  obtain ⟨f, hscan, -, rfl⟩ := (tree_node_eq_ok_iff hd).1 ht
  have hrow := Tag.row_of_scan hd hscan
  rw [preorder_eq] at hn
  rcases List.mem_cons.1 hn with rfl | hn
  · contradiction
  · cases Forest.members hrow node hn with
    | argument head => contradiction
    | body ha hl => contradiction
    | @lone head hm =>
      obtain rfl := Option.some.inj hname
      obtain rfl := Except.ok.inj hb
      exact exists_loneNode text hroutine (Tag.attributes_eq_ok hr)
    | @pair head tail f' hm ha =>
      obtain rfl := Option.some.inj hname
      have hempty := Forest.nodes_of_slice_eq_nil ha.opens ha.closes ha.row
      have hbody : substituted (.standard suffix)
          (text.slice (head.span.last + 1) tail.span.first) (f'.nodes text) = .ok inner := by
        rcases Int.lt_or_eq_of_le ha.row.le with hlt | heq
        · rw [bodyOutcome, body?, children_pairNode_of_lt ha.opens ha.closes hlt] at hb
          exact (compileContent_of_routine rfl).symm.trans hb
        · rw [bodyOutcome, body?, children_pairNode_of_eq ha.opens ha.closes heq] at hb
          have hslice : text.slice (head.span.last + 1) tail.span.first = [] := by
            have hnone := bodyNodes_of_eq ha.opens ha.closes heq
            rw [bodyNodes] at hnone
            split at hnone
            · assumption
            · contradiction
          rw [hslice, hempty hslice, Node.substituted_nil]
          exact hb
      exact exists_pairNode hroutine (Tag.attributes_eq_ok hr) hbody hempty

end Engine

end ThemeMarkup
