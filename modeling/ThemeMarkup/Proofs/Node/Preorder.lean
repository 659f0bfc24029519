import ThemeMarkup.Node.Insert

namespace ThemeMarkup

def Span.Holds (span other : Span) : Prop :=
  span.first ≤ other.first ∧ other.last ≤ span.last

namespace Node

mutual

/-- All nodes of a tree, each before those below it. -/
def preorder : Node → List Node
  | ⟨piece, children⟩ => ⟨piece, children⟩ :: preorders children

def preorders : List Node → List Node
  | [] => []
  | node :: nodes => node.preorder ++ preorders nodes

end

theorem preorder_eq (node : Node) : node.preorder = node :: preorders node.children := by
  cases node
  rw [preorder]

@[simp] theorem preorders_nil : preorders [] = [] := by
  rw [preorders]

@[simp] theorem preorders_cons (node : Node) (nodes : List Node) :
    preorders (node :: nodes) = node.preorder ++ preorders nodes := by
  rw [preorders]

theorem preorders_append (l l' : List Node) :
    preorders (l ++ l') = preorders l ++ preorders l' := by
  induction l with
  | nil => rw [List.nil_append, preorders_nil, List.nil_append]
  | cons node l ih => rw [List.cons_append, preorders_cons, preorders_cons, ih, List.append_assoc]

theorem mem_preorder_self (node : Node) : node ∈ node.preorder := by
  rw [preorder_eq]
  exact List.mem_cons_self

theorem mem_preorders_of_mem {node : Node} {nodes : List Node} (h : node ∈ nodes) :
    node ∈ preorders nodes := by
  induction nodes with
  | nil => contradiction
  | cons first nodes ih =>
    rw [preorders_cons, List.mem_append]
    rcases List.mem_cons.1 h with rfl | h
    · exact .inl (mem_preorder_self node)
    · exact .inr (ih h)

mutual

theorem mem_preorder_of_child {root node child : Node} (hn : node ∈ root.preorder)
    (hc : child ∈ node.children) : child ∈ root.preorder := by
  cases root with
  | mk piece children =>
    rw [preorder_eq] at hn ⊢
    rcases List.mem_cons.1 hn with rfl | hn
    · exact List.mem_cons_of_mem _ (mem_preorders_of_mem hc)
    · exact List.mem_cons_of_mem _ (mem_preorders_of_child hn hc)

theorem mem_preorders_of_child {nodes : List Node} {node child : Node} (hn : node ∈ preorders nodes)
    (hc : child ∈ node.children) : child ∈ preorders nodes := by
  cases nodes with
  | nil => simp at hn
  | cons first nodes =>
    rw [preorders_cons, List.mem_append] at hn ⊢
    rcases hn with hn | hn
    · exact .inl (mem_preorder_of_child hn hc)
    · exact .inr (mem_preorders_of_child hn hc)

end

mutual

theorem forall_mem_preorder {P : Node → Prop} {root : Node} (hroot : P root)
    (hchild : ∀ node, P node → ∀ child ∈ node.children, P child) :
    ∀ node ∈ root.preorder, P node := by
  cases root with
  | mk piece children =>
    rw [preorder_eq]
    exact List.forall_mem_cons.2 ⟨hroot, forall_mem_preorders (hchild _ hroot) hchild⟩

theorem forall_mem_preorders {P : Node → Prop} {nodes : List Node} (hnodes : ∀ node ∈ nodes, P node)
    (hchild : ∀ node, P node → ∀ child ∈ node.children, P child) :
    ∀ node ∈ preorders nodes, P node := by
  cases nodes with
  | nil => simp
  | cons first nodes =>
    obtain ⟨hfirst, hnodes⟩ := List.forall_mem_cons.1 hnodes
    rw [preorders_cons]
    exact List.forall_mem_append.2
      ⟨forall_mem_preorder hfirst hchild, forall_mem_preorders hnodes hchild⟩

end

end Node

end ThemeMarkup
