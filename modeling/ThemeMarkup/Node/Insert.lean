import ThemeMarkup.Node.Basic

namespace ThemeMarkup

inductive Relation where
  | before
  | after
  | inside
  | around
  | crossing
  deriving DecidableEq, Repr

/-- How `span` lies to `other`. Spans may share an end point. -/
def Span.relation (span other : Span) : Relation :=
  if span.last ≤ other.first then .before
  else if other.last ≤ span.first then .after
  else if other.first ≤ span.first ∧ span.last ≤ other.last then .inside
  else if span.first ≤ other.first ∧ other.last ≤ span.last then .around
  else .crossing

namespace Node

/-- Two spans that cross: that of a node to be inserted and that of one in its way. -/
abbrev Crossing := Span × Span

def withChildren (node : Node) (children : List Node) : Node :=
  { node with children }

@[simp] theorem weight_withChildren (node : Node) (children : List Node) :
    (node.withChildren children).weight = weights children + 1 := rfl

/-- The siblings after an insertion of a node, which keeps the number of nodes, or the spans that
crossed. -/
abbrev Insertion (node : Node) (siblings : List Node) :=
  { r : Except Crossing (List Node) //
    ∀ nodes, r = .ok nodes → weights nodes = node.weight + weights siblings }

/-- Inserts a node among siblings, the number of nodes being kept. -/
def insertCounted (node : Node) (siblings : List Node) : Insertion node siblings :=
  match siblings with
  | [] => ⟨.ok [node], by rintro _ ⟨⟩; simp⟩
  | sibling :: rest =>
    match node.span.relation sibling.span with
    | .before => ⟨.ok (node :: sibling :: rest), by rintro _ ⟨⟩; simp⟩
    | .after =>
      match insertCounted node rest with
      | ⟨.error crossing, _⟩ => ⟨.error crossing, nofun⟩
      | ⟨.ok nodes, h⟩ => ⟨.ok (sibling :: nodes), by
          rintro _ ⟨⟩; simp only [weights_cons, h nodes rfl]; omega⟩
    | .inside =>
      match insertCounted node sibling.children with
      | ⟨.error crossing, _⟩ => ⟨.error crossing, nofun⟩
      | ⟨.ok children, h⟩ => ⟨.ok (sibling.withChildren children :: rest), by
          rintro _ ⟨⟩
          simp only [weights_cons, weight_withChildren, h children rfl, sibling.weight_eq]; omega⟩
    | .around =>
      match insertCounted sibling node.children with
      | ⟨.error crossing, _⟩ => ⟨.error crossing, nofun⟩
      | ⟨.ok children, h⟩ =>
        have hg : (node.withChildren children).weight = sibling.weight + node.weight := by
          simp only [weight_withChildren, h children rfl, node.weight_eq]; omega
        let ⟨r, hr⟩ := insertCounted (node.withChildren children) rest
        ⟨r, fun nodes hn => by simp only [weights_cons, hr nodes hn, hg]; omega⟩
    | .crossing => ⟨.error (node.span, sibling.span), nofun⟩
termination_by (node.weight + weights siblings, siblings.length)
decreasing_by
  all_goals simp_wf
  · rw [sibling.weight_eq]; left; omega
  · rw [sibling.weight_eq]; left; omega
  · rw [node.weight_eq]; left; omega
  · rw [show weights children + 1 + weights rest = node.weight + (sibling.weight + weights rest) by
      rw [h children rfl, node.weight_eq]; omega]
    exact Prod.Lex.right _ (Nat.lt_succ_self _)

def insertAmong (node : Node) (siblings : List Node) : Except Crossing (List Node) :=
  (insertCounted node siblings).val

@[simp] theorem insertAmong_nil (node : Node) : insertAmong node [] = .ok [node] := by
  unfold insertAmong insertCounted
  rfl

theorem insertAmong_cons (node sibling : Node) (rest : List Node) :
    insertAmong node (sibling :: rest) =
      match node.span.relation sibling.span with
      | .before => .ok (node :: sibling :: rest)
      | .after => (insertAmong node rest).map (sibling :: ·)
      | .inside =>
        (insertAmong node sibling.children).map fun children =>
          sibling.withChildren children :: rest
      | .around =>
        match insertAmong sibling node.children with
        | .ok children => insertAmong (node.withChildren children) rest
        | .error crossing => .error crossing
      | .crossing => .error (node.span, sibling.span) := by
  rw [insertAmong, insertCounted]
  split <;> try rfl
  all_goals
    simp only [insertAmong]
    split <;> simp_all [Except.map]

/-- A node with another one inserted among its children, or the spans that crossed. -/
def insertChild (top node : Node) : Except Crossing Node :=
  (insertAmong node top.children).map top.withChildren

end Node

end ThemeMarkup
