import Mathlib.Data.List.Forall2
import ThemeMarkup.Engine

namespace ThemeMarkup

namespace Span

variable {span other : Span}

def IsOrdered (span : Span) : Prop :=
  span.first ≤ span.last

theorem relation_before (h : span.last ≤ other.first) : span.relation other = .before :=
  if_pos h

theorem relation_after (h : other.last ≤ span.first) (hn : other.first < span.last) :
    span.relation other = .after := by
  rw [relation, if_neg (by omega), if_pos h]

theorem relation_inside (hb : other.first < span.last) (ha : span.first < other.last)
    (hf : other.first ≤ span.first) (hl : span.last ≤ other.last) :
    span.relation other = .inside := by
  rw [relation, if_neg (by omega), if_neg (by omega), if_pos ⟨hf, hl⟩]

theorem relation_around (hb : other.first < span.last) (ha : span.first < other.last)
    (hf : span.first < other.first) (hl : other.last ≤ span.last) :
    span.relation other = .around := by
  rw [relation, if_neg (by omega), if_neg (by omega), if_neg (by omega), if_pos ⟨by omega, hl⟩]

theorem relation_after_of_lt (ho : other.IsOrdered) (hs : span.IsOrdered)
    (h : other.last < span.first) : span.relation other = .after := by
  unfold IsOrdered at ho hs
  exact relation_after (by omega) (by omega)

end Span

namespace Node

variable {node : Node} {siblings : List Node}

theorem insertAmong_after (h : ∀ sibling ∈ siblings, node.span.relation sibling.span = .after) :
    insertAmong node siblings = .ok (siblings ++ [node]) := by
  induction siblings with
  | nil => rw [insertAmong_nil, List.nil_append]
  | cons sibling siblings ih =>
    rw [insertAmong_cons, h sibling List.mem_cons_self]
    dsimp only
    rw [ih fun s hs => h s (List.mem_cons_of_mem _ hs)]
    rfl

theorem insertAmong_before
    (h : ∀ sibling ∈ siblings.head?, node.span.relation sibling.span = .before) :
    insertAmong node siblings = .ok (node :: siblings) := by
  cases siblings with
  | nil => exact insertAmong_nil node
  | cons sibling siblings =>
    rw [insertAmong_cons, h sibling rfl]

/-- The nodes lie in the order of the list, none overlapping the next. -/
def InOrder (nodes : List Node) : Prop :=
  (∀ node ∈ nodes, node.span.IsOrdered) ∧
    nodes.Pairwise fun node next => node.span.last < next.span.first

theorem InOrder.of_cons {nodes : List Node} (h : InOrder (node :: nodes)) : InOrder nodes :=
  ⟨fun n hn => h.1 n (List.mem_cons_of_mem _ hn), (List.pairwise_cons.1 h.2).2⟩

theorem foldlM_insert {nodes : List Node} (siblings : List Node) (root : Node)
    (h : InOrder (siblings ++ nodes)) :
    nodes.foldlM Engine.insert (root.withChildren siblings) =
      .ok (root.withChildren (siblings ++ nodes)) := by
  induction nodes generalizing siblings with
  | nil => rw [List.append_nil]; rfl
  | cons node nodes ih =>
    have hafter : ∀ sibling ∈ siblings, node.span.relation sibling.span = .after := fun s hs =>
      Span.relation_after_of_lt (h.1 s (by simp [hs])) (h.1 node (by simp))
        ((List.pairwise_append.1 h.2).2.2 s hs node List.mem_cons_self)
    have hstep : Engine.insert (root.withChildren siblings) node =
        .ok (root.withChildren (siblings ++ [node])) := by
      rw [Engine.insert, insertChild]
      simp only [withChildren, insertAmong_after hafter, Except.map]
    rw [List.append_cons] at h ⊢
    rw [List.foldlM_cons, hstep]
    exact ih (siblings ++ [node]) h

end Node

end ThemeMarkup
