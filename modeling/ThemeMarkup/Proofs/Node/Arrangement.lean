import ThemeMarkup.Proofs.Node.Insert
import ThemeMarkup.Proofs.Node.Preorder

namespace ThemeMarkup

namespace Span

variable {span other inner : Span}

/-- A span holds another one, the ends of which are not both its own. -/
def Over (span other : Span) : Prop :=
  span.Holds other ∧ ¬ other.Holds span

/-- Two spans differ, and lie apart or one in the other. They may share ends. -/
structure Fits (span other : Span) : Prop where
  distinct : ¬ (span.first = other.first ∧ span.last = other.last)
  nested : span.last ≤ other.first ∨ other.last ≤ span.first ∨ other.Holds span ∨ span.Holds other

instance (span other : Span) : Decidable (span.Holds other) :=
  inferInstanceAs (Decidable (_ ∧ _))

instance (span other : Span) : Decidable (span.Fits other) :=
  decidable_of_iff (¬ (span.first = other.first ∧ span.last = other.last) ∧
      (span.last ≤ other.first ∨ other.last ≤ span.first ∨ other.Holds span ∨ span.Holds other))
    ⟨fun h => ⟨h.1, h.2⟩, fun h => ⟨h.1, h.2⟩⟩

/-- A span begins before another one or, where both begin, is the longer one. -/
def Precedes (span other : Span) : Prop :=
  span.first < other.first ∨ span.first = other.first ∧ other.last < span.last

theorem Holds.trans (h : span.Holds other) (ho : other.Holds inner) : span.Holds inner :=
  ⟨Int.le_trans h.1 ho.1, Int.le_trans ho.2 h.2⟩

theorem Over.trans_holds (h : span.Over other) (ho : other.Holds inner) : span.Over inner :=
  ⟨h.1.trans ho, fun hi => h.2 (ho.trans hi)⟩

theorem Fits.symm (h : span.Fits other) : other.Fits span := by
  refine ⟨fun he => h.distinct ⟨he.1.symm, he.2.symm⟩, ?_⟩
  rcases h.nested with hb | ha | hi | ho
  · exact .inr (.inl hb)
  · exact .inl ha
  · exact .inr (.inr (.inr hi))
  · exact .inr (.inr (.inl ho))

theorem Fits.cases (h : span.Fits other) :
    span.last ≤ other.first ∨ other.last ≤ span.first ∨ other.Over span ∨ span.Over other := by
  have hboth : span.Holds other → other.Holds span → False := fun hs ho =>
    h.distinct ⟨Int.le_antisymm hs.1 ho.1, Int.le_antisymm ho.2 hs.2⟩
  rcases h.nested with hb | ha | hi | ho
  · exact .inl hb
  · exact .inr (.inl ha)
  · exact .inr (.inr (.inl ⟨hi, fun hs => hboth hs hi⟩))
  · exact .inr (.inr (.inr ⟨ho, hboth ho⟩))

theorem Over.precedes (h : span.Over other) : span.Precedes other := by
  obtain ⟨⟨hf, hl⟩, hn⟩ := h
  rcases Int.lt_or_eq_of_le hf with hf | hf
  · exact .inl hf
  · exact .inr ⟨hf, Int.lt_of_not_ge fun hle => hn ⟨Int.le_of_eq hf.symm, hle⟩⟩

theorem Over.relation_inside (h : other.Over span) (hs : span.first < span.last) :
    span.relation other = .inside := by
  obtain ⟨⟨hf, hl⟩, -⟩ := h
  exact Span.relation_inside (by omega) (by omega) hf hl

theorem Over.relation_around (h : span.Over other) (ho : other.first < other.last) :
    span.relation other = .around := by
  obtain ⟨⟨hf, hl⟩, hn⟩ := h
  rw [relation, if_neg (by omega), if_neg (by omega), if_neg (show ¬ (_ ∧ _) from hn),
    if_pos ⟨hf, hl⟩]

end Span

theorem eq_and_eq_of_forall {α : Type} {q : α → Prop} [DecidablePred q] {l l' r r' : List α}
    (h : l ++ r = l' ++ r') (hl : ∀ a ∈ l, q a) (hl' : ∀ a ∈ l', q a) (hr : ∀ a ∈ r, ¬ q a)
    (hr' : ∀ a ∈ r', ¬ q a) : l = l' ∧ r = r' := by
  have hfilter (l r : List α) (hl : ∀ a ∈ l, q a) (hr : ∀ a ∈ r, ¬ q a) :
      (l ++ r).filter q = l := by
    have hall : l.filter q = l := List.filter_eq_self.2 fun a ha => decide_eq_true (hl a ha)
    have hnone : r.filter q = [] := List.filter_eq_nil_iff.2 fun a ha => by simpa using hr a ha
    rw [List.filter_append, hall, hnone, List.append_nil]
  have he : l = l' := by rw [← hfilter l r hl hr, h, hfilter l' r' hl' hr']
  subst he
  exact ⟨rfl, List.append_cancel_left h⟩

namespace Node

theorem withChildren_self (node : Node) : node.withChildren node.children = node := by
  cases node
  rfl

/-- What the nodes of some trees are apart from their children, tree after tree. -/
def pieces (nodes : List Node) : List Piece :=
  (preorders nodes).map (·.toPiece)

@[simp] theorem pieces_nil : pieces [] = [] := by
  rw [pieces, preorders_nil, List.map_nil]

@[simp] theorem pieces_cons (node : Node) (nodes : List Node) :
    pieces (node :: nodes) = node.toPiece :: (pieces node.children ++ pieces nodes) := by
  rw [pieces, preorders_cons, preorder_eq, List.cons_append, List.map_cons, List.map_append]
  rfl

@[simp] theorem pieces_append (nodes nodes' : List Node) :
    pieces (nodes ++ nodes') = pieces nodes ++ pieces nodes' := by
  rw [pieces, preorders_append, List.map_append]
  rfl

theorem pieces_eq_append (node : Node) (nodes : List Node) :
    pieces (node :: nodes) = pieces [node] ++ pieces nodes :=
  pieces_append [node] nodes

theorem pieces_subset_cons (node : Node) (nodes : List Node) :
    pieces nodes ⊆ pieces (node :: nodes) := by
  rw [pieces_eq_append]
  exact List.subset_append_right _ _

theorem pieces_children_subset (node : Node) (nodes : List Node) :
    pieces node.children ⊆ pieces (node :: nodes) := by
  rw [pieces_cons]
  exact List.subset_cons_of_subset _ (List.subset_append_left _ _)

theorem toPiece_mem_pieces {node : Node} {nodes : List Node} (h : node ∈ nodes) :
    node.toPiece ∈ pieces nodes :=
  List.mem_map_of_mem (mem_preorders_of_mem h)

/-- Trees that are as insertion leaves them: nodes are longer than a character, lie around their
children, and end before the next sibling begins or where it does. -/
inductive Neat : List Node → Prop where
  | nil : Neat []
  | cons {node : Node} {rest : List Node} (long : node.span.first < node.span.last)
      (covers : ∀ child ∈ node.children, node.span.Over child.span) (below : Neat node.children)
      (before : ∀ next ∈ rest, node.span.last ≤ next.span.first) (more : Neat rest) :
      Neat (node :: rest)

namespace Neat

variable {node : Node} {nodes rest siblings : List Node} {piece : Piece}

theorem of_childless (hc : node.children = []) (hl : node.span.first < node.span.last) :
    Neat [node] := by
  refine .cons hl ?_ ?_ (List.forall_mem_nil _) .nil
  · rw [hc]
    exact List.forall_mem_nil _
  · rw [hc]
    exact .nil

theorem long (h : Neat nodes) (hm : piece ∈ pieces nodes) : piece.span.first < piece.span.last := by
  induction h with
  | nil => simp at hm
  | cons hl _ _ _ _ ihb ihm =>
    rw [pieces_cons, List.mem_cons, List.mem_append] at hm
    rcases hm with rfl | hm | hm
    · exact hl
    · exact ihb hm
    · exact ihm hm

theorem exists_holds (h : Neat nodes) (hm : piece ∈ pieces nodes) :
    ∃ node ∈ nodes, node.span.Holds piece.span := by
  induction h with
  | nil => simp at hm
  | @cons node rest _ covers _ _ _ ihb ihm =>
    rw [pieces_cons, List.mem_cons, List.mem_append] at hm
    rcases hm with rfl | hm | hm
    · exact ⟨node, List.mem_cons_self, Int.le_refl _, Int.le_refl _⟩
    · obtain ⟨child, hc, hh⟩ := ihb hm
      exact ⟨node, List.mem_cons_self, (covers child hc).1.trans hh⟩
    · obtain ⟨next, hn, hh⟩ := ihm hm
      exact ⟨next, List.mem_cons_of_mem _ hn, hh⟩

theorem head (h : Neat (node :: rest)) : Neat [node] := by
  cases h with
  | cons long covers below _ _ => exact .cons long covers below (List.forall_mem_nil _) .nil

theorem tail (h : Neat (node :: rest)) : Neat rest := by
  cases h with
  | cons _ _ _ _ more => exact more

theorem children (h : Neat (node :: rest)) : Neat node.children := by
  cases h with
  | cons _ _ below _ _ => exact below

theorem covers (h : Neat (node :: rest)) (hm : piece ∈ pieces node.children) :
    node.span.Over piece.span := by
  cases h with
  | cons _ covers below _ _ =>
    obtain ⟨child, hc, hh⟩ := below.exists_holds hm
    exact (covers child hc).trans_holds hh

theorem before (h : Neat (node :: rest)) (hm : piece ∈ pieces rest) :
    node.span.last ≤ piece.span.first := by
  cases h with
  | cons _ _ _ before more =>
    obtain ⟨next, hn, hh⟩ := more.exists_holds hm
    exact Int.le_trans (before next hn) hh.1

theorem pairwise (h : Neat nodes) :
    nodes.Pairwise fun node next => node.span.last ≤ next.span.first := by
  induction h with
  | nil => exact .nil
  | cons _ _ _ before _ _ ihm => exact .cons before ihm

theorem append (h : Neat nodes) (hr : Neat rest)
    (hb : ∀ node ∈ nodes, ∀ next ∈ rest, node.span.last ≤ next.span.first) :
    Neat (nodes ++ rest) := by
  induction h with
  | nil => exact hr
  | @cons node more hl covers below before _ _ ihm =>
    refine .cons hl covers below (fun next hn => ?_)
      (ihm fun n hn => hb n (List.mem_cons_of_mem _ hn))
    exact (List.mem_append.1 hn).elim (before next) (hb node List.mem_cons_self next)

theorem adopt {child : Node} (h : Neat [node]) (hc : Neat [child]) (ho : node.span.Over child.span)
    (hb : ∀ other ∈ node.children, other.span.last ≤ child.span.first) :
    Neat [node.withChildren (node.children ++ [child])] := by
  have hlong : node.span.first < node.span.last := h.long (toPiece_mem_pieces List.mem_cons_self)
  refine .cons hlong (fun other hm => ?_) (h.children.append hc fun other hm next hn => ?_)
    (List.forall_mem_nil _) .nil
  · rcases List.mem_append.1 hm with hm | hm
    · exact h.covers (toPiece_mem_pieces hm)
    · obtain rfl := List.mem_singleton.1 hm
      exact ho
  · obtain rfl := List.mem_singleton.1 hn
    exact hb other hm

/-- A node can be inserted among siblings if it lies apart from, in or around each node of theirs
and has no children after them. -/
structure Admits (siblings : List Node) (node : Node) : Prop where
  fits : ∀ piece ∈ pieces siblings, node.span.Fits piece.span
  after : ∀ child ∈ node.children, ∀ sibling ∈ siblings, child.span.last ≤ sibling.span.first

/-- The siblings after an insertion: neat, with the node and what it holds among the rest. -/
def Inserts (node : Node) (siblings : List Node) : Prop :=
  ∃ nodes, insertAmong node siblings = .ok nodes ∧ Neat nodes ∧
    (pieces nodes).Perm (pieces [node] ++ pieces siblings)

variable {sibling : Node}

theorem inserts_before (hn : Neat [node]) (hs : Neat (sibling :: rest))
    (hb : node.span.last ≤ sibling.span.first) : Inserts node (sibling :: rest) := by
  have hrelation : node.span.relation sibling.span = .before := Span.relation_before hb
  refine ⟨node :: sibling :: rest, ?_, hn.append hs fun _ hm next hnext => ?_, ?_⟩
  · rw [insertAmong_cons, hrelation]
  · obtain rfl := List.mem_singleton.1 hm
    rcases List.mem_cons.1 hnext with rfl | hnext
    · exact hb
    · have hlong := hs.long (toPiece_mem_pieces List.mem_cons_self)
      have hlast := hs.before (toPiece_mem_pieces hnext)
      omega
  · exact .of_eq (pieces_eq_append node _)

theorem inserts_after (hn : Neat [node]) (hs : Neat (sibling :: rest))
    (ha : sibling.span.last ≤ node.span.first) (h : Inserts node rest) :
    Inserts node (sibling :: rest) := by
  obtain ⟨nodes, hok, hneat, hperm⟩ := h
  have hlong := hs.long (toPiece_mem_pieces List.mem_cons_self)
  have hlong' := hn.long (toPiece_mem_pieces List.mem_cons_self)
  have hrelation : node.span.relation sibling.span = .after := Span.relation_after ha (by omega)
  refine ⟨sibling :: nodes, ?_, hs.head.append hneat fun _ hm next hnext => ?_, ?_⟩
  · rw [insertAmong_cons, hrelation, hok]
    rfl
  · obtain rfl := List.mem_singleton.1 hm
    rcases List.mem_append.1 (hperm.mem_iff.1 (toPiece_mem_pieces hnext)) with hp | hp
    · obtain ⟨_, hm, hholds⟩ := hn.exists_holds hp
      obtain rfl := List.mem_singleton.1 hm
      exact Int.le_trans ha hholds.1
    · exact hs.before hp
  · rw [pieces_eq_append sibling nodes, pieces_eq_append sibling rest]
    exact (hperm.append_left _).trans (List.perm_append_comm_assoc ..)

theorem inserts_inside (hn : Neat [node]) (hs : Neat (sibling :: rest))
    (ho : sibling.span.Over node.span) (h : Inserts node sibling.children) :
    Inserts node (sibling :: rest) := by
  obtain ⟨nodes, hok, hneat, hperm⟩ := h
  have hlong := hs.long (toPiece_mem_pieces List.mem_cons_self)
  have hrelation : node.span.relation sibling.span = .inside :=
    ho.relation_inside (hn.long (toPiece_mem_pieces List.mem_cons_self))
  refine ⟨sibling.withChildren nodes :: rest, ?_, .cons hlong (fun child hc => ?_) hneat
    (fun next hm => hs.before (toPiece_mem_pieces hm)) hs.tail, ?_⟩
  · rw [insertAmong_cons, hrelation, hok]
    rfl
  · rcases List.mem_append.1 (hperm.mem_iff.1 (toPiece_mem_pieces hc)) with hp | hp
    · obtain ⟨_, hm, hholds⟩ := hn.exists_holds hp
      obtain rfl := List.mem_singleton.1 hm
      exact ho.trans_holds hholds
    · exact hs.covers hp
  · rw [pieces_cons, pieces_cons sibling]
    refine .trans ((hperm.append_right _).cons _) ?_
    rw [List.append_assoc]
    exact List.perm_middle.symm

theorem inserts_around (hn : Neat [node]) (hs : Neat (sibling :: rest))
    (ho : node.span.Over sibling.span)
    (ha : ∀ child ∈ node.children, child.span.last ≤ sibling.span.first)
    (h : Inserts (node.withChildren (node.children ++ [sibling])) rest) :
    Inserts node (sibling :: rest) := by
  obtain ⟨nodes, hok, hneat, hperm⟩ := h
  have hlong := hs.long (toPiece_mem_pieces List.mem_cons_self)
  have hrelation : node.span.relation sibling.span = .around := ho.relation_around hlong
  have hlast : insertAmong sibling node.children = .ok (node.children ++ [sibling]) := by
    refine insertAmong_after fun child hc => Span.relation_after (ha child hc) ?_
    have hchild := hn.children.long (toPiece_mem_pieces hc)
    have hfirst := ha child hc
    omega
  refine ⟨nodes, ?_, hneat, hperm.trans (.of_eq ?_)⟩
  · rw [insertAmong_cons, hrelation, hlast]
    exact hok
  · rw [pieces_cons, pieces_cons, pieces_cons sibling]
    simp [withChildren]

/-- An insertion finds a place and leaves the siblings neat. -/
theorem inserts (hs : Neat siblings) (hn : Neat [node]) (ha : Admits siblings node) :
    Inserts node siblings := by
  induction hs generalizing node with
  | nil => exact ⟨[node], insertAmong_nil node, hn, .of_eq (List.append_nil _).symm⟩
  | @cons sibling rest long covers below before more ihb ihm =>
    have hs : Neat (sibling :: rest) := .cons long covers below before more
    have hrest := pieces_subset_cons sibling rest
    have hinner := pieces_children_subset sibling rest
    have hmem : sibling ∈ sibling :: rest := List.mem_cons_self
    rcases (ha.fits _ (toPiece_mem_pieces List.mem_cons_self)).cases with hb | hf | hi | ho
    · exact inserts_before hn hs hb
    · exact inserts_after hn hs hf (ihm hn ⟨fun p hp => ha.fits p (hrest hp),
        fun child hc next hm => ha.after child hc next (List.mem_cons_of_mem _ hm)⟩)
    · refine inserts_inside hn hs hi
        (ihb hn ⟨fun p hp => ha.fits p (hinner hp), fun child hc c hm => ?_⟩)
      exact Int.le_trans (ha.after child hc sibling hmem) (covers c hm).1.1
    · have hlast (child : Node) (hc : child ∈ node.children) :
          child.span.last ≤ sibling.span.first :=
        ha.after child hc sibling hmem
      refine inserts_around hn hs ho hlast (ihm (hn.adopt hs.head ho hlast) ⟨fun p hp => ?_, ?_⟩)
      · exact ha.fits p (hrest hp)
      · intro child hc next hm
        rcases List.mem_append.1 hc with hc | hc
        · exact ha.after child hc next (List.mem_cons_of_mem _ hm)
        · obtain rfl := List.mem_singleton.1 hc
          exact before next hm

theorem exists_foldlM (hs : Neat siblings) (top : Node) {order : List Node}
    (hc : ∀ node ∈ order, node.children = [])
    (hl : ∀ node ∈ order, node.span.first < node.span.last)
    (hf : (pieces siblings ++ order.map (·.toPiece)).Pairwise fun p q => p.span.Fits q.span) :
    ∃ roots, order.foldlM insertChild (top.withChildren siblings) = .ok (top.withChildren roots) ∧
      Neat roots ∧ (pieces roots).Perm (pieces siblings ++ order.map (·.toPiece)) := by
  induction order generalizing siblings with
  | nil => exact ⟨siblings, rfl, hs, .of_eq (List.append_nil _).symm⟩
  | cons node order ih =>
    have hn : Neat [node] := of_childless (hc node List.mem_cons_self) (hl node List.mem_cons_self)
    have hnone : node.children = [] := hc node List.mem_cons_self
    have hadmits : Admits siblings node := by
      refine ⟨fun p hp => ?_, ?_⟩
      · exact ((List.pairwise_append.1 hf).2.2 p hp _ List.mem_cons_self).symm
      · rw [hnone]
        exact List.forall_mem_nil _
    obtain ⟨nodes, hok, hneat, hperm⟩ := hs.inserts hn hadmits
    have hnode : pieces [node] = [node.toPiece] := by
      rw [pieces_cons, hnone]
      simp
    rw [hnode] at hperm
    have hall : (pieces nodes ++ order.map (·.toPiece)).Perm
        (pieces siblings ++ (node :: order).map (·.toPiece)) :=
      (hperm.append_right _).trans List.perm_middle.symm
    obtain ⟨roots, hfold, hroots, hrest⟩ := ih hneat (fun n hm => hc n (List.mem_cons_of_mem _ hm))
      (fun n hm => hl n (List.mem_cons_of_mem _ hm)) (hf.perm hall.symm Span.Fits.symm)
    refine ⟨roots, ?_, hroots, hrest.trans hall⟩
    have hstep : insertChild (top.withChildren siblings) node = .ok (top.withChildren nodes) := by
      rw [insertChild]
      simp only [withChildren, hok, Except.map]
    rw [List.foldlM_cons, hstep]
    exact hfold

theorem sorted (h : Neat nodes) : (pieces nodes).Pairwise fun p q => p.span.Precedes q.span := by
  induction h with
  | nil => simp
  | @cons node rest long covers below before more ihb ihm =>
    have h : Neat (node :: rest) := .cons long covers below before more
    rw [pieces_cons]
    refine .cons (fun p hp => ?_) (List.pairwise_append.2 ⟨ihb, ihm, fun p hp q hq => .inl ?_⟩)
    · rcases List.mem_append.1 hp with hp | hp
      · exact (h.covers hp).precedes
      · exact .inl (Int.lt_of_lt_of_le long (h.before hp))
    · have hlong := below.long hp
      have hlast := (h.covers hp).1.2
      have hfirst := h.before hq
      omega

theorem eq_of_pieces {nodes' : List Node} (h : Neat nodes) (h' : Neat nodes')
    (he : pieces nodes = pieces nodes') : nodes = nodes' := by
  induction h generalizing nodes' with
  | nil =>
    cases h' with
    | nil => rfl
    | cons => simp at he
  | @cons node rest long covers below before more ihb ihm =>
    have h : Neat (node :: rest) := .cons long covers below before more
    cases h' with
    | nil => simp at he
    | @cons node' rest' long' covers' below' before' more' =>
      have h' : Neat (node' :: rest') := .cons long' covers' below' before' more'
      rw [pieces_cons, pieces_cons] at he
      obtain ⟨hpiece, hrest⟩ := List.cons.inj he
      have hspan : node.span = node'.span := congrArg Piece.span hpiece
      have hlate (p : Piece) (hb : node.span.last ≤ p.span.first)
          (hl : p.span.first < p.span.last) :
          ¬ p.span.last ≤ node.span.last := by
        omega
      -- What ends no later than the node is below it, and what comes after it ends later.
      obtain ⟨hchildren, hnext⟩ :=
        eq_and_eq_of_forall (q := fun p => p.span.last ≤ node.span.last) hrest
        (fun p hp => (h.covers hp).1.2) (fun p hp => hspan ▸ (h'.covers hp).1.2)
        (fun p hp => hlate p (h.before hp) (more.long hp))
        (fun p hp => hlate p (hspan ▸ h'.before hp) (more'.long hp))
      obtain rfl := ihm more' hnext
      have hbelow := ihb below' hchildren
      obtain ⟨piece, children⟩ := node
      obtain ⟨piece', children'⟩ := node'
      obtain rfl : piece = piece' := hpiece
      obtain rfl : children = children' := hbelow
      rfl

theorem eq_of_perm {nodes' : List Node} (h : Neat nodes) (h' : Neat nodes')
    (hp : (pieces nodes).Perm (pieces nodes')) : nodes = nodes' := by
  refine h.eq_of_pieces h' (hp.eq_of_pairwise (fun p q _ _ hpq hqp => ?_) h.sorted h'.sorted)
  rcases hpq with hpq | hpq <;> rcases hqp with hqp | hqp <;> omega

theorem not_over {p q : Piece} (h : Neat (node :: rest)) (hp : p ∈ pieces [node])
    (hq : q ∈ pieces rest) :
    ¬ p.span.Over q.span ∧ ¬ q.span.Over p.span := by
  obtain ⟨_, hm, hholds⟩ := h.head.exists_holds hp
  obtain rfl := List.mem_singleton.1 hm
  have hlast := hholds.2
  have hfirst := h.before hq
  have hlong := h.head.long hp
  have hlong' := h.tail.long hq
  constructor
  · rintro ⟨⟨-, hl⟩, -⟩
    omega
  · rintro ⟨⟨hf, -⟩, -⟩
    omega

theorem not_over_root (h : Neat nodes) (hn : node ∈ nodes) (hp : piece ∈ pieces nodes) :
    ¬ piece.span.Over node.span := by
  induction h with
  | nil => contradiction
  | @cons root rest long covers below before more _ ihm =>
    have h : Neat (root :: rest) := .cons long covers below before more
    rw [pieces_eq_append, List.mem_append] at hp
    rcases List.mem_cons.1 hn with rfl | hn
    · rcases hp with hp | hp
      · obtain ⟨_, hm, hholds⟩ := h.head.exists_holds hp
        obtain rfl := List.mem_singleton.1 hm
        exact fun ho => ho.2 hholds
      · exact (h.not_over (toPiece_mem_pieces List.mem_cons_self) hp).2
    · rcases hp with hp | hp
      · exact (h.not_over hp (toPiece_mem_pieces hn)).1
      · exact ihm hn hp

/-- A node is the smallest one around a child of its. -/
theorem holds_of_over {child : Node} (h : Neat nodes) (hn : node ∈ preorders nodes)
    (hc : child ∈ node.children) (hp : piece ∈ pieces nodes) (ho : piece.span.Over child.span) :
    piece.span.Holds node.span := by
  induction h with
  | nil => simp at hn
  | @cons root rest long covers below before more ihb ihm =>
    have h : Neat (root :: rest) := .cons long covers below before more
    rw [preorders_cons, preorder_eq, List.mem_append, List.mem_cons] at hn
    rw [pieces_eq_append, List.mem_append] at hp
    rcases hn with hn | hn
    · have hchild : child.toPiece ∈ pieces [root] := by
        rw [pieces_cons, pieces_nil, List.append_nil]
        refine List.mem_cons_of_mem _ (List.mem_map_of_mem ?_)
        rcases hn with rfl | hn
        · exact mem_preorders_of_mem hc
        · exact mem_preorders_of_child hn hc
      rcases hp with hp | hp
      · rw [pieces_cons, pieces_nil, List.append_nil, List.mem_cons] at hp
        rcases hp with rfl | hp
        · rcases hn with rfl | hn
          · exact ⟨Int.le_refl _, Int.le_refl _⟩
          · exact (h.covers (List.mem_map_of_mem hn)).1
        · rcases hn with rfl | hn
          · exact absurd ho (below.not_over_root hc hp)
          · exact ihb hn hp
      · exact absurd ho (h.not_over hchild hp).2
    · have hchild :
          child.toPiece ∈ pieces rest := List.mem_map_of_mem (mem_preorders_of_child hn hc)
      rcases hp with hp | hp
      · exact absurd ho (h.not_over hp hchild).1
      · exact ihm hn hp

theorem local_of_mem (h : Neat nodes) (hn : node ∈ preorders nodes) :
    (∀ child ∈ node.children, node.span.Over child.span) ∧ Neat node.children := by
  induction h with
  | nil => simp at hn
  | @cons root rest _ covers below _ _ ihb ihm =>
    rw [preorders_cons, preorder_eq, List.mem_append, List.mem_cons] at hn
    rcases hn with (rfl | hn) | hn
    · exact ⟨covers, below⟩
    · exact ihb hn
    · exact ihm hn

theorem sorted_siblings (h : Neat nodes) :
    nodes.Pairwise fun node next => node.span.first < next.span.first := by
  refine h.pairwise.imp_of_mem fun {node next} hm _ hlast => ?_
  have hlong := h.long (toPiece_mem_pieces hm)
  omega

end Neat

/-- Nodes without children, each longer than a character and any two of which differ in their spans
and lie apart or one in the other. -/
structure Nestable (nodes : List Node) : Prop where
  childless : ∀ node ∈ nodes, node.children = []
  long : ∀ node ∈ nodes, node.span.first < node.span.last
  fits : nodes.Pairwise fun node other => node.span.Fits other.span

/-- Trees in which each of some nodes has its place: once, among siblings sorted by where they begin
and below the smallest node around it, or at the top if there is none. -/
structure Arranged (nodes roots : List Node) : Prop where
  once : (pieces roots).Perm (nodes.map (·.toPiece))
  sorted : roots.Pairwise fun node next => node.span.first < next.span.first
  siblings : ∀ node ∈ preorders roots,
    node.children.Pairwise fun child next => child.span.first < next.span.first
  top : ∀ node ∈ roots, ∀ other ∈ nodes, ¬ other.span.Over node.span
  parent : ∀ node ∈ preorders roots, ∀ child ∈ node.children, node.span.Over child.span ∧
    ∀ other ∈ nodes, other.span.Over child.span → other.span.Holds node.span

theorem Neat.arranged {nodes roots : List Node} (h : Neat roots)
    (ho : (pieces roots).Perm (nodes.map (·.toPiece))) : Arranged nodes roots where
  once := ho
  sorted := h.sorted_siblings
  siblings := fun _ hn => (h.local_of_mem hn).2.sorted_siblings
  top := fun _ hn _ hm => h.not_over_root hn (ho.mem_iff.2 (List.mem_map_of_mem hm))
  parent := fun _ hn child hc => ⟨(h.local_of_mem hn).1 child hc, fun _ hm hover =>
    h.holds_of_over hn hc (ho.mem_iff.2 (List.mem_map_of_mem hm)) hover⟩

theorem neat_of_forall : ∀ nodes : List Node,
    nodes.Pairwise (fun node next => node.span.last ≤ next.span.first) →
    (∀ node ∈ preorders nodes, node.span.first < node.span.last ∧
      (∀ child ∈ node.children, node.span.Over child.span) ∧
      node.children.Pairwise fun child next => child.span.last ≤ next.span.first) → Neat nodes
  | [], _, _ => .nil
  | node :: rest, hs, hall => by
    obtain ⟨hbefore, hrest⟩ := List.pairwise_cons.1 hs
    obtain ⟨long, covers, hchildren⟩ := hall node (mem_preorders_of_mem List.mem_cons_self)
    refine .cons long covers (neat_of_forall node.children hchildren fun n hn => hall n ?_) hbefore
      (neat_of_forall rest hrest fun n hn => hall n ?_)
    · rw [preorders_cons, preorder_eq]
      exact List.mem_append_left _ (List.mem_cons_of_mem _ hn)
    · rw [preorders_cons]
      exact List.mem_append_right _ hn
termination_by nodes => weights nodes
decreasing_by
  · rw [weights_cons, node.weight_eq]
    omega
  · rw [weights_cons, node.weight_eq]
    omega

theorem sublist_preorders (nodes : List Node) : nodes.Sublist (preorders nodes) := by
  induction nodes with
  | nil => exact List.nil_sublist _
  | cons node nodes ih =>
    rw [preorders_cons, preorder_eq]
    exact List.Sublist.cons_cons _ (ih.trans (List.sublist_append_right _ _))

mutual

theorem children_sublist_preorder {root node : Node} (h : node ∈ root.preorder) :
    node.children.Sublist root.preorder := by
  cases root with
  | mk piece children =>
    rw [preorder_eq] at h ⊢
    rcases List.mem_cons.1 h with rfl | h
    · exact (sublist_preorders _).cons _
    · exact (children_sublist_preorders h).cons _

theorem children_sublist_preorders {nodes : List Node} {node : Node} (h : node ∈ preorders nodes) :
    node.children.Sublist (preorders nodes) := by
  cases nodes with
  | nil => simp at h
  | cons first nodes =>
    rw [preorders_cons, List.mem_append] at h
    rw [preorders_cons]
    rcases h with h | h
    · exact (children_sublist_preorder h).trans (List.sublist_append_left _ _)
    · exact (children_sublist_preorders h).trans (List.sublist_append_right _ _)

end

theorem pairwise_of_sorted {nodes : List Node}
    (hs : nodes.Pairwise fun node next => node.span.first < next.span.first)
    (hl : ∀ node ∈ nodes, node.span.first < node.span.last)
    (hf : nodes.Pairwise fun node other => node.span.Fits other.span)
    (ho : ∀ node ∈ nodes, ∀ other ∈ nodes, ¬ other.span.Over node.span) :
    nodes.Pairwise fun node next => node.span.last ≤ next.span.first := by
  refine (hs.and hf).imp_of_mem fun {node next} hn hm ⟨hlt, hfits⟩ => ?_
  rcases hfits.cases with hb | ha | hi | hi
  · exact hb
  · have hlong := hl next hm
    have hlong' := hl node hn
    omega
  · exact absurd hi (ho node hn next hm)
  · exact absurd hi (ho next hm node hn)

theorem Arranged.neat {nodes roots : List Node} (hn : Nestable nodes) (h : Arranged nodes roots) :
    Neat roots := by
  have hmem {node : Node} (hm : node ∈ preorders roots) :
      ∃ other ∈ nodes, other.toPiece = node.toPiece :=
    List.mem_map.1 (h.once.mem_iff.1 (List.mem_map_of_mem hm))
  have hlong (node : Node) (hm : node ∈ preorders roots) : node.span.first < node.span.last := by
    obtain ⟨other, ho, he⟩ := hmem hm
    have hlong := hn.long other ho
    rwa [he] at hlong
  have hmembers : (nodes.map (·.toPiece)).Pairwise fun p q => p.span.Fits q.span :=
    List.pairwise_map.2 hn.fits
  have hpieces : (pieces roots).Pairwise fun p q => p.span.Fits q.span :=
    hmembers.perm h.once.symm Span.Fits.symm
  rw [pieces, List.pairwise_map] at hpieces
  refine neat_of_forall roots ?_ fun node hm => ⟨hlong node hm, fun child hc => ?_, ?_⟩
  · refine pairwise_of_sorted h.sorted (fun node hm => hlong node (mem_preorders_of_mem hm))
      (hpieces.sublist (sublist_preorders roots)) fun node hm _ hm' => ?_
    obtain ⟨member, hmember, he⟩ := hmem (mem_preorders_of_mem hm')
    have htop := h.top node hm member hmember
    rwa [he] at htop
  · exact (h.parent node hm child hc).1
  · refine pairwise_of_sorted (h.siblings node hm)
      (fun child hc => hlong child (mem_preorders_of_child hm hc))
      (hpieces.sublist (children_sublist_preorders hm)) fun child hc other hc' hover => ?_
    obtain ⟨member, hmember, he⟩ := hmem (mem_preorders_of_child hm hc')
    have hholds := (h.parent node hm child hc).2 member hmember (by rwa [he])
    rw [he] at hholds
    exact (h.parent node hm other hc').1.2 hholds

/-- Nodes that may be nested have one arrangement, and it is what inserting them gives in any order.
-/
theorem arranged_insert {top : Node} {nodes : List Node} (ht : top.children = [])
    (h : Nestable nodes) :
    ∃ roots, (∀ roots', Arranged nodes roots' ↔ roots' = roots) ∧
      ∀ order : List Node, order.Perm nodes →
      order.foldlM insertChild top = .ok (top.withChildren roots) := by
  have hinsert (order : List Node) (hp : order.Perm nodes) :
      ∃ roots, order.foldlM insertChild top = .ok (top.withChildren roots) ∧ Neat roots ∧
        (pieces roots).Perm (nodes.map (·.toPiece)) := by
    have hfits : (pieces [] ++ order.map (·.toPiece)).Pairwise fun p q => p.span.Fits q.span := by
      rw [pieces_nil, List.nil_append]
      exact List.pairwise_map.2 (h.fits.perm hp.symm Span.Fits.symm)
    obtain ⟨roots, hfold, hneat, hperm⟩ := Neat.nil.exists_foldlM top
      (fun node hm => h.childless node (hp.mem_iff.1 hm))
      (fun node hm => h.long node (hp.mem_iff.1 hm))
      hfits
    rw [pieces_nil, List.nil_append] at hperm
    rw [← ht, withChildren_self] at hfold
    exact ⟨roots, hfold, hneat, hperm.trans (hp.map _)⟩
  obtain ⟨roots, -, hneat, hperm⟩ := hinsert nodes (.refl _)
  refine ⟨roots, fun roots' => ⟨fun ha => ?_, ?_⟩, fun order hp => ?_⟩
  · exact (ha.neat h).eq_of_perm hneat (ha.once.trans hperm.symm)
  · rintro rfl
    exact hneat.arranged hperm
  · obtain ⟨roots', hfold, hneat', hperm'⟩ := hinsert order hp
    rw [hfold, hneat'.eq_of_perm hneat (hperm'.trans hperm.symm)]

/-- Nodes three of which share an end with the one around them. -/
def sharing : List Node :=
  [{ span := { first := 2, last := 4 } }, { span := { first := 0, last := 9 } },
    { span := { first := 0, last := 4 } }, { span := { first := 6, last := 9 } }]

theorem arranged_insert_sharing :
    ({} : Node).children = [] ∧ Nestable sharing ∧ ∃ roots,
      (∀ roots', Arranged sharing roots' ↔ roots' = roots) ∧
      ∀ order : List Node, order.Perm sharing →
        order.foldlM insertChild {} = .ok (({} : Node).withChildren roots) := by
  have hnestable : Nestable sharing := ⟨by decide, by decide, by decide⟩
  exact ⟨rfl, hnestable, arranged_insert rfl hnestable⟩

end Node

end ThemeMarkup
