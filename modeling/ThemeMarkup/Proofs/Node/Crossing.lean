import Mathlib
import ThemeMarkup.Proofs.Node.Arrangement
import ThemeMarkup.Proofs.Node.Grove

namespace ThemeMarkup

/-- Two spans cross: each holds one end of the other only. -/
def Span.Crosses (span other : Span) : Prop :=
  other.first < span.first ∧ span.first < other.last ∧ other.last < span.last ∨
    span.first < other.first ∧ other.first < span.last ∧ span.last < other.last

theorem Span.relation_spec (span other : Span) :
    match span.relation other with
    | .before => span.last ≤ other.first
    | .after => other.last ≤ span.first
    | .inside => other.Holds span
    | .around => span.Holds other
    | .crossing => span.Crosses other := by
  unfold relation
  split_ifs with hb ha hi ho
  · exact hb
  · exact ha
  · exact hi
  · exact ho
  · dsimp only [Crosses]
    omega

namespace Node

/-- Trees that are as insertion leaves them, some spans being the same: nodes are longer than a
character, hold their children, and end before the next sibling begins or where it does. -/
inductive Laid : List Node → Prop where
  | nil : Laid []
  | cons {node : Node} {rest : List Node} (long : node.span.first < node.span.last)
      (holds : ∀ child ∈ node.children, node.span.Holds child.span) (below : Laid node.children)
      (before : ∀ next ∈ rest, node.span.last ≤ next.span.first) (more : Laid rest) :
      Laid (node :: rest)

namespace Laid

variable {node sibling : Node} {nodes rest siblings : List Node} {piece : Piece}

theorem of_childless (hc : node.children = []) (hl : node.span.first < node.span.last) :
    Laid [node] := by
  refine .cons hl ?_ ?_ (List.forall_mem_nil _) .nil
  · rw [hc]
    exact List.forall_mem_nil _
  · rw [hc]
    exact .nil

theorem long (h : Laid nodes) (hm : node ∈ nodes) : node.span.first < node.span.last := by
  induction h with
  | nil => contradiction
  | cons hl _ _ _ _ _ ihm =>
    rcases List.mem_cons.1 hm with rfl | hm
    · exact hl
    · exact ihm hm

theorem exists_holds (h : Laid nodes) (hm : piece ∈ pieces nodes) :
    ∃ node ∈ nodes, node.span.Holds piece.span := by
  induction h with
  | nil => simp at hm
  | @cons node rest _ holds _ _ _ ihb ihm =>
    rw [pieces_cons, List.mem_cons, List.mem_append] at hm
    rcases hm with rfl | hm | hm
    · exact ⟨node, List.mem_cons_self, Int.le_refl _, Int.le_refl _⟩
    · obtain ⟨child, hc, hh⟩ := ihb hm
      exact ⟨node, List.mem_cons_self, (holds child hc).trans hh⟩
    · obtain ⟨next, hn, hh⟩ := ihm hm
      exact ⟨next, List.mem_cons_of_mem _ hn, hh⟩

theorem tail (h : Laid (node :: rest)) : Laid rest := by
  cases h with
  | cons _ _ _ _ more => exact more

theorem children (h : Laid (node :: rest)) : Laid node.children := by
  cases h with
  | cons _ _ below _ _ => exact below

theorem head (h : Laid (node :: rest)) : Laid [node] := by
  cases h with
  | cons long holds below _ _ => exact .cons long holds below (List.forall_mem_nil _) .nil

theorem holds (h : Laid (node :: rest)) (hm : piece ∈ pieces [node]) :
    node.span.Holds piece.span := by
  obtain ⟨_, hroot, hholds⟩ := h.head.exists_holds hm
  obtain rfl := List.mem_singleton.1 hroot
  exact hholds

theorem before (h : Laid (node :: rest)) (hm : piece ∈ pieces rest) :
    node.span.last ≤ piece.span.first := by
  cases h with
  | cons _ _ _ before more =>
    obtain ⟨next, hn, hh⟩ := more.exists_holds hm
    exact Int.le_trans (before next hn) hh.1

theorem append (h : Laid nodes) (hr : Laid rest)
    (hb : ∀ node ∈ nodes, ∀ next ∈ rest, node.span.last ≤ next.span.first) :
    Laid (nodes ++ rest) := by
  induction h with
  | nil => exact hr
  | @cons node more hl holds below before _ _ ihm =>
    refine .cons hl holds below (fun next hn => ?_)
      (ihm fun n hn => hb n (List.mem_cons_of_mem _ hn))
    exact (List.mem_append.1 hn).elim (before next) (hb node List.mem_cons_self next)

theorem relation_after {child : Node} (hn : Laid [node]) (hs : Laid [sibling])
    (hb : ∀ child ∈ node.children, child.span.last ≤ sibling.span.first)
    (hc : child ∈ node.children) :
    sibling.span.relation child.span = .after := by
  have hlong := hs.long List.mem_cons_self
  have hchild := hn.children.long hc
  have hlast := hb child hc
  exact Span.relation_after hlast (by omega)

theorem adopt (hn : Laid [node]) (hs : Laid [sibling]) (ho : node.span.Holds sibling.span)
    (hb : ∀ child ∈ node.children, child.span.last ≤ sibling.span.first) :
    Laid [node.withChildren (node.children ++ [sibling])] := by
  have hlong : node.span.first < node.span.last := hn.long List.mem_cons_self
  refine .cons hlong (fun child hm => ?_) (hn.children.append hs fun child hc _ hm => ?_)
    (List.forall_mem_nil _) .nil
  · rcases List.mem_append.1 hm with hm | hm
    · exact hn.holds (pieces_children_subset node [] (toPiece_mem_pieces hm))
    · obtain rfl := List.mem_singleton.1 hm
      exact ho
  · obtain rfl := List.mem_singleton.1 hm
    exact hb child hc

end Laid

/-- How an insertion ends: with siblings that hold the node, which crosses none of them, or with the
spans of the node and of one that it crosses. -/
def Ends (node : Node) (siblings : List Node) : Except Crossing (List Node) → Prop
  | .ok nodes => Laid nodes ∧ (pieces nodes).Perm (pieces [node] ++ pieces siblings) ∧
      ∀ piece ∈ pieces siblings, ¬ node.span.Crosses piece.span
  | .error spans =>
    ∃ piece ∈ pieces siblings, node.span.Crosses piece.span ∧ spans = (node.span, piece.span)

variable {node sibling : Node} {rest siblings : List Node} {result : Except Crossing (List Node)}

theorem Ends.of_error {spans : Crossing} (h : Ends node rest (.error spans))
    (hs : pieces rest ⊆ pieces siblings) : Ends node siblings (.error spans) := by
  obtain ⟨piece, hp, hcrosses⟩ := h
  exact ⟨piece, hs hp, hcrosses⟩

namespace Laid

theorem ends_before (hn : Laid [node]) (hs : Laid (sibling :: rest))
    (hb : node.span.last ≤ sibling.span.first) :
    Ends node (sibling :: rest) (.ok (node :: sibling :: rest)) := by
  have hfirst : ∀ piece ∈ pieces (sibling :: rest), sibling.span.first ≤ piece.span.first := by
    intro piece hp
    rw [pieces_eq_append] at hp
    rcases List.mem_append.1 hp with hp | hp
    · exact (hs.holds hp).1
    · have hlong := hs.long List.mem_cons_self
      have hlast := hs.before hp
      omega
  refine ⟨hn.append hs fun _ hm next hnext => ?_, .of_eq (pieces_eq_append node _),
    fun piece hp => ?_⟩
  · obtain rfl := List.mem_singleton.1 hm
    exact Int.le_trans hb (hfirst _ (toPiece_mem_pieces hnext))
  · have hlast := hfirst piece hp
    dsimp only [Span.Crosses]
    omega

theorem ends_after (hn : Laid [node]) (hs : Laid (sibling :: rest))
    (ha : sibling.span.last ≤ node.span.first)
    (h : Ends node rest result) : Ends node (sibling :: rest) (result.map (sibling :: ·)) := by
  cases result with
  | error spans => exact h.of_error (pieces_subset_cons sibling rest)
  | ok nodes =>
    obtain ⟨hlaid, hperm, hnone⟩ := h
    refine ⟨hs.head.append hlaid fun _ hm next hnext => ?_, ?_, fun piece hp => ?_⟩
    · obtain rfl := List.mem_singleton.1 hm
      rcases List.mem_append.1 (hperm.mem_iff.1 (toPiece_mem_pieces hnext)) with hp | hp
      · exact Int.le_trans ha (hn.holds hp).1
      · exact hs.before hp
    · rw [pieces_eq_append sibling nodes, pieces_eq_append sibling rest]
      exact (hperm.append_left _).trans (List.perm_append_comm_assoc ..)
    · rw [pieces_eq_append] at hp
      rcases List.mem_append.1 hp with hp | hp
      · have hholds := (hs.holds hp).2
        dsimp only [Span.Crosses]
        omega
      · exact hnone piece hp

theorem ends_inside (hn : Laid [node]) (hs : Laid (sibling :: rest))
    (ho : sibling.span.Holds node.span)
    (h : Ends node sibling.children result) :
    Ends node (sibling :: rest)
    (result.map fun children => sibling.withChildren children :: rest) := by
  cases result with
  | error spans => exact h.of_error (pieces_children_subset sibling rest)
  | ok nodes =>
    obtain ⟨hlaid, hperm, hnone⟩ := h
    have hlong : sibling.span.first < sibling.span.last := hs.long List.mem_cons_self
    refine ⟨.cons hlong (fun child hc => ?_) hlaid
      (fun next hm => hs.before (toPiece_mem_pieces hm)) hs.tail, ?_, fun piece hp => ?_⟩
    · rcases List.mem_append.1 (hperm.mem_iff.1 (toPiece_mem_pieces hc)) with hp | hp
      · exact ho.trans (hn.holds hp)
      · exact hs.holds (pieces_children_subset sibling [] hp)
    · rw [pieces_cons, pieces_cons sibling]
      refine .trans ((hperm.append_right _).cons _) ?_
      rw [List.append_assoc]
      exact List.perm_middle.symm
    · obtain ⟨hfirst, hlast⟩ := ho
      rw [pieces_cons, List.mem_cons, List.mem_append] at hp
      rcases hp with rfl | hp | hp
      · dsimp only [Span.Crosses]
        omega
      · exact hnone piece hp
      · have hbefore := hs.before hp
        dsimp only [Span.Crosses]
        omega

theorem ends_around (hs : Laid (sibling :: rest)) (ho : node.span.Holds sibling.span)
    (h : Ends (node.withChildren (node.children ++ [sibling])) rest result) :
    Ends node (sibling :: rest) result := by
  cases result with
  | error spans => exact h.of_error (pieces_subset_cons sibling rest)
  | ok nodes =>
    obtain ⟨hlaid, hperm, hnone⟩ := h
    refine ⟨hlaid, hperm.trans (.of_eq ?_), fun piece hp => ?_⟩
    · rw [pieces_cons, pieces_cons, pieces_cons sibling]
      simp [withChildren]
    · rw [pieces_eq_append] at hp
      rcases List.mem_append.1 hp with hp | hp
      · obtain ⟨hfirst, hlast⟩ := ho.trans (hs.holds hp)
        dsimp only [Span.Crosses]
        omega
      · exact hnone piece hp

/-- An insertion finds a place, or a node that the inserted one crosses. -/
theorem ends_insertAmong (hs : Laid siblings) (hn : Laid [node])
    (ha : ∀ child ∈ node.children, ∀ sibling ∈ siblings, child.span.last ≤ sibling.span.first) :
    Ends node siblings (insertAmong node siblings) := by
  -- The node goes on to the next sibling or down to the children of this one: both are parts of
  -- how siblings are laid out.
  induction hs generalizing node with
  | nil =>
    rw [insertAmong_nil]
    exact ⟨hn, .of_eq (List.append_nil _).symm, by simp⟩
  | @cons sibling rest long holds below before more ihb ihm =>
    have hs : Laid (sibling :: rest) := .cons long holds below before more
    have hfirst (child : Node) (hc : child ∈ node.children) :
        child.span.last ≤ sibling.span.first :=
      ha child hc sibling List.mem_cons_self
    have hrest (child : Node) (hc : child ∈ node.children) (next : Node) (hm : next ∈ rest) :
        child.span.last ≤ next.span.first := ha child hc next (List.mem_cons_of_mem _ hm)
    have hspec := node.span.relation_spec sibling.span
    rw [insertAmong_cons]
    cases hrelation : node.span.relation sibling.span with
    | before =>
      rw [hrelation] at hspec
      exact hn.ends_before hs hspec
    | after =>
      rw [hrelation] at hspec
      exact hn.ends_after hs hspec (ihm hn hrest)
    | inside =>
      rw [hrelation] at hspec
      refine hn.ends_inside hs hspec (ihb hn fun child hc inner hm => ?_)
      exact Int.le_trans (hfirst child hc) (holds inner hm).1
    | around =>
      rw [hrelation] at hspec
      rw [insertAmong_after fun child hc => hn.relation_after hs.head hfirst hc]
      refine hs.ends_around hspec (ihm (hn.adopt hs.head hspec hfirst) fun child hc next hm => ?_)
      rcases List.mem_append.1 hc with hc | hc
      · exact hrest child hc next hm
      · obtain rfl := List.mem_singleton.1 hc
        exact before next hm
    | crossing =>
      rw [hrelation] at hspec
      exact ⟨sibling.toPiece, toPiece_mem_pieces List.mem_cons_self, hspec, rfl⟩

/-- Nodes without children are inserted one after the other, as long as they find places. -/
theorem of_foldlM {top tree : Node} {nodes : List Node} (ht : Laid top.children)
    (hc : ∀ node ∈ nodes, node.children = [])
    (hl : ∀ node ∈ nodes, node.span.first < node.span.last)
    (h : nodes.foldlM insertChild top = .ok tree) : Laid tree.children := by
  induction nodes generalizing top with
  | nil =>
    obtain rfl := Except.ok.inj h
    exact ht
  | cons node nodes ih =>
    obtain ⟨hnone, hc⟩ := List.forall_mem_cons.1 hc
    obtain ⟨hlong, hl⟩ := List.forall_mem_cons.1 hl
    have hends := ht.ends_insertAmong (of_childless hnone hlong) (by simp [hnone])
    rw [List.foldlM_cons, insertChild] at h
    cases hi : insertAmong node top.children with
    | error spans =>
      rw [hi] at h
      contradiction
    | ok children =>
      rw [hi] at h hends
      have hlaid : Laid (top.withChildren children).children := hends.1
      exact ih hlaid hc hl h

end Laid

end Node

namespace Grove

open Node (Laid insertAmong pieces preorders)

variable {grove grove' : Grove} {is js used rest own : List Nat} {nodes : List Node}
  {top node sibling : Node}
  {i j depth : Nat} {obstacle : Obstacle}

theorem Holds.exists_span_eq (h : Holds grove is nodes used) (hi : i ∈ is) :
    ∃ node ∈ nodes, grove.span i = node.span := by
  induction h with
  | nil => contradiction
  | @cons _ piece _ _ _ _ children _ here _ _ _ ihm =>
    rcases List.mem_cons.1 hi with rfl | hi
    · exact ⟨⟨piece, children⟩, List.mem_cons_self, by rw [span, here]⟩
    · obtain ⟨node, hm, he⟩ := ihm hi
      exact ⟨node, List.mem_cons_of_mem _ hm, he⟩

theorem Holds.adopt (hn : Holds grove [j] [node] rest) (hi : Holds grove [i] [sibling] own)
    (hd : (rest ++ own).Nodup) :
    Holds (grove.setChildren j (grove.children j ++ [i])) [j]
      [node.withChildren (node.children ++ [sibling])] (rest ++ own) := by
  obtain ⟨js, below, rfl, here, inner⟩ := single_iff.1 hn
  have hout : j ∉ below ++ own := (List.nodup_cons.1 hd).1
  have hchildren : grove.children j = js := by rw [children, here]
  have hthere : (grove.setChildren j (js ++ [i])).nodes[j]? = some (node.toPiece, js ++ [i]) := by
    rw [getElem?_setChildren, if_pos rfl, here]
    rfl
  rw [hchildren]
  exact single_iff.2 ⟨js ++ [i], below ++ own, rfl, hthere,
    (inner.append hi).agrees (agrees_setChildren ..) (List.disjoint_singleton.2 hout)⟩

theorem run_placeAmong_last {nest : Nat → Nat → Change Unit}
    (h : ∀ i ∈ is, (grove.span j).relation (grove.span i) = .after) :
    (placeAmong nest j is).run.run grove = (.ok (is ++ [j]), grove) := by
  induction is with
  | nil => rfl
  | cons i is ih =>
    rw [run_placeAmong_cons, h i List.mem_cons_self]
    exact run_bind_of_ok (ih fun i hi => h i (List.mem_cons_of_mem _ hi))

theorem run_insertTo_last (depth : Nat)
    (h : ∀ k ∈ grove.children i, (grove.span j).relation (grove.span k) = .after) :
    (insertTo depth i j).run.run grove = (.error .endless, grove) ∨
      (insertTo depth i j).run.run grove =
      (.ok (), grove.setChildren i (grove.children i ++ [j])) := by
  cases depth with
  | zero => exact .inl rfl
  | succ depth =>
    right
    rw [run_insertTo_succ]
    exact run_bind_of_ok (run_placeAmong_last h)

/-- Putting a node among the children of another one, where it fails, changes the node that is put
and no other. -/
def Spares (nest : Nat → Nat → Change Unit) : Prop :=
  ∀ {grove grove' : Grove} {i j : Nat} {top node : Node} {used rest : List Nat}
    {obstacle : Obstacle}, Holds grove [i] [top] used → Holds grove [j] [node] rest →
    (used ++ rest).Nodup →
    Laid top.children → Laid [node] →
    (∀ child ∈ node.children, ∀ sibling ∈ top.children, child.span.last ≤ sibling.span.first) →
    (nest i j).run.run grove = (.error obstacle, grove') → grove.Agrees grove' [j]

theorem spares_placeAmong (hspares : Spares (insertTo depth)) (hs : Holds grove is nodes used)
    (hn : Holds grove [j] [node] rest) (hd : (used ++ rest).Nodup) (hls : Laid nodes)
    (hln : Laid [node])
    (ha : ∀ child ∈ node.children, ∀ sibling ∈ nodes, child.span.last ≤ sibling.span.first)
    (hrun : (placeAmong (insertTo depth) j is).run.run grove = (.error obstacle, grove')) :
    grove.Agrees grove' [j] := by
  induction is generalizing grove nodes node used rest with
  | nil => cases hrun
  | cons i is ih =>
    obtain ⟨sibling, more, own, last, rfl, rfl, hi, his⟩ := hs.exists_of_cons
    obtain ⟨hown, hlast, -, -, hdlast⟩ := nodup_of_nodup_append hd
    obtain ⟨hfirst, hmore⟩ : (∀ child ∈ node.children, child.span.last ≤ sibling.span.first) ∧
        ∀ child ∈ node.children, ∀ next ∈ more, child.span.last ≤ next.span.first :=
      ⟨fun child hc => ha child hc sibling List.mem_cons_self,
        fun child hc next hm => ha child hc next (List.mem_cons_of_mem _ hm)⟩
    have hspec := node.span.relation_spec sibling.span
    rw [run_placeAmong_cons, hn.span_eq, hi.span_eq] at hrun
    cases hrelation : node.span.relation sibling.span with
    | before =>
      rw [hrelation] at hrun
      cases hrun
    | after =>
      rw [hrelation] at hrun
      rcases error_of_run_bind hrun with hplace | ⟨_, _, -, hdone⟩
      · exact ih his hn hlast hls.tail hln hmore hplace
      · cases hdone
    | inside =>
      rw [hrelation] at hrun hspec
      rcases error_of_run_bind hrun with hnest | ⟨_, _, -, hdone⟩
      · refine hspares hi hn hown hls.children hln (fun child hc inner hm => ?_) hnest
        have hbelow := Node.pieces_children_subset sibling [] (Node.toPiece_mem_pieces hm)
        exact Int.le_trans (hfirst child hc) (hls.holds hbelow).1
      · cases hdone
    | around =>
      rw [hrelation] at hrun hspec
      have hlaid := hln.adopt hls.head hspec hfirst
      have hafter : ∀ k ∈ grove.children j, (grove.span i).relation (grove.span k) = .after := by
        intro k hk
        obtain ⟨js, below, -, here, inner⟩ := Holds.single_iff.1 hn
        rw [children, here] at hk
        obtain ⟨child, hc, he⟩ := inner.exists_span_eq hk
        rw [hi.span_eq, he]
        exact hln.relation_after hls.head hfirst hc
      rcases run_insertTo_last depth hafter with hnest | hnest
      · rw [run_bind_of_error hnest] at hrun
        cases hrun
        exact .refl ..
      · rw [run_bind_of_ok hnest] at hrun
        have hput := agrees_setChildren grove j (grove.children j ++ [i])
        have hperm := perm_append_rotate own last rest
        have hnode := hn.adopt hi (List.nodup_append_comm.1 hown)
        have hj : j ∈ rest := by
          obtain ⟨_, _, rfl, -⟩ := Holds.single_iff.1 hn
          exact List.mem_cons_self
        have hkept := his.agrees hput (List.disjoint_singleton.2 fun hm => hdlast hm hj)
        refine hput.trans (ih hkept hnode (hperm.nodup_iff.2 hd) hls.tail hlaid
          (fun child hc next hm => ?_) hrun)
        rcases List.mem_append.1 hc with hc | hc
        · exact hmore child hc next hm
        · obtain rfl := List.mem_singleton.1 hc
          exact hls.before (Node.toPiece_mem_pieces hm)
    | crossing =>
      rw [hrelation] at hrun
      cases hrun
      exact .refl ..

theorem spares_insertTo (depth : Nat) : Spares (insertTo depth) := by
  induction depth with
  | zero =>
    intro grove grove' i j top node used rest obstacle _ _ _ _ _ _ hrun
    cases hrun
    exact .refl ..
  | succ depth ih =>
    intro grove grove' i j top node used rest obstacle ht hn hd hlt hln ha hrun
    obtain ⟨js, below, rfl, here, inner⟩ := Holds.single_iff.1 ht
    have hchildren : grove.children i = js := by rw [children, here]
    rw [run_insertTo_succ, hchildren] at hrun
    rcases error_of_run_bind hrun with hplace | ⟨_, _, -, hdone⟩
    · exact spares_placeAmong ih inner hn (List.nodup_cons.1 hd).2 hlt hln ha hplace
    · cases hdone

theorem unchanged_of_graft_error {grown : Grove} (h : grove.Stands i top) (hlt : Laid top.children)
    (hc : node.children = []) (hl : node.span.first < node.span.last)
    (hrun : (graft i node).run.run grove = (.error obstacle, grown)) :
    ∀ k < grove.nodes.size, grown.nodes[k]? = grove.nodes[k]? := by
  obtain ⟨used, hholds, hnodup⟩ := h
  obtain ⟨j, grove', rest, hplant, hplants⟩ := exists_plants node grove
  have hdis : used.Disjoint rest := fun k hk hk' =>
    Nat.lt_irrefl k (Nat.lt_of_lt_of_le (hholds.lt_size hk) (hplants.new k hk'))
  rw [run_graft i hplant, run_insertChild] at hrun
  have hagrees := spares_insertTo _ (hholds.grows hplants.grows) hplants.holds
    (hnodup.append hplants.nodup hdis) hlt (.of_childless hc hl) (by simp [hc]) hrun
  obtain ⟨_, _, rfl, -⟩ := Holds.single_iff.1 hplants.holds
  intro k hk
  have hne : k ∉ [j] := by
    rw [List.mem_singleton]
    rintro rfl
    exact Nat.lt_irrefl _ (Nat.lt_of_lt_of_le hk (hplants.new k List.mem_cons_self))
  rw [hagrees.others k hne, hplants.grows.old k hk]

/-- Nodes without children are planted and inserted one after the other. One more such node is
inserted just if its span crosses that of no node of the tree; if it is not, the error names the two
spans that cross, and the whole tree is as it was. -/
theorem run_graft_crosses {start grove : Grove} {top node : Node} {nodes : List Node}
    (ht : top.children = []) (hc : ∀ n ∈ node :: nodes, n.children = [])
    (hl : ∀ n ∈ node :: nodes, n.span.first < n.span.last)
    (hg : (nodes.forM (graft ((plant top).run start).1)).run.run ((plant top).run start).2 =
      (.ok (), grove)) :
    let i := ((plant top).run start).1
    ∃ tree, grove.tree? i = some tree ∧
      match (graft i node).run.run grove with
      | (.ok (), grown) =>
        (∀ other ∈ preorders tree.children, ¬ node.span.Crosses other.span) ∧
          ∃ tree', grown.tree? i = some tree' ∧
            (pieces tree'.children).Perm (node.toPiece :: pieces tree.children)
      | (.error obstacle, grown) =>
        (∃ other ∈ preorders tree.children, node.span.Crosses other.span ∧
          obstacle = .crossing (node.span, other.span)) ∧
        grown.tree? i = some tree ∧ ∀ k < grove.nodes.size, grown.nodes[k]? = grove.nodes[k]? := by
  intro i
  obtain ⟨hnone, hc⟩ := List.forall_mem_cons.1 hc
  obtain ⟨hlong, hl⟩ := List.forall_mem_cons.1 hl
  have hgrown := leaves_forM_graft (stands_plant top start) nodes
  rw [hg] at hgrown
  cases hfold : nodes.foldlM Node.insertChild top with
  | error spans =>
    rw [hfold] at hgrown
    contradiction
  | ok tree =>
    rw [hfold] at hgrown
    obtain ⟨-, hstands⟩ := hgrown
    have hempty : Laid top.children := by
      rw [ht]
      exact .nil
    have hlaid := hempty.of_foldlM hc hl hfold
    refine ⟨tree, hstands.tree?_eq, ?_⟩
    have hends := hlaid.ends_insertAmong (.of_childless hnone hlong) (by simp [hnone])
    have hleaves := leaves_graft hstands node
    rw [Node.insertChild] at hleaves
    cases hrun : (graft i node).run.run grove with
    | mk result grown =>
      rw [hrun] at hleaves
      cases hi : insertAmong node tree.children with
      | ok children =>
        rw [hi] at hleaves hends
        obtain ⟨rfl, htree⟩ := hleaves
        obtain ⟨-, hperm, hcrosses⟩ := hends
        rw [Node.pieces_cons, hnone] at hperm
        exact ⟨fun other ho => hcrosses other.toPiece (List.mem_map_of_mem ho), _, htree.tree?_eq,
          hperm⟩
      | error spans =>
        rw [hi] at hleaves hends
        obtain rfl : result = .error (.crossing spans) := hleaves
        obtain ⟨_, hp, hcrosses, rfl⟩ := hends
        obtain ⟨other, ho, rfl⟩ := List.mem_map.1 hp
        have hsame := unchanged_of_graft_error hstands hlaid hnone hlong hrun
        obtain ⟨used, hholds, hnodup⟩ := hstands
        have hstays : grown.Stands i tree :=
          ⟨used, hholds.congr fun k hk => hsame k (hholds.lt_size hk), hnodup⟩
        exact ⟨⟨other, ho, hcrosses, rfl⟩, hstays.tree?_eq, hsame⟩

/-- Three nodes one after the other, the first with one in it. -/
def apart : List Node :=
  [{ span := { first := 0, last := 10 } }, { span := { first := 20, last := 30 } },
    { span := { first := 2, last := 4 } }, { span := { first := 14, last := 16 } }]

/-- A node that takes the second of them before it meets the third. -/
def across : Node :=
  { span := { first := 12, last := 25 } }

/-- The grove that grows of the three nodes and of the one in them, and the number of its root. -/
def grownApart : Except Obstacle Unit × Grove :=
  let planted := (plant ({} : Node)).run {}
  (apart.forM (graft planted.1)).run.run planted.2

theorem run_graft_crosses_across :
    (∀ n ∈ across :: apart, n.children = []) ∧ (∀ n ∈ across :: apart, n.span.first < n.span.last) ∧
      ∃ grove, grownApart = (.ok (), grove) ∧ ∃ tree, grove.tree? 0 = some tree ∧
        ∃ other failed, other ∈ preorders tree.children ∧ across.span.Crosses other.span ∧
          (graft 0 across).run.run grove = (.error (.crossing (across.span, other.span)), failed) ∧
          failed.tree? 0 = some tree := by
  have hc : ∀ n ∈ across :: apart, n.children = [] := by decide
  have hl : ∀ n ∈ across :: apart, n.span.first < n.span.last := by decide
  have hok : grownApart.1 = .ok () := by cbv
  have hfails : ((graft 0 across).run.run grownApart.2).1.isOk = false := by cbv
  cases hg : grownApart with
  | mk result grove =>
    rw [hg] at hok hfails
    obtain rfl : result = .ok () := hok
    refine ⟨hc, hl, grove, rfl, ?_⟩
    obtain ⟨tree, htree, houtcome⟩ := run_graft_crosses rfl hc hl hg
    refine ⟨tree, htree, ?_⟩
    split at houtcome
    · next hrun =>
      have hrun : (graft 0 across).run.run grove = _ := hrun
      rw [hrun] at hfails
      contradiction
    · next failed hrun =>
      obtain ⟨⟨other, ho, hcrosses, rfl⟩, hstays, -⟩ := houtcome
      exact ⟨other, failed, ho, hcrosses, hrun, hstays⟩

end Grove

end ThemeMarkup
