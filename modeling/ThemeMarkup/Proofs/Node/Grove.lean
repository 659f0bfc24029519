import Mathlib.Data.List.Nodup
import Mathlib.Data.List.Perm.Subperm
import ThemeMarkup.Node.Grove

namespace ThemeMarkup

namespace Grove

open Node (insertAmong weights)

section Change

variable {α β : Type} {change : Change α} {next : α → Change β} {grove grove' : Grove} {a : α}
  {obstacle : Obstacle}

theorem run_bind_of_ok (h : change.run.run grove = (.ok a, grove')) :
    (change >>= next).run.run grove = (next a).run.run grove' := by
  simp only [ExceptT.run_bind, StateT.run_bind]
  rw [h]
  rfl

theorem run_bind_of_error (h : change.run.run grove = (.error obstacle, grove')) :
    (change >>= next).run.run grove = (.error obstacle, grove') := by
  simp only [ExceptT.run_bind, StateT.run_bind]
  rw [h]
  rfl

theorem error_of_run_bind (h : (change >>= next).run.run grove = (.error obstacle, grove')) :
    change.run.run grove = (.error obstacle, grove') ∨
      ∃ a grove₁, change.run.run grove = (.ok a, grove₁) ∧
        (next a).run.run grove₁ = (.error obstacle, grove') := by
  cases hr : change.run.run grove with
  | mk result grove₁ =>
    cases result with
    | error o =>
      rw [run_bind_of_error hr] at h
      cases h
      exact .inl rfl
    | ok a =>
      rw [run_bind_of_ok hr] at h
      exact .inr ⟨a, grove₁, rfl, h⟩

theorem run_bind_of_run {step : StateM Grove α} {next : α → StateM Grove β}
    (h : step.run grove = (a, grove')) : (step >>= next).run grove = (next a).run grove' := by
  rw [StateT.run_bind, h]
  rfl

end Change

theorem getElem?_setChildren (grove : Grove) (i k : Nat) (children : List Nat) :
    (grove.setChildren i children).nodes[k]? =
      if i = k then grove.nodes[k]?.map fun entry => (entry.1, children) else grove.nodes[k]? := by
  rw [setChildren, Array.getElem?_modify]

@[simp] theorem size_setChildren (grove : Grove) (i : Nat) (children : List Nat) :
    (grove.setChildren i children).nodes.size = grove.nodes.size :=
  Array.size_modify ..

/-- Numbers of a grove are those of the roots of some trees. -/
inductive Holds (grove : Grove) : List Nat → List Node → List Nat → Prop where
  | nil : Holds grove [] [] []
  | cons {i : Nat} {piece : Piece} {is js below rest : List Nat} {children nodes : List Node}
      (here : grove.nodes[i]? = some (piece, js)) (inner : Holds grove js children below)
      (more : Holds grove is nodes rest) :
      Holds grove (i :: is) (⟨piece, children⟩ :: nodes) (i :: (below ++ rest))

/-- A grove differs from another one only in nodes with some numbers. -/
structure Agrees (grove grove' : Grove) (used : List Nat) : Prop where
  size : grove'.nodes.size = grove.nodes.size
  others : ∀ k, k ∉ used → grove'.nodes[k]? = grove.nodes[k]?

variable {grove grove' grove'' : Grove} {is js used below rest : List Nat} {nodes : List Node}
  {top node : Node} {i j : Nat}

theorem Agrees.refl (grove : Grove) (used : List Nat) : grove.Agrees grove used :=
  ⟨rfl, fun _ _ => rfl⟩

theorem Agrees.trans (h : grove.Agrees grove' used) (h' : grove'.Agrees grove'' used) :
    grove.Agrees grove'' used :=
  ⟨h'.size.trans h.size, fun k hk => (h'.others k hk).trans (h.others k hk)⟩

theorem Agrees.mono (h : grove.Agrees grove' below) (hs : below ⊆ used) :
    grove.Agrees grove' used :=
  ⟨h.size, fun k hk => h.others k fun hm => hk (hs hm)⟩

theorem agrees_setChildren (grove : Grove) (i : Nat) (js : List Nat) :
    grove.Agrees (grove.setChildren i js) [i] :=
  ⟨size_setChildren .., fun k hk => by
    rw [getElem?_setChildren, if_neg fun he => hk (List.mem_singleton.2 he.symm)]⟩

namespace Holds

theorem congr (h : Holds grove is nodes used)
    (ha : ∀ k ∈ used, grove'.nodes[k]? = grove.nodes[k]?) : Holds grove' is nodes used := by
  induction h with
  | nil => exact .nil
  | cons here _ _ ihi ihm =>
    have hcons := List.forall_mem_cons.1 ha
    have hboth := List.forall_mem_append.1 hcons.2
    exact .cons (hcons.1.trans here) (ihi hboth.1) (ihm hboth.2)

theorem agrees {changed : List Nat} (h : Holds grove is nodes used)
    (ha : grove.Agrees grove' changed)
    (hd : used.Disjoint changed) : Holds grove' is nodes used :=
  h.congr fun k hk => ha.others k (hd hk)

theorem length_eq (h : Holds grove is nodes used) : used.length = weights nodes := by
  induction h with
  | nil => rfl
  | cons _ _ _ ihi ihm =>
    rw [List.length_cons, List.length_append, ihi, ihm, Node.weights_cons, Node.weight_mk]
    omega

theorem lt_size (h : Holds grove is nodes used) {k : Nat} (hk : k ∈ used) :
    k < grove.nodes.size := by
  induction h with
  | nil => contradiction
  | cons here _ _ ihi ihm =>
    rcases List.mem_cons.1 hk with rfl | hk
    · exact (Array.getElem?_eq_some_iff.1 here).1
    · exact (List.mem_append.1 hk).elim ihi ihm

theorem weights_le_size (h : Holds grove is nodes used) (hd : used.Nodup) :
    weights nodes ≤ grove.nodes.size := by
  have hsub : used ⊆ List.range grove.nodes.size := fun k hk => List.mem_range.2 (h.lt_size hk)
  have hle := (hd.subperm hsub).length_le
  rwa [h.length_eq, List.length_range] at hle

theorem single_iff : Holds grove [i] [node] used ↔
    ∃ js below, used = i :: below ∧ grove.nodes[i]? = some (node.toPiece, js) ∧
      Holds grove js node.children below := by
  obtain ⟨piece, children⟩ := node
  constructor
  · intro h
    cases h with
    | cons here inner more =>
      cases more with
      | nil => exact ⟨_, _, by rw [List.append_nil], here, inner⟩
  · rintro ⟨js, below, rfl, here, inner⟩
    have hcons : Holds grove [i] [⟨piece, children⟩] (i :: (below ++ [])) := .cons here inner .nil
    rwa [List.append_nil] at hcons

theorem append {nodes' : List Node} (h : Holds grove is nodes used)
    (h' : Holds grove js nodes' rest) :
    Holds grove (is ++ js) (nodes ++ nodes') (used ++ rest) := by
  induction h with
  | nil => exact h'
  | cons here inner _ _ ihm =>
    rw [List.cons_append, List.cons_append, List.cons_append, List.append_assoc]
    exact .cons here inner ihm

theorem exists_of_cons (h : Holds grove (i :: is) nodes used) :
    ∃ node more own rest, nodes = node :: more ∧ used = own ++ rest ∧ Holds grove [i] [node] own ∧
      Holds grove is more rest := by
  cases h with
  | @cons _ piece _ js below rest children more here inner hmore =>
    exact ⟨⟨piece, children⟩, more, i :: below, rest, rfl, rfl,
      single_iff.2 ⟨js, below, rfl, here, inner⟩, hmore⟩

theorem span_eq (h : Holds grove [i] [node] used) : grove.span i = node.span := by
  obtain ⟨js, below, -, here, -⟩ := single_iff.1 h
  rw [span, here]

end Holds

/-- A change ends as the insertion of trees: with the trees, which have the nodes there were, or
with the spans that cross. -/
def Mirrors {α : Type} (grove : Grove) (used : List Nat) (roots : α → List Nat)
    (change : Change α) :
    Except Node.Crossing (List Node) → Prop
  | .ok nodes => ∃ a grove' used', change.run.run grove = (.ok a, grove') ∧
      Holds grove' (roots a) nodes used' ∧ used'.Perm used ∧ grove.Agrees grove' used
  | .error spans => ∃ grove', change.run.run grove = (.error (.crossing spans), grove')

/-- Putting nodes among the children of others mirrors the insertion of trees, if these do not have
more nodes than a bound says. -/
def Nests (nest : Nat → Nat → Change Unit) (bound : Nat) : Prop :=
  ∀ {grove : Grove} {i j : Nat} {top node : Node} {used rest : List Nat},
    Holds grove [i] [top] used → Holds grove [j] [node] rest → (used ++ rest).Nodup →
    top.weight + node.weight ≤ bound →
    Mirrors grove (used ++ rest) (fun _ => [i]) (nest i j) ((top.insertChild node).map ([·]))

namespace Mirrors

variable {α β : Type} {roots : α → List Nat} {roots' : β → List Nat} {change : Change α}

theorem of_run {change' : Change α} {result : Except Node.Crossing (List Node)}
    (h : Mirrors grove' below roots change' result)
    (hr : change.run.run grove = change'.run.run grove') (hp : below.Perm used)
    (ha : grove.Agrees grove' used) : Mirrors grove used roots change result := by
  cases result with
  | ok nodes =>
    obtain ⟨a, grove'', used', hrun, hholds, hperm, hagrees⟩ := h
    exact ⟨a, grove'', used', hr.trans hrun, hholds, hperm.trans hp,
      ha.trans (hagrees.mono hp.subset)⟩
  | error spans =>
    obtain ⟨grove'', hrun⟩ := h
    exact ⟨grove'', hr.trans hrun⟩

theorem of_error {change' : Change β} {next : α → Change β} {spans : Node.Crossing}
    (h : Mirrors grove below roots change (.error spans))
    (hr : change'.run.run grove = (change >>= next).run.run grove) :
    Mirrors grove used roots' change' (.error spans) := by
  obtain ⟨grove', hrun⟩ := h
  exact ⟨grove', hr.trans (run_bind_of_error hrun)⟩

theorem pure {a : α} (h : Holds grove (roots a) nodes below) (hp : below.Perm used) :
    Mirrors grove used roots (Pure.pure a) (.ok nodes) :=
  ⟨a, grove, below, rfl, h, hp, .refl ..⟩

theorem bind {first : Except Node.Crossing (List Node)}
    {second : List Node → Except Node.Crossing (List Node)} {change' : Change β}
    {next : α → Change β}
    (h : Mirrors grove below roots change first)
    (hr : change'.run.run grove = (change >>= next).run.run grove) (hs : below ⊆ used)
    (hnext : ∀ {nodes a grove' used'}, first = .ok nodes → Holds grove' (roots a) nodes used' →
      used'.Perm below → grove.Agrees grove' below →
      Mirrors grove' used roots' (next a) (second nodes)) :
    Mirrors grove used roots' change' (first.bind second) := by
  cases first with
  | error spans => exact h.of_error hr
  | ok nodes =>
    obtain ⟨a, grove', used', hrun, hholds, hperm, hagrees⟩ := h
    exact (hnext rfl hholds hperm hagrees).of_run (hr.trans (run_bind_of_ok hrun)) (.refl _)
      (hagrees.mono hs)

end Mirrors

section Place

variable {nest : Nat → Nat → Change Unit} {bound : Nat}

theorem run_placeAmong_cons (nest : Nat → Nat → Change Unit) (grove : Grove) (i j : Nat)
    (is : List Nat) :
    (placeAmong nest j (i :: is)).run.run grove =
      (match (grove.span j).relation (grove.span i) with
        | .before => return j :: i :: is
        | .after => return i :: (← placeAmong nest j is)
        | .inside => do
          nest i j
          return i :: is
        | .around => do
          nest j i
          placeAmong nest j is
        | .crossing => throw (.crossing (grove.span j, grove.span i)) :
          Change (List Nat)).run.run grove := by
  rw [placeAmong]
  exact run_bind_of_ok rfl

theorem nodup_of_nodup_append {own last rest : List Nat} (h : (own ++ last ++ rest).Nodup) :
    (own ++ rest).Nodup ∧ (last ++ rest).Nodup ∧ own.Disjoint last ∧ own.Disjoint rest ∧
      last.Disjoint rest := by
  obtain ⟨hold, hrest, hdis⟩ := List.nodup_append'.1 h
  obtain ⟨hown, hlast, hinner⟩ := List.nodup_append'.1 hold
  obtain ⟨hdown, hdlast⟩ := List.disjoint_append_left.1 hdis
  exact ⟨hown.append hrest hdown, hlast.append hrest hdlast, hinner, hdown, hdlast⟩

theorem perm_append_rotate (own last rest : List Nat) :
    (last ++ (rest ++ own)).Perm (own ++ last ++ rest) := by
  rw [← List.append_assoc, List.append_assoc own]
  exact List.perm_append_comm

/-- The place of a node among siblings is found in the grove as in the trees. -/
theorem mirrors_placeAmong (hnest : Nests nest bound) (hs : Holds grove is nodes used)
    (hn : Holds grove [j] [node] rest) (hd : (used ++ rest).Nodup)
    (hw : weights nodes + node.weight ≤ bound) :
    Mirrors grove (used ++ rest) id (placeAmong nest j is) (insertAmong node nodes) := by
  -- By induction on the siblings that are left. The node takes those that it goes around, so that
  -- the weights, which bound the steps, add up to no more.
  induction is generalizing grove nodes node used rest with
  | nil =>
    cases hs with
    | nil =>
      rw [Node.insertAmong_nil]
      exact ⟨[j], grove, rest, rfl, hn, .refl _, .refl ..⟩
  | cons i is ih =>
    obtain ⟨sibling, more, own, last, rfl, rfl, hi, his⟩ := hs.exists_of_cons
    have hrun := run_placeAmong_cons nest grove i j is
    rw [hn.span_eq, hi.span_eq] at hrun
    rw [Node.weights_cons] at hw
    rw [Node.insertAmong_cons]
    obtain ⟨hown, hlast, hinner, hdown, hdlast⟩ := nodup_of_nodup_append hd
    cases hrel : node.span.relation sibling.span with
    | before =>
      rw [hrel] at hrun
      exact ⟨j :: i :: is, grove, rest ++ (own ++ last), hrun, hn.append (hi.append his),
        List.perm_append_comm, .refl ..⟩
    | after =>
      rw [hrel] at hrun
      have hplace := ih his hn hlast (by omega)
      have hperm : own ++ last ++ rest = own ++ (last ++ rest) := List.append_assoc ..
      rw [hperm]
      refine hplace.bind hrun (List.subset_append_right _ _) fun _ hh hp ha => ?_
      have hkept := hi.agrees ha (List.disjoint_append_right.2 ⟨hinner, hdown⟩)
      exact .pure (hkept.append hh) (hp.append_left own)
    | inside =>
      rw [hrel] at hrun
      have hput := hnest hi hn hown (by omega)
      have hresult : (insertAmong node sibling.children).map (sibling.withChildren · :: more) =
          ((sibling.insertChild node).map ([·])).bind fun nodes => .ok (nodes ++ more) := by
        rw [Node.insertChild]
        cases insertAmong node sibling.children <;> rfl
      have hperm : (own ++ rest ++ last).Perm (own ++ last ++ rest) := by
        rw [List.append_assoc, List.append_assoc]
        exact List.perm_append_comm.append_left own
      dsimp only
      rw [hresult]
      refine hput.bind hrun (fun k hk => hperm.subset (List.mem_append_left _ hk))
        fun _ hh hp ha => ?_
      have hkept :=
        his.agrees ha (List.disjoint_append_right.2 ⟨List.disjoint_comm.1 hinner, hdlast⟩)
      exact .pure (hh.append hkept) ((hp.append_right last).trans hperm)
    | around =>
      rw [hrel] at hrun
      have hput := hnest hn hi (List.nodup_append_comm.1 hown) (by omega)
      rw [Node.insertChild] at hput
      have hperm := perm_append_rotate own last rest
      cases hres : insertAmong sibling node.children with
      | error spans =>
        rw [hres] at hput
        exact hput.of_error hrun
      | ok children =>
        rw [hres] at hput
        obtain ⟨_, grove', used', hr, hh, hp, ha⟩ := hput
        have hkept :=
          his.agrees ha (List.disjoint_append_right.2 ⟨hdlast, List.disjoint_comm.1 hinner⟩)
        have hall : (last ++ used').Perm (own ++ last ++ rest) := (hp.append_left last).trans hperm
        have hweight : (node.withChildren children).weight = node.weight + sibling.weight := by
          have hlength := hh.length_eq
          rw [hp.length_eq, List.length_append, hn.length_eq, hi.length_eq] at hlength
          simp only [Node.weights_cons, Node.weights_nil] at hlength
          omega
        have hplace := ih hkept hh (hall.nodup_iff.2 hd) (by omega)
        exact hplace.of_run (hrun.trans (run_bind_of_ok hr)) hall
          (ha.mono fun k hk => hperm.subset (List.mem_append_right _ hk))
    | crossing =>
      rw [hrel] at hrun
      exact ⟨grove, hrun⟩

end Place

theorem run_insertTo_succ (depth i j : Nat) (grove : Grove) :
    (insertTo (depth + 1) i j).run.run grove =
      (do
        let siblings ← placeAmong (insertTo depth) j (grove.children i)
        modify fun grove => grove.setChildren i siblings : Change Unit).run.run grove := by
  rw [insertTo]
  exact run_bind_of_ok rfl

theorem run_insertChild (i j : Nat) (grove : Grove) :
    (insertChild i j).run.run grove = (insertTo (2 * grove.nodes.size + 1) i j).run.run grove := by
  rw [insertChild]
  exact run_bind_of_ok rfl

/-- Each step down leaves a node for its children, so that there are as many steps as nodes at most.
-/
theorem nests_insertTo (depth : Nat) : Nests (insertTo depth) depth := by
  induction depth with
  | zero =>
    intro grove i j top node used rest _ _ _ hw
    rw [top.weight_eq] at hw
    omega
  | succ depth ih =>
    intro grove i j top node used rest ht hn hd hw
    obtain ⟨js, below, rfl, here, inner⟩ := Holds.single_iff.1 ht
    obtain ⟨hi, hd⟩ := List.nodup_cons.1 hd
    have hchildren : grove.children i = js := by rw [children, here]
    rw [top.weight_eq] at hw
    have hplace := mirrors_placeAmong ih inner hn hd (by omega)
    have hrun := run_insertTo_succ depth i j grove
    rw [hchildren] at hrun
    have hresult : (top.insertChild node).map ([·]) =
        (insertAmong node top.children).bind fun nodes => .ok [top.withChildren nodes] := by
      rw [Node.insertChild]
      cases insertAmong node top.children <;> rfl
    rw [hresult]
    refine hplace.bind hrun (List.subset_cons_self _ _)
      fun {nodes siblings grove' used'} _ hh hp ha => ?_
    have hout : i ∉ used' := fun hm => hi (hp.subset hm)
    have hset := agrees_setChildren grove' i siblings
    have hthere : (grove'.setChildren i siblings).nodes[i]? = some (top.toPiece, siblings) := by
      rw [getElem?_setChildren, if_pos rfl, ha.others i hi, here]
      rfl
    have hinner := hh.agrees hset (List.disjoint_singleton.2 hout)
    exact ⟨(), grove'.setChildren i siblings, i :: used', rfl,
      Holds.single_iff.2 ⟨siblings, used', rfl, hthere, hinner⟩, hp.cons i,
      hset.mono (List.cons_subset_cons i (List.nil_subset _))⟩

theorem mirrors_insertChild (ht : Holds grove [i] [top] used) (hn : Holds grove [j] [node] rest)
    (hd : (used ++ rest).Nodup) :
    Mirrors grove (used ++ rest) (fun _ => [i]) (insertChild i j)
      ((top.insertChild node).map ([·])) := by
  have hsize := (ht.append hn).weights_le_size hd
  simp only [List.cons_append, List.nil_append, Node.weights_cons, Node.weights_nil] at hsize
  have hput := nests_insertTo (2 * grove.nodes.size + 1) ht hn hd (by omega)
  exact hput.of_run (run_insertChild i j grove) (.refl _) (.refl ..)

/-- The nodes of a grove are still there in another one. -/
structure Grows (grove grove' : Grove) : Prop where
  size : grove.nodes.size ≤ grove'.nodes.size
  old : ∀ k, k < grove.nodes.size → grove'.nodes[k]? = grove.nodes[k]?

theorem Grows.refl (grove : Grove) : grove.Grows grove :=
  ⟨Nat.le_refl _, fun _ _ => rfl⟩

theorem Grows.trans (h : grove.Grows grove') (h' : grove'.Grows grove'') : grove.Grows grove'' :=
  ⟨Nat.le_trans h.size h'.size, fun k hk =>
    (h'.old k (Nat.lt_of_lt_of_le hk h.size)).trans (h.old k hk)⟩

theorem grows_push (grove : Grove) (entry : Piece × List Nat) :
    grove.Grows ⟨grove.nodes.push entry⟩ := by
  refine ⟨?_, fun k hk => ?_⟩
  · rw [Array.size_push]
    exact Nat.le_succ _
  · rw [Array.getElem?_push, if_neg (Nat.ne_of_lt hk)]

theorem Holds.grows (h : Holds grove is nodes used) (hg : grove.Grows grove') :
    Holds grove' is nodes used :=
  h.congr fun k hk => hg.old k (h.lt_size hk)

/-- Numbers that were not used before hold trees, each node of which has a number of its own. -/
structure Plants (grove grove' : Grove) (is : List Nat) (nodes : List Node) (used : List Nat) :
    Prop where
  holds : Holds grove' is nodes used
  nodup : used.Nodup
  new : ∀ k ∈ used, grove.nodes.size ≤ k
  grows : grove.Grows grove'

mutual

theorem exists_plants : ∀ (node : Node) (grove : Grove),
    ∃ i grove' used, (plant node).run grove = (i, grove') ∧ Plants grove grove' [i] [node] used
  | ⟨piece, children⟩, grove => by
    obtain ⟨js, grove', below, hrun, hplants⟩ := exists_plants_all children grove
    obtain ⟨hholds, hnodup, hnew, hgrows⟩ := hplants
    have hpush := grows_push grove' (piece, js)
    have hout : grove'.nodes.size ∉ below := fun hm => Nat.lt_irrefl _ (hholds.lt_size hm)
    refine ⟨grove'.nodes.size, ⟨grove'.nodes.push (piece, js)⟩, grove'.nodes.size :: below, ?_, ?_,
      List.nodup_cons.2 ⟨hout, hnodup⟩, List.forall_mem_cons.2 ⟨hgrows.size, hnew⟩,
      hgrows.trans hpush⟩
    · rw [plant]
      exact run_bind_of_run hrun
    · exact Holds.single_iff.2 ⟨js, below, rfl, Array.getElem?_push_size, hholds.grows hpush⟩

theorem exists_plants_all : ∀ (nodes : List Node) (grove : Grove),
    ∃ is grove' used, (plantAll nodes).run grove = (is, grove') ∧ Plants grove grove' is nodes used
  | [], grove =>
    ⟨[], grove, [], rfl, .nil, List.nodup_nil, List.forall_mem_nil _, .refl grove⟩
  | node :: nodes, grove => by
    obtain ⟨i, grove', own, hrun, hplants⟩ := exists_plants node grove
    obtain ⟨is, grove'', rest, hrun', hplants'⟩ := exists_plants_all nodes grove'
    have hdis : own.Disjoint rest := fun k hk hk' =>
      Nat.lt_irrefl k (Nat.lt_of_lt_of_le (hplants.holds.lt_size hk) (hplants'.new k hk'))
    refine ⟨i :: is, grove'', own ++ rest, ?_,
      (hplants.holds.grows hplants'.grows).append hplants'.holds,
      hplants.nodup.append hplants'.nodup hdis, ?_, hplants.grows.trans hplants'.grows⟩
    · rw [plantAll, run_bind_of_run hrun]
      exact run_bind_of_run hrun'
    · exact List.forall_mem_append.2 ⟨hplants.new, fun k hk =>
        Nat.le_trans hplants.grows.size (hplants'.new k hk)⟩

end

theorem Holds.mapM_treeTo? (h : Holds grove is nodes used) {depth : Nat}
    (hd : weights nodes ≤ depth) :
    is.mapM (grove.treeTo? depth) = some nodes := by
  induction h generalizing depth with
  | nil => rfl
  | @cons i piece is js below rest children nodes here inner more ihi ihm =>
    rw [Node.weights_cons, Node.weight_mk] at hd
    obtain ⟨depth, rfl⟩ : ∃ d, depth = d + 1 := ⟨depth - 1, by omega⟩
    have hroot : grove.treeTo? (depth + 1) i = some ⟨piece, children⟩ := by
      rw [treeTo?, here]
      dsimp only
      rw [ihi (by omega)]
      rfl
    rw [List.mapM_cons, hroot, ihm (by omega)]
    rfl

/-- A number is that of a tree, each node of which has a number of its own. -/
def Stands (grove : Grove) (i : Nat) (tree : Node) : Prop :=
  ∃ used, Holds grove [i] [tree] used ∧ used.Nodup

theorem Stands.tree?_eq (h : grove.Stands i node) : grove.tree? i = some node := by
  obtain ⟨used, hholds, hnodup⟩ := h
  have hsize := hholds.weights_le_size hnodup
  have hall := hholds.mapM_treeTo? (Nat.le_succ_of_le hsize)
  rw [List.mapM_cons, List.mapM_nil] at hall
  rw [tree?]
  cases htree : grove.treeTo? (grove.nodes.size + 1) i with
  | none =>
    rw [htree] at hall
    contradiction
  | some tree =>
    rw [htree] at hall
    exact congrArg some (List.cons.inj (Option.some.inj hall)).1

theorem stands_plant (node : Node) (grove : Grove) :
    ((plant node).run grove).2.Stands ((plant node).run grove).1 node := by
  obtain ⟨i, grove', used, hrun, hplants⟩ := exists_plants node grove
  rw [hrun]
  exact ⟨used, hplants.holds, hplants.nodup⟩

/-- Plants a tree and inserts it among the children of a node. -/
def graft (top : Nat) (node : Node) : Change Unit := do
  insertChild top (← plant node)

theorem run_graft (i : Nat) (h : (plant node).run grove = (j, grove')) :
    (graft i node).run.run grove = (insertChild i j).run.run grove' :=
  run_bind_of_ok
    (congrArg (fun planted : Nat × Grove => ((.ok planted.1 : Except Obstacle Nat), planted.2)) h)

/-- What a change leaves of a number: a tree, or the spans that cross. -/
def Leaves (i : Nat) (outcome : Except Obstacle Unit × Grove) : Except Node.Crossing Node → Prop
  | .ok tree => outcome.1 = .ok () ∧ outcome.2.Stands i tree
  | .error spans => outcome.1 = .error (.crossing spans)

theorem leaves_graft (h : grove.Stands i top) (node : Node) :
    Leaves i ((graft i node).run.run grove) (top.insertChild node) := by
  obtain ⟨used, hholds, hnodup⟩ := h
  obtain ⟨j, grove', rest, hrun, hplants⟩ := exists_plants node grove
  have hdis : used.Disjoint rest := fun k hk hk' =>
    Nat.lt_irrefl k (Nat.lt_of_lt_of_le (hholds.lt_size hk) (hplants.new k hk'))
  have hall := hnodup.append hplants.nodup hdis
  have hinsert := mirrors_insertChild (hholds.grows hplants.grows) hplants.holds hall
  rw [run_graft i hrun]
  cases hres : top.insertChild node with
  | error spans =>
    rw [hres] at hinsert
    obtain ⟨grove'', hr⟩ := hinsert
    exact congrArg Prod.fst hr
  | ok tree =>
    rw [hres] at hinsert
    obtain ⟨_, grove'', used', hr, hh, hp, -⟩ := hinsert
    rw [hr]
    exact ⟨rfl, used', hh, hp.nodup_iff.2 hall⟩

theorem leaves_forM_graft (h : grove.Stands i top) (nodes : List Node) :
    Leaves i ((nodes.forM (graft i)).run.run grove) (nodes.foldlM Node.insertChild top) := by
  induction nodes generalizing grove top with
  | nil => exact ⟨rfl, h⟩
  | cons node nodes ih =>
    have hfirst := leaves_graft h node
    rw [List.foldlM_cons]
    cases hres : top.insertChild node with
    | error spans =>
      rw [hres] at hfirst
      exact congrArg Prod.fst (run_bind_of_error (Prod.ext hfirst rfl))
    | ok tree =>
      rw [hres] at hfirst
      obtain ⟨hok, hstands⟩ := hfirst
      have hrun : ((node :: nodes).forM (graft i)).run.run grove =
          (nodes.forM (graft i)).run.run ((graft i node).run.run grove).2 :=
        run_bind_of_ok (Prod.ext hok rfl)
      rw [hrun]
      exact ih hstands

theorem run_forM_graft (top : Node) (nodes : List Node) :
    let planted := (plant top).run {}
    let grown := (nodes.forM (graft planted.1)).run.run planted.2
    (∀ tree, nodes.foldlM Node.insertChild top = .ok tree →
      grown.1 = .ok () ∧ grown.2.tree? planted.1 = some tree) ∧
    ∀ spans, nodes.foldlM Node.insertChild top = .error spans →
    grown.1 = .error (.crossing spans) := by
  intro planted grown
  have hleaves := leaves_forM_graft (stands_plant top {}) nodes
  refine ⟨fun tree hok => ?_, fun spans herror => ?_⟩
  · rw [hok] at hleaves
    exact ⟨hleaves.1, hleaves.2.tree?_eq⟩
  · rw [herror] at hleaves
    exact hleaves

end Grove

end ThemeMarkup
