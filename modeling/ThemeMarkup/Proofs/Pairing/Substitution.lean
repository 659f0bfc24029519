import ThemeMarkup.Proofs.Pairing.Shape

namespace ThemeMarkup

namespace Node

/-- Between a node and what precedes it, from the offset `start` on, its source does not begin. -/
def Clear (text : Text) (start : Int) (nodes : List Node) : Prop :=
  ∀ (before : List Node) (node : Node) (after : List Node), nodes = before ++ node :: after →
    ∀ i : Nat, start ≤ i → (∀ earlier ∈ before, earlier.span.last < i) → i < node.span.first →
      ¬ node.source <+: text.drop i

/-- A tail tag that a node follows, no other node between them, and in which the node's source
begins as well. -/
def Hides (text : Text) (nodes : List Node) (tail : Tag) : Prop :=
  ∃ (before : List Node) (node : Node) (after : List Node), nodes = before ++ node :: after ∧
    (∀ earlier ∈ before, earlier.span.last < tail.span.first) ∧
    tail.span.last < node.span.first ∧
    ∃ i : Nat, tail.span.first ≤ i ∧ i ≤ tail.span.last ∧ node.source <+: text.drop i

/-- The text of a node with the spans of its children replaced by what these compile to. -/
def replaced (compiler : Compiler) (node : Node) : Except Error Text :=
  (node.children.mapM (compileContent compiler)).map fun contents =>
    Text.splice node.span.first node.source ((node.children.map (·.span)).zip contents)

/-- Whether the searches for a node's children find them where they stand. -/
def FindsChildren (node : Node) : Prop :=
  Hits node.span.first node.source node.children

variable {text : Text} {start : Int} {node : Node} {nodes : List Node}

theorem clear_nil (text : Text) (start : Int) : Clear text start [] := by
  simp [Clear]

theorem clear_cons_iff (hs : start ≤ node.span.last) :
    Clear text start (node :: nodes) ↔
      (∀ i : Nat, start ≤ i → i < node.span.first → ¬ node.source <+: text.drop i) ∧
        Clear text (node.span.last + 1) nodes := by
  constructor
  · intro h
    refine ⟨fun i hi hlt => h [] node nodes rfl i hi (by simp) hlt, ?_⟩
    intro before next after he i hi hb hlt
    refine h (node :: before) next after (congrArg (node :: ·) he) i (by omega) ?_ hlt
    exact List.forall_mem_cons.2 ⟨by omega, hb⟩
  · rintro ⟨hfirst, hrest⟩ before next after he i hi hb hlt
    cases before with
    | nil =>
      obtain ⟨rfl, rfl⟩ := List.cons.inj he
      exact hfirst i hi hlt
    | cons earlier before =>
      obtain ⟨rfl, rfl⟩ := List.cons.inj he
      obtain ⟨hlast, hb⟩ := List.forall_mem_cons.1 hb
      exact hrest before next after rfl i (by omega) hb hlt

theorem clear_cons_of_le (hf : node.span.first ≤ start) (hs : start ≤ node.span.last)
    (h : Clear text (node.span.last + 1) nodes) : Clear text start (node :: nodes) :=
  (clear_cons_iff hs).2 ⟨fun i hi hlt => by omega, h⟩

/-- A search finds each node where it stands just if the source of no node begins earlier. -/
theorem hits_iff_clear {start : Nat} (ho : InOrder nodes)
    (hs : ∀ node ∈ nodes, (start : Int) ≤ node.span.first ∧ node.IsMeasured ∧
      node.source <+: text.drop node.span.first.toNat) :
    Hits start (text.drop start) nodes ↔ Clear text start nodes := by
  induction nodes generalizing start with
  | nil => simp [Hits, clear_nil]
  | cons node nodes ih =>
    obtain ⟨hle, hm, rest, hp⟩ := hs node List.mem_cons_self
    have hlong : node.span.first ≤ node.span.last := ho.1 node List.mem_cons_self
    obtain ⟨first, hf⟩ := Int.eq_ofNat_of_zero_le (show 0 ≤ node.span.first by omega)
    have hstop : node.span.last + 1 = (first + node.source.length : Nat) := by
      rw [show node.span.last + 1 = _ from hm, hf]
      exact (Int.natCast_add ..).symm
    rw [hf, Int.toNat_natCast] at hp
    have hlength : first ≤ text.length := by
      have hlen := congrArg List.length hp
      rw [List.length_append, List.length_drop] at hlen
      omega
    -- The search for the node hits just if its source begins nowhere in what stands before it.
    let gap := (text.drop start).take (first - start)
    have hgap : gap.length = first - start := by
      rw [List.length_take, List.length_drop]
      omega
    have htext : text.drop start = gap ++ node.source ++ rest := by
      rw [List.append_assoc, hp, ← List.take_append_drop (first - start) (text.drop start),
        List.drop_drop]
      congr 2
      omega
    have hrest : text.drop (first + node.source.length) = rest := Text.drop_add hp.symm
    have hmore := ih ho.of_cons fun next hn => by
      obtain ⟨-, hm', hp'⟩ := hs next (List.mem_cons_of_mem _ hn)
      have := (List.pairwise_cons.1 ho.2).1 next hn
      exact ⟨show ((first + node.source.length : Nat) : Int) ≤ _ by omega, hm', hp'⟩
    rw [hrest] at hmore
    rw [clear_cons_iff (by omega), hstop, ← hmore, Hits, htext]
    constructor
    · rintro ⟨before, after, hc, hfirst, hits⟩
      obtain ⟨he, hno⟩ := Text.cut?_eq_some_iff.1 hc
      have hlen : before.length = gap.length := by omega
      rw [List.append_assoc, List.append_assoc] at he
      obtain ⟨rfl, hafter⟩ := List.append_inj he.symm hlen
      rw [List.append_cancel_left hafter, hstop] at hits
      refine ⟨fun i hi hlt => ?_, hits⟩
      have h := hno (i - start) (by omega)
      rw [← htext, List.drop_drop] at h
      rwa [show start + (i - start) = i by omega] at h
    · rintro ⟨hno, hits⟩
      refine ⟨gap, rest, Text.cut?_eq_some_iff.2 ⟨rfl, fun i hi => ?_⟩, by omega, ?_⟩
      · rw [← htext, List.drop_drop]
        exact hno (start + i) (by omega) (by omega)
      · rwa [hstop]

/-- A node finds its children just if, in its own text, the source of none begins earlier. -/
theorem findsChildren_iff (hc : node.span.Covers text node.source) (ho : InOrder node.children)
    (hs : ∀ child ∈ node.children, node.span.Holds child.span ∧
      child.span.Covers text child.source) :
    node.FindsChildren ↔
      Clear (text.take (node.span.last + 1).toNat) node.span.first node.children := by
  have hb := hc.bounds
  have hm := hc.measured
  obtain ⟨first, hf⟩ := Int.eq_ofNat_of_zero_le hb.1
  obtain ⟨stop, hl⟩ := Int.eq_ofNat_of_zero_le (show 0 ≤ node.span.last + 1 by omega)
  have hwithin {source : Text} {start : Nat} (hp : source <+: text.drop start)
      (hle : start + source.length ≤ stop) : source <+: (text.take stop).drop start := by
    rw [List.drop_take]
    exact List.prefix_take_iff.2 ⟨hp, by omega⟩
  have hsource : (text.take stop).drop first = node.source := by
    have hp := hc.prefix_drop
    rw [hf, Int.toNat_natCast] at hp
    refine ((hwithin hp (by omega)).eq_of_length ?_).symm
    rw [List.length_drop, List.length_take]
    omega
  rw [FindsChildren, ← hsource, hf, hl, Int.toNat_natCast]
  refine hits_iff_clear ho fun child hchild => ?_
  obtain ⟨hholds, hcovers⟩ := hs child hchild
  have hfirst := hholds.1
  have hlast := hholds.2
  have hmeasured := hcovers.measured
  have hpos := hcovers.bounds.1
  exact ⟨by omega, hmeasured, hwithin hcovers.prefix_drop (by omega)⟩

theorem Clear.take (h : Clear text start nodes) (stop : Nat) :
    Clear (text.take stop) start nodes := by
  intro before node after he i hi hb hlt hp
  rw [List.drop_take] at hp
  exact h before node after he i hi hb hlt (hp.trans (List.take_prefix ..))

theorem FindsChildren.substituted_eq {compiler : Compiler} (h : node.FindsChildren)
    (hm : ∀ child ∈ node.children, child.IsMeasured) (hc : node.content = node.source) :
    substituted compiler node.content node.children = node.replaced compiler := by
  rw [hc]
  exact substituted_eq_splice compiler h hm

end Node

namespace Forest

open Node Pairing

variable {registry : Registry} {strict : Bool} {d : Delimiters} {names : List Text} {text : Text}
  {lo hi : Int} {f : Forest} {head tail tag : Tag} {node : Node}

theorem stray_or_held (h : Tag.Row d names text lo hi f.tags) (ht : tag ∈ f.tags) :
    tag ∈ f.strays ∨ ∃ node ∈ f.nodes text, node.span.Holds tag.span := by
  induction f generalizing lo hi with
  | nil => contradiction
  | stray tail next ih =>
    rcases List.mem_cons.1 ht with rfl | ht
    · exact .inl List.mem_cons_self
    · exact (ih h.2.2.2 ht).imp_left (List.mem_cons_of_mem _)
  | lone head next ih =>
    rcases List.mem_cons.1 ht with rfl | ht
    · exact .inr ⟨_, List.mem_cons_self, Int.le_refl _, Int.le_refl _⟩
    · refine (ih h.2.2.2 ht).imp_right ?_
      exact fun ⟨node, hn, hh⟩ => ⟨node, List.mem_cons_of_mem _ hn, hh⟩
  | pair head inner tail next _ ih =>
    obtain ⟨-, -, hs, hr⟩ := h
    obtain ⟨hi', hs', hr⟩ := Tag.row_append_cons.1 hr
    obtain ⟨-, hfirst, hlast⟩ :=
      pairNode_covers hs hs' (Int.add_one_le_iff.1 hi'.le) (inner.nodes text)
    have hlong := hs.long
    have hlong' := hs'.long
    have hle := hi'.le
    have hheld (hf : head.span.first ≤ tag.span.first) (hl : tag.span.last ≤ tail.span.last) :
        ∃ node ∈ (pair head inner tail next).nodes text, node.span.Holds tag.span := by
      refine ⟨_, List.mem_cons_self, ?_⟩
      rw [Span.Holds, hfirst, hlast]
      exact ⟨hf, hl⟩
    rcases List.mem_cons.1 ht with rfl | ht
    · exact .inr (hheld (Int.le_refl _) (by omega))
    rcases List.mem_append.1 ht with ht | ht
    · obtain ⟨-, hf, hl⟩ := hi'.stands ht
      exact .inr (hheld (by omega) (by omega))
    rcases List.mem_cons.1 ht with rfl | ht
    · exact .inr (hheld (by omega) (Int.le_refl _))
    · refine (ih hr ht).imp_right ?_
      exact fun ⟨node, hn, hh⟩ => ⟨node, List.mem_cons_of_mem _ hn, hh⟩

theorem stray_apart (h : Tag.Row d names text lo hi f.tags) (ht : tail ∈ f.strays)
    (hn : node ∈ f.nodes text) :
    tail.span.last < node.span.first ∨ node.span.last < tail.span.first := by
  induction f generalizing lo hi with
  | nil => contradiction
  | stray first next ih =>
    obtain ⟨-, -, hs, hr⟩ := h
    rcases List.mem_cons.1 ht with rfl | ht
    · exact .inl (Int.add_one_le_iff.1 (fits_nodes hr node hn).after)
    · exact ih hr ht hn
  | lone head next ih =>
    obtain ⟨-, -, hs, hr⟩ := h
    rcases List.mem_cons.1 hn with rfl | hn
    · exact .inr (Int.add_one_le_iff.1 (hr.stands (strays_subset_tags next ht)).2.1)
    · exact ih hr ht hn
  | pair head inner closer next _ ih =>
    obtain ⟨-, -, hs, hr⟩ := h
    obtain ⟨hi', hs', hr⟩ := Tag.row_append_cons.1 hr
    rcases List.mem_cons.1 hn with rfl | hn
    · have hlast := (pairNode_covers hs hs' (Int.add_one_le_iff.1 hi'.le) (inner.nodes text)).2.2
      rw [hlast]
      exact .inr (Int.add_one_le_iff.1 (hr.stands (strays_subset_tags next ht)).2.1)
    · exact ih hr ht hn

theorem exists_head_prefix (h : Tag.Row d names text lo hi f.tags) (hn : node ∈ f.nodes text) :
    ∃ pairing ∈ f.pairings, pairing.head.Stands d names text ∧
    pairing.head.source <+: node.source := by
  have hmore {next f : Forest} (hsub : next.pairings ⊆ f.pairings)
      (h : ∃ pairing ∈ next.pairings,
        pairing.head.Stands d names text ∧ pairing.head.source <+: node.source) :
      ∃ pairing ∈ f.pairings,
        pairing.head.Stands d names text ∧ pairing.head.source <+: node.source := by
    obtain ⟨pairing, hp, hboth⟩ := h
    exact ⟨pairing, hsub hp, hboth⟩
  induction f generalizing lo hi with
  | nil => contradiction
  | stray tail next ih => exact ih h.2.2.2 hn
  | lone head next ih =>
    obtain ⟨-, -, hs, hr⟩ := h
    rcases List.mem_cons.1 hn with rfl | hn
    · exact ⟨⟨head, none⟩, List.mem_cons_self, hs, List.prefix_rfl⟩
    · exact hmore (List.subset_cons_self _ _) (ih hr hn)
  | pair head inner tail next _ ih =>
    obtain ⟨-, -, hs, hr⟩ := h
    obtain ⟨hi', hs', hr⟩ := Tag.row_append_cons.1 hr
    rcases List.mem_cons.1 hn with rfl | hn
    · obtain ⟨hc, hfirst, hlast⟩ :=
        pairNode_covers hs hs' (Int.add_one_le_iff.1 hi'.le) (inner.nodes text)
      have hlong' := hs'.long
      have hle := hi'.le
      have hm := hc.measured
      have hm' := hs.covers.measured
      refine ⟨⟨head, some tail⟩, List.mem_cons_self, hs, ?_⟩
      refine List.prefix_of_prefix_length_le hs.covers.prefix_drop ?_ (by dsimp only; omega)
      rw [← hfirst]
      exact hc.prefix_drop
    · exact hmore (List.subset_cons_of_subset _ (List.subset_append_right _ _)) (ih hr hn)

theorem isSome_read?_of_prefix (h : Tag.Row d names text lo hi f.tags) (hn : node ∈ f.nodes text)
    {other : Text} (hp : node.source <+: other) : (Tag.read? d names other).isSome = true := by
  obtain ⟨pairing, -, hs, hsource⟩ := exists_head_prefix h hn
  obtain ⟨after, rfl⟩ := hsource.trans hp
  exact hs.again after

/-- The search for the nodes of a forest is clear just if no tail that closes nothing hides one. -/
theorem clear_nodes_iff (h : Tag.Row d names text lo hi f.tags) (hl : hi ≤ text.length) :
    Clear text lo (f.nodes text) ↔ ∀ tail ∈ f.strays, ¬ Hides text (f.nodes text) tail := by
  constructor
  · rintro hc tail ht ⟨before, node, after, he, hb, hlt, i, hf, hle, hp⟩
    have hlo := (h.stands (strays_subset_tags f ht)).2.1
    refine hc before node after he i (by omega) (fun earlier hm => ?_) (by omega) hp
    have := hb earlier hm
    omega
  · intro hc before node after he i hi' hb hlt hp
    have hmem (n : Node) (hn : n ∈ before ++ node :: after) : n ∈ f.nodes text := he ▸ hn
    have hnode := fits_nodes h node (hmem node (by simp))
    have horder := (inOrder_nodes h).2
    rw [he, List.pairwise_append] at horder
    have hsome := isSome_read?_of_prefix h (hmem node (by simp)) hp
    obtain ⟨tag, ht, hin⟩ : ∃ tag ∈ f.tags, tag.span.first ≤ i ∧ i ≤ tag.span.last := by
      refine Classical.byContradiction fun hno => ?_
      have hbefore := hnode.before
      have hlong := hnode.long
      rw [h.silent hi' (by omega) (by omega) fun tag ht hin => hno ⟨tag, ht, hin⟩] at hsome
      contradiction
    have hstray : tag ∈ f.strays := by
      refine (stray_or_held h ht).resolve_right ?_
      rintro ⟨other, ho, hh⟩
      have hfirst := hh.1
      have hlast := hh.2
      rw [he] at ho
      rcases List.mem_append.1 ho with ho | ho
      · have := hb other ho
        omega
      rcases List.mem_cons.1 ho with rfl | ho
      · omega
      · have := (List.pairwise_cons.1 horder.2.1).1 other ho
        have := hnode.long
        omega
    refine hc tag hstray ⟨before, node, after, he, fun earlier hm => ?_, ?_, i, hin.1, hin.2, hp⟩
    · have := hb earlier hm
      have := (fits_nodes h earlier (hmem earlier (by simp [hm]))).long
      rcases stray_apart h hstray (hmem earlier (by simp [hm])) with hapart | hapart
      · omega
      · exact hapart
    · rcases stray_apart h hstray (hmem node (by simp)) with hapart | hapart
      · exact hapart
      · have := hnode.long
        omega

theorem findsChildren_pairNode (hh : head.Stands d names text) (ht : tail.Stands d names text)
    (h : head.span.last < tail.span.first) (inner : List Node) :
    (pairNode text head tail inner).FindsChildren := by
  have hsound := sound_pairNode hh ht h inner
  obtain ⟨hc, hfirst, -⟩ := pairNode_covers hh ht h inner
  have hlong := hh.long
  have hhead : (pairNode text head tail inner).span.first ≤ head.span.last := by omega
  have horder : Node.InOrder (pairNode text head tail inner).children :=
    ⟨fun child hm => (hsound.within child hm).1, hsound.siblings⟩
  rcases Int.lt_or_eq_of_le (Int.add_one_le_iff.2 h) with hlt | heq
  · obtain ⟨hc', hfirst', hlast'⟩ := bodyNode_covers hh ht hlt
    have hchildren := children_pairNode_of_lt hh ht hlt inner
    refine (findsChildren_iff hc horder fun child hm => ⟨(hsound.within child hm).2, ?_⟩).2 ?_
    · rw [hchildren] at hm
      rcases List.mem_pair.1 hm with rfl | rfl
      · exact hh.covers
      · exact hc'
    · rw [hchildren]
      refine clear_cons_of_le (Int.le_of_eq hfirst.symm) hhead
        (clear_cons_of_le (Int.le_of_eq hfirst') ?_ (clear_nil _ _))
      exact Int.le_trans (Int.le_of_eq hfirst'.symm) hc'.bounds.2.1
  · have hchildren := children_pairNode_of_eq hh ht heq inner
    refine (findsChildren_iff hc horder fun child hm => ⟨(hsound.within child hm).2, ?_⟩).2 ?_
    · rw [hchildren] at hm
      rw [List.mem_singleton.1 hm]
      exact hh.covers
    · rw [hchildren]
      exact clear_cons_of_le (Int.le_of_eq hfirst.symm) hhead (clear_nil _ _)

theorem findsChildren_of_nodes (hc : node.span.Covers text node.source)
    (hf : node.span.first = lo) (hl : node.span.last + 1 = hi)
    (h : Tag.Row d names text lo hi f.tags) (hn : node.children = f.nodes text)
    (hs : f.strays = []) : node.FindsChildren := by
  have hb := hc.bounds
  have hclear : Clear text lo (f.nodes text) :=
    (clear_nodes_iff h (by omega)).2 (by rw [hs]; exact List.forall_mem_nil _)
  have horder := inOrder_nodes h
  subst hf hl
  rw [← hn] at hclear horder
  refine (findsChildren_iff hc horder fun child hm => ?_).2 (hclear.take _)
  rw [hn] at hm
  have hfits := fits_nodes h child hm
  exact ⟨⟨hfits.after, Int.lt_add_one_iff.1 hfits.before⟩, hfits.covers⟩

/-- In the tree of a forest every paired node and every body finds its children. -/
theorem finds_preorders {waiting : Option Tag} (h : Tag.Row d names text lo hi f.tags)
    (hm : Matched registry strict waiting f) :
    ∀ node ∈ preorders (f.nodes text),
      (node.name.isSome = true → node.content = node.source → node.FindsChildren) ∧
        (node.isBody = true →
          node.content = node.source ∧ node.routine = none ∧ node.FindsChildren) := by
  induction f generalizing lo hi waiting with
  | nil => simp [nodes]
  | stray tail next ih => exact ih h.2.2.2 hm.2
  | lone head next ih =>
    obtain ⟨-, -, hs, hr⟩ := h
    obtain ⟨-, -, -, hm⟩ := hm
    intro node hn
    rcases mem_preorders_lone.1 hn with rfl | rfl | hn
    · refine ⟨fun _ he => ?_, fun hb => absurd hb Bool.false_ne_true⟩
      have hbrief := hs.brief
      rw [show head.argument = head.source from he] at hbrief
      exact absurd hbrief (Nat.lt_irrefl _)
    · exact ⟨fun hb => absurd hb Bool.false_ne_true, fun hb => absurd hb Bool.false_ne_true⟩
    · exact ih hr hm node hn
  | pair head inner tail next ihi ih =>
    obtain ⟨-, -, hs, hr⟩ := h
    obtain ⟨hi', ht, hr⟩ := Tag.row_append_cons.1 hr
    obtain ⟨-, -, -, hstrays, hmi, hm⟩ := hm
    intro node hn
    rcases (mem_preorders_pair hs ht hi').1 hn with (rfl | rfl | ⟨hlt, rfl⟩ | hn) | hn
    · exact ⟨fun _ _ => findsChildren_pairNode hs ht (Int.add_one_le_iff.1 hi'.le) _,
        fun hb => absurd hb Bool.false_ne_true⟩
    · exact ⟨fun hb => absurd hb Bool.false_ne_true, fun hb => absurd hb Bool.false_ne_true⟩
    · obtain ⟨hc, hfirst, hlast⟩ := bodyNode_covers hs ht hlt
      exact ⟨fun hb => absurd hb Bool.false_ne_true,
        fun _ => ⟨rfl, rfl, findsChildren_of_nodes hc hfirst hlast hi' rfl hstrays⟩⟩
    · exact ihi hi' hmi node hn
    · exact ih hr hm node hn

theorem measured_children (h : Tag.Row d names text lo hi f.tags) :
    ∀ node ∈ preorders (f.nodes text), ∀ child ∈ node.children, child.IsMeasured :=
  fun _ hn child hc => (placed_preorders h child (mem_preorders_of_child hn hc)).covers.measured

end Forest

namespace Engine

open Node

variable {text : Text} {f : Forest} {d : Delimiters} {names : List Text}

/-- A whole text finds its nodes just if no tail tag that closes nothing hides one. -/
theorem findsChildren_root_iff (h : Tag.Row d names text 0 text.length f.tags) :
    ((root text).withChildren (f.nodes text)).FindsChildren ↔
      ∀ tail ∈ f.strays, ¬ Hides text (f.nodes text) tail := by
  rw [← Forest.clear_nodes_iff h (Int.le_refl _)]
  by_cases ht : text = []
  · subst ht
    rw [Forest.nodes_of_le h (Int.le_refl _)]
    exact iff_of_true trivial (clear_nil _ _)
  · have hc := root_covers ht
    have hstop : ((root text).withChildren (f.nodes text)).span.last + 1 = text.length := by
      rw [show ((root text).withChildren (f.nodes text)).span.last + 1 = _ from hc.measured,
        first_root ht, Int.zero_add]
    have hwithin : ∀ child ∈ f.nodes text, (root text).span.Holds child.span ∧
        child.span.Covers text child.source := fun child hm => by
      have hfits := Forest.fits_nodes h child hm
      refine ⟨⟨?_, Int.lt_add_one_iff.1 (hstop ▸ hfits.before)⟩, hfits.covers⟩
      exact first_root ht ▸ hfits.after
    have hiff : ((root text).withChildren (f.nodes text)).FindsChildren ↔ _ :=
      findsChildren_iff hc (Forest.inOrder_nodes h) hwithin
    rw [hiff, hstop, Int.toNat_natCast, List.take_length]
    exact first_root ht ▸ Iff.rfl

/-- In a tree of the node pass every paired node and every body finds its children where they stand
and has their spans replaced. The whole text finds its nodes, and has their spans replaced, unless a
tail tag that closes nothing hides one of them. -/
theorem findsChildren_of_tree (engine : Engine) (hd : engine.delimiters.node.IsProper) (text : Text)
    (root : Node) (h : engine.tree .node text = .ok root) :
    ∃ tags pairings strays,
      Tag.scan engine.compiler.registry engine.delimiters.node text = .ok tags ∧
      Pairing.match? engine.compiler.registry engine.strict tags = .ok (pairings, strays) ∧
      (∀ node ∈ root.preorder, node.name.isSome = true → node.content = node.source →
        node.FindsChildren ∧ substituted engine.compiler node.content node.children =
          node.replaced engine.compiler) ∧
      (∀ body ∈ root.preorder, body.isBody = true →
        body.FindsChildren ∧ body.compileContent engine.compiler = body.replaced engine.compiler) ∧
      (root.FindsChildren ↔ ∀ tail ∈ strays, ¬ Hides text root.children tail) ∧
      (root.FindsChildren →
        root.compileContent engine.compiler = root.replaced engine.compiler) := by
  obtain ⟨f, hscan, hm, rfl⟩ := (tree_node_eq_ok_iff hd).1 h
  have hrow := Tag.row_of_scan hd hscan
  have hfinds := Forest.finds_preorders hrow hm
  have hmeasured := Forest.measured_children hrow
  have hpre : ((Engine.root text).withChildren (f.nodes text)).preorder =
      (Engine.root text).withChildren (f.nodes text) :: preorders (f.nodes text) :=
    preorder_eq _
  refine ⟨f.tags, f.pairings, f.strays, hscan, ?_, ?_, ?_, findsChildren_root_iff hrow, ?_⟩
  · rw [Forest.match?_eq_grow, Forest.grow_eq_ok_iff.2 ⟨rfl, hm⟩]
    rfl
  · intro node hn hname hc
    rw [hpre] at hn
    rcases List.mem_cons.1 hn with rfl | hn
    · contradiction
    · have hf := (hfinds node hn).1 hname hc
      exact ⟨hf, hf.substituted_eq (hmeasured node hn) hc⟩
  · intro body hn hbody
    rw [hpre] at hn
    rcases List.mem_cons.1 hn with rfl | hn
    · contradiction
    · obtain ⟨hc, hroutine, hf⟩ := (hfinds body hn).2 hbody
      refine ⟨hf, ?_⟩
      rw [compileContent_of_routine hroutine]
      exact hf.substituted_eq (hmeasured body hn) hc
  · intro hf
    rw [compileContent_of_routine rfl]
    exact hf.substituted_eq (fun child hm =>
      (Forest.fits_nodes hrow child hm).covers.measured) rfl

attribute [local instance] Marker.Serials.sample

theorem findsChildren_of_tree_equal_tags :
    (standard ".html" false).delimiters.node.IsProper ∧ ∃ root,
      (standard ".html" false).tree .node
        "\x7b% if a %\x7d\x7b% else %\x7d\x7b% :if %\x7d\x7b% else %\x7d" = .ok root ∧
      ∀ node ∈ root.preorder, node.isBody = true → node.FindsChildren ∧
        node.compileContent (standard ".html" false).compiler =
          node.replaced (standard ".html" false).compiler := by
  have hd : (standard ".html" false).delimiters.node.IsProper := by decide
  have hok : (standard ".html" false).runPass .node
      "\x7b% if a %\x7d\x7b% else %\x7d\x7b% :if %\x7d\x7b% else %\x7d" =
        .ok "\x7b% if a %\x7d\x7b% else %\x7d\x7b% endif %\x7d\x7b% else %\x7d" := by cbv
  rw [runPass] at hok
  cases ht : (standard ".html" false).tree .node
      "\x7b% if a %\x7d\x7b% else %\x7d\x7b% :if %\x7d\x7b% else %\x7d" with
  | error e =>
    rw [ht] at hok
    contradiction
  | ok root =>
    obtain ⟨-, -, -, -, -, -, hbodies, -⟩ :=
      findsChildren_of_tree (standard ".html" false) hd _ root ht
    exact ⟨hd, root, rfl, hbodies⟩

/-- The standard engine with a pair of single characters as the delimiters of node tags. -/
def angular : Engine :=
  { standard ".html" false with delimiters := { node := ⟨"<", ">"⟩ } }

/-- A tail tag that closes nothing hides the tag after it: another text takes its place. -/
theorem replaced_ne_of_hidden :
    angular.delimiters.node.IsProper ∧
      angular.runPass .node "<:if <else ><else >" = .ok "<:if \x7b% else %\x7d<else >" ∧
      (angular.tree .node "<:if <else ><else >" >>= replaced angular.compiler) =
        .ok "<:if <else >\x7b% else %\x7d" := by
  refine ⟨by decide, ?_, ?_⟩
  · cbv
  · cbv

end Engine

end ThemeMarkup
