import Mathlib
import ThemeMarkup.Proofs.Pairing.Grammar
import ThemeMarkup.Proofs.Pairing.Shape
import ThemeMarkup.Proofs.Pairing.Strict
import ThemeMarkup.Proofs.Tag.Grammar

namespace ThemeMarkup

variable {registry : Registry} {d : Delimiters} {text : Text} {entry : NodeTag}

theorem Registry.isSingle_of_get? {key : Text} (h : registry.node.get? key = some entry) :
    ∃ key first, registry.node.entries.find? (fun e => e.2.name = entry.name) = some (key, first) ∧
      registry.isSingle entry.name = first.single := by
  obtain ⟨before, after, he, -⟩ := List.lookup_eq_some_iff.1 h
  have hsome : (registry.node.entries.find? fun e => e.2.name = entry.name).isSome = true := by
    rw [List.find?_isSome, he]
    exact ⟨_, List.mem_append_right before List.mem_cons_self, decide_eq_true rfl⟩
  obtain ⟨⟨key, first⟩, hfirst⟩ := Option.isSome_iff_exists.1 hsome
  exact ⟨key, first, hfirst, by rw [isSingle, hfirst]⟩

namespace Tag

/-- The entry under the name, in lower case, with which a tag of a text is written. -/
def OwnEntry (registry : Registry) (d : Delimiters) (text : Text) (tag : Tag)
    (entry : NodeTag) : Prop :=
  ∃ written rest, read? d (Registry.byLength registry.node.keys) (text.drop tag.span.first.toNat) =
      some (written, rest) ∧
    registry.node.get? (Text.lower written.name) = some entry

theorem exists_ownEntry {tags : List Tag} {tag : Tag} (hd : d.IsProper)
    (hs : scan registry d text = .ok tags) (hm : tag ∈ tags) :
    ∃ entry, tag.OwnEntry registry d text entry ∧ tag.name = entry.name := by
  let names := Registry.byLength registry.node.keys
  obtain ⟨found, hf, htag⟩ := exists_of_mem_right (Except.mapM_eq_ok_iff.1 hs) hm
  have hscan := (steady_read? hd.1 hd.2 names).scans_scanFrom 0 text
  obtain ⟨-, rest, hdrop, hread⟩ := (hscan.located text rfl).reads found hf
  obtain ⟨entry, hentry, htag⟩ := Except.bind_eq_ok_iff.1 htag
  obtain rfl := Except.ok.inj htag
  exact ⟨entry, ⟨found.value, rest, hdrop ▸ hread, Registry.get?_of_nodeTag hentry⟩, rfl⟩

end Tag

namespace Forest

open Pairing

variable {strict : Bool} {names : List Text} {lo hi : Int} {f g : Forest} {head tag : Tag}
  {before rest : List Tag}

theorem Pushed.pairings_subset (h : Pushed registry strict tag f g) : f.pairings ⊆ g.pairings := by
  cases h with
  | stray _ => exact List.Subset.refl _
  | lone _ _ _ => exact List.subset_cons_self _ _
  | pair _ _ _ =>
    rw [pairings_append]
    exact List.subset_cons_self _ _

theorem exists_grow_of_match? {tags tails : List Tag} {paired : List Pairing}
    (h : match? registry strict tags = .ok (paired, tails)) :
    ∃ g, grow registry strict tags = .ok g ∧ g.strays = tails := by
  rw [match?_eq_grow] at h
  cases hg : grow registry strict tags with
  | error e =>
    rw [hg] at h
    contradiction
  | ok g =>
    rw [hg] at h
    exact ⟨g, rfl, congrArg Prod.snd (Except.ok.inj h)⟩

/-- What is paired already stays so when tags come before it, unless one of these is at fault. -/
theorem meets_grow_append (h : grow registry strict rest = .ok g) (before : List Tag) :
    Except.Meets (fun f => g.pairings ⊆ f.pairings)
      (fun e => ∃ other ∈ before, other.kind = .head ∧ e = other.unpaired)
      (grow registry strict (before ++ rest)) := by
  induction before with
  | nil =>
    rw [List.nil_append, h]
    exact List.Subset.refl _
  | cons tag before ih =>
    rw [List.cons_append, grow]
    cases hb : grow registry strict (before ++ rest) with
    | error e =>
      rw [hb] at ih
      obtain ⟨other, ho, hk, he⟩ := ih
      exact ⟨other, List.mem_cons_of_mem _ ho, hk, he⟩
    | ok f =>
      rw [hb] at ih
      change Except.Meets _ _ (push registry strict tag f)
      cases hp : push registry strict tag f with
      | error e =>
        obtain ⟨hk, -, he⟩ := unpaired_of_push hp
        exact ⟨tag, List.mem_cons_self, hk, he⟩
      | ok f' => exact List.Subset.trans ih (push_eq_ok_iff.1 hp).pairings_subset

theorem push_of_open (hk : head.kind = .head)
    (ho : ∀ tail ∈ f.strays.head?, nameCloses strict head.name tail.name = false) :
    push registry strict head f = pushLone registry head f := by
  unfold push
  cases hs : f.split with
  | none => rw [hk]
  | some parts =>
    obtain ⟨inner, tail, after⟩ := parts
    obtain ⟨rfl, hi⟩ := eq_append_of_split hs
    have hc := ho tail (by simp [hi, strays])
    simp [hk, hc]

theorem loneNode_mem_preorders (h : Tag.Row d names text lo hi f.tags)
    (hm : ⟨head, none⟩ ∈ f.pairings) : loneNode text head ∈ Node.preorders (f.nodes text) := by
  induction f generalizing lo hi with
  | nil => contradiction
  | stray tail next ih => exact ih h.2.2.2 hm
  | lone first next ih =>
    rw [nodes, Node.preorders_cons, List.mem_append]
    rcases List.mem_cons.1 hm with he | hm
    · obtain ⟨rfl, -⟩ := Pairing.mk.inj he
      exact .inl (Node.mem_preorder_self _)
    · exact .inr (ih h.2.2.2 hm)
  | pair first inner tail next ihi ih =>
    obtain ⟨-, -, hs, hr⟩ := h
    obtain ⟨hi', ht, hr⟩ := Tag.row_append_cons.1 hr
    rw [nodes, Node.preorders_cons, List.mem_append]
    rw [pairings, List.mem_cons, List.mem_append] at hm
    rcases hm with he | hm | hm
    · exact absurd (Pairing.mk.inj he).2 (by simp)
    · exact .inl ((mem_preorder_pairNode hs ht hi').2 (.inr (.inr (.inr (ihi hi' hm)))))
    · exact .inr (ih hr hm)

end Forest

namespace Engine

open Pairing

variable {engine : Engine} {before after tails : List Tag} {head : Tag} {pairings : List Pairing}

/-- What becomes of a head tag that no tail tag closes: if it may stand alone, a pairing of its own
and then a node of the tree, unless a head tag before it is at fault; if it may not, an error. -/
def Settles (engine : Engine) (text : Text) (before : List Tag) (head : Tag) (after : List Tag) :
    Bool → Prop
  | true =>
    (∃ pairings tails, match? engine.compiler.registry engine.strict (head :: after) =
      .ok (⟨head, none⟩ :: pairings, tails)) ∧
    ((∃ root, engine.tree .node text = .ok root ∧ loneNode text head ∈ root.preorder) ∨
      ∃ other ∈ before, other.kind = .head ∧ engine.tree .node text = .error other.unpaired)
  | false => engine.tree .node text = .error head.unpaired

/-- A head tag that stands alone after some tags has its node in the tree, unless one of these tags
is at fault. -/
theorem loneNode_mem_or_unpaired {g : Forest} (hd : engine.delimiters.node.IsProper)
    (hs : Tag.scan engine.compiler.registry engine.delimiters.node text =
      .ok (before ++ head :: after))
    (hg : Forest.grow engine.compiler.registry engine.strict (head :: after) = .ok (.lone head g)) :
    (∃ root, engine.tree .node text = .ok root ∧ loneNode text head ∈ root.preorder) ∨
      ∃ other ∈ before, other.kind = .head ∧ engine.tree .node text = .error other.unpaired := by
  have hmeets := Forest.meets_grow_append hg before
  rw [tree_node_of_scan hd hs]
  cases hf : Forest.grow engine.compiler.registry engine.strict (before ++ head :: after) with
  | error e =>
    rw [hf] at hmeets
    obtain ⟨other, hother, hkind, rfl⟩ := hmeets
    exact .inr ⟨other, hother, hkind, rfl⟩
  | ok f =>
    rw [hf] at hmeets
    have hrow := Tag.row_of_scan hd hs
    rw [← (Forest.grow_eq_ok_iff.1 hf).1] at hrow
    have hmem := Forest.loneNode_mem_preorders hrow (hmeets List.mem_cons_self)
    refine .inl ⟨_, rfl, ?_⟩
    rw [Node.preorder_eq]
    exact List.mem_cons_of_mem _ hmem

theorem settles_isSingle (hd : engine.delimiters.node.IsProper)
    (hs : Tag.scan engine.compiler.registry engine.delimiters.node text =
      .ok (before ++ head :: after))
    (hk : head.kind = .head)
    (hm : match? engine.compiler.registry engine.strict after = .ok (pairings, tails))
    (ho : ∀ tail ∈ tails.head?, nameCloses engine.strict head.name tail.name = false) :
    engine.Settles text before head after (engine.compiler.registry.isSingle head.name) := by
  obtain ⟨g, hg, rfl⟩ := Forest.exists_grow_of_match? hm
  have hpush := (Forest.grow_cons_of_ok hg head).trans (Forest.push_of_open hk ho)
  cases hsingle : engine.compiler.registry.isSingle head.name with
  | false =>
    rw [Forest.pushLone, hsingle] at hpush
    rw [Settles, tree_node_of_scan hd hs, Forest.grow_append_error hpush before]
    rfl
  | true =>
    rw [Forest.pushLone, hsingle, if_pos rfl] at hpush
    refine ⟨⟨g.pairings, g.strays, ?_⟩, loneNode_mem_or_unpaired hd hs hpush⟩
    rw [Forest.match?_eq_grow, hpush]
    rfl

theorem Settles.unique (horder : Tag.InOrder text (before ++ head :: after)) {single single' : Bool}
    (h : engine.Settles text before head after single)
    (h' : engine.Settles text before head after single') : single = single' := by
  have hone (h : engine.Settles text before head after true)
      (h' : engine.Settles text before head after false) : False := by
    rcases h.2 with ⟨root, hroot, -⟩ | ⟨other, hother, -, herror⟩
    · exact absurd (hroot.symm.trans h') (by simp)
    · have he := Except.error.inj (herror.symm.trans h')
      have hspan : other.span = head.span := by
        simp only [Tag.unpaired, Error.tag.injEq, TagError.mk.injEq] at he
        exact he.2.1
      have hlt := (List.pairwise_append.1 horder.ordered).2.2 other hother head List.mem_cons_self
      have hle := (horder.within other (List.mem_append_left _ hother)).2.1
      rw [Tag.Before, ← hspan] at hlt
      omega
  cases single <;> cases single'
  · rfl
  · exact (hone h' h).elim
  · exact (hone h h').elim
  · rfl

/-- A head tag that no tail tag closes is settled as the first entry of its node's name says, and as
its own entry says just if the two say the same. -/
theorem settles_iff (hd : engine.delimiters.node.IsProper)
    (hs : Tag.scan engine.compiler.registry engine.delimiters.node text =
      .ok (before ++ head :: after))
    (hk : head.kind = .head)
    (hm : match? engine.compiler.registry engine.strict after = .ok (pairings, tails))
    (ho : ∀ tail ∈ tails.head?, nameCloses engine.strict head.name tail.name = false) :
    ∃ entry key first,
      head.OwnEntry engine.compiler.registry engine.delimiters.node text entry ∧
      engine.compiler.registry.node.entries.find? (fun e => e.2.name = entry.name) =
      some (key, first) ∧
      engine.Settles text before head after first.single ∧
      (engine.Settles text before head after entry.single ↔ entry.single = first.single) := by
  obtain ⟨entry, hown, hname⟩ :=
    Tag.exists_ownEntry hd hs (List.mem_append_right before List.mem_cons_self)
  obtain ⟨written, rest, hread, hget⟩ := hown
  obtain ⟨key, first, hfirst, hsingle⟩ := Registry.isSingle_of_get? hget
  have hsettles := settles_isSingle hd hs hk hm ho
  rw [hname, hsingle] at hsettles
  refine ⟨entry, key, first, ⟨written, rest, hread, hget⟩, hfirst, hsettles,
    fun h => ?_, fun h => ?_⟩
  · exact h.unique (Tag.row_of_scan hd hs).inOrder hsettles
  · rwa [h]

def ofNodeTags (entries : List (Text × NodeTag)) : Engine where
  compiler := { registry := { node := .ofList entries }, routines := ∅ }

/-- A tag that stands alone before a pair whose nodes have the same name. -/
def aliasedIf : Text :=
  "\x7b% when %\x7d\x7b% if a %\x7db\x7b% :if %\x7d"

def aliasedIfTags : List Tag :=
  [{ kind := .head, name := "if", source := aliasedIf.slice 0 10, span := .ofRange aliasedIf 0 10 },
    { kind := .head, name := "if", argument := "a", source := aliasedIf.slice 10 20
      span := .ofRange aliasedIf 10 10 },
    { kind := .tail, name := "if", source := aliasedIf.slice 21 30,
      span := .ofRange aliasedIf 21 9 }]

theorem settles_iff_aliasedIf :
    let engine := ofNodeTags [("when", ⟨"if", true⟩), ("if", ⟨"if", false⟩)]
    let registry := engine.compiler.registry
    engine.delimiters.node.IsProper ∧ ∃ head opening closing, aliasedIfTags =
    [head, opening, closing] ∧
      Tag.scan registry engine.delimiters.node aliasedIf = .ok ([] ++ head :: [opening, closing]) ∧
      head.kind = .head ∧
      match? registry engine.strict [opening, closing] = .ok ([⟨opening, some closing⟩], []) ∧
      head.OwnEntry registry engine.delimiters.node aliasedIf ⟨"if", true⟩ ∧
      engine.Settles aliasedIf [] head [opening, closing] true := by
  intro engine registry
  have hd : engine.delimiters.node.IsProper := by decide
  refine ⟨hd, _, _, _, rfl, ?_⟩
  have hs : Tag.scan registry engine.delimiters.node aliasedIf = .ok ([] ++ aliasedIfTags) := by cbv
  have hm : match? registry engine.strict (aliasedIfTags.drop 1) = .ok (_, []) := rfl
  obtain ⟨entry, key, first, ⟨written, rest, hread, hget⟩, hfirst, hsettles, -⟩ :=
    settles_iff hd hs rfl hm (by simp)
  have hwritten :
      Tag.read? engine.delimiters.node (Registry.byLength registry.node.keys) aliasedIf =
      some (⟨.head, "when", " "⟩, aliasedIf.drop 10) := by cbv
  obtain ⟨rfl, rfl⟩ := Prod.mk.inj (Option.some.inj (hwritten.symm.trans hread))
  obtain rfl : (⟨"if", true⟩ : NodeTag) = entry := Option.some.inj hget
  obtain rfl : (⟨"if", true⟩ : NodeTag) = first := congrArg Prod.snd (Option.some.inj hfirst)
  exact ⟨hs, rfl, hm, ⟨_, _, hread, hget⟩, hsettles⟩

/-- A tag whose own entry lets it stand alone fails, as an earlier entry of its node's name does
not. -/
theorem not_settles_overruled :
    let engine := ofNodeTags [("if", ⟨"if", false⟩), ("when", ⟨"if", true⟩)]
    let registry := engine.compiler.registry
    let head : Tag :=
      { kind := .head, name := "if", source := "\x7b% when %\x7d",
        span := .ofRange "\x7b% when %\x7d" 0 10 }
    Tag.scan registry engine.delimiters.node "\x7b% when %\x7d" = .ok ([] ++ head :: []) ∧
      head.OwnEntry registry engine.delimiters.node "\x7b% when %\x7d" ⟨"if", true⟩ ∧
      match? registry engine.strict [] = .ok ([], []) ∧
      engine.tree .node "\x7b% when %\x7d" = .error head.unpaired := by
  intro engine registry head
  exact ⟨by cbv, ⟨⟨.head, "when", " "⟩, [], by cbv, by cbv⟩, rfl, by cbv⟩

end Engine

end ThemeMarkup
