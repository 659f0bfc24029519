import ThemeMarkup.Proofs.Marked.Node
import ThemeMarkup.Proofs.Twin.Routine
import ThemeMarkup.Proofs.Twin.Tag

namespace ThemeMarkup

open Marker (Aligned Core Decides Kin Seam Twin flipped)
open Node (substituted)
open Standard (knownAttributes)

variable {Agree : Prop} {Pair : Marker → Text → Text → Prop} {suffix text text' out : Text}
  {T : Tag → Tag → Prop} {registry : Registry} {strict : Bool}
  {head head' tail tail' tag tag' : Tag}

namespace Forest

inductive Rel (T : Tag → Tag → Prop) : Forest → Forest → Prop where
  | nil : Rel T nil nil
  | stray {tail tail' : Tag} {next next' : Forest} (closer : T tail tail')
    (more : Rel T next next') :
      Rel T (stray tail next) (stray tail' next')
  | lone {head head' : Tag} {next next' : Forest} (opener : T head head')
    (more : Rel T next next') :
      Rel T (lone head next) (lone head' next')
  | pair {head head' tail tail' : Tag} {inner inner' next next' : Forest} (opener : T head head')
      (body : Rel T inner inner') (closer : T tail tail') (more : Rel T next next') :
      Rel T (pair head inner tail next) (pair head' inner' tail' next')

namespace Rel

variable {f f' g : Forest}

theorem split (h : Rel T f f') :
    Option.Rel (fun parts parts' => Rel T parts.1 parts'.1 ∧ T parts.2.1 parts'.2.1 ∧
      Rel T parts.2.2 parts'.2.2) f.split f'.split := by
  induction h with
  | nil => exact .none
  | stray closer more _ => exact .some ⟨.nil, closer, more⟩
  | lone opener more ih =>
    exact Option.Rel.map (fun hparts => ⟨.lone opener hparts.1, hparts.2⟩) ih
  | pair opener body closer more _ ih =>
    exact Option.Rel.map (fun hparts => ⟨.pair opener body closer hparts.1, hparts.2⟩) ih

variable (hT : ∀ {tag tag'}, T tag tag' → tag'.kind = tag.kind ∧ tag'.name = tag.name)

include hT

theorem pushLone (h : Rel T f f') (ht : T tag tag') (hp : Forest.pushLone registry tag f = .ok g) :
    ∃ g', Forest.pushLone registry tag' f' = .ok g' ∧ Rel T g g' := by
  rw [Forest.pushLone] at hp
  split at hp
  · next hs =>
    obtain rfl := Except.ok.inj hp
    exact ⟨.lone tag' f', by rw [Forest.pushLone, (hT ht).2, if_pos hs], .lone ht h⟩
  · contradiction

theorem push (h : Rel T f f') (ht : T tag tag') (hp : Forest.push registry strict tag f = .ok g) :
    ∃ g', Forest.push registry strict tag' f' = .ok g' ∧ Rel T g g' := by
  obtain ⟨hkind, hname⟩ := hT ht
  unfold Forest.push at hp ⊢
  rw [hkind]
  cases hk : tag.kind with
  | tail =>
    rw [hk] at hp
    obtain rfl := Except.ok.inj hp
    exact ⟨.stray tag' f', rfl, .stray ht h⟩
  | head =>
    rw [hk] at hp
    rcases Option.Rel.none_or_some h.split with
      ⟨hx, hy⟩ | ⟨⟨inner, tail, after⟩, ⟨inner', tail', after'⟩, hx, hy, hparts⟩
    · rw [hx] at hp
      rw [hy]
      exact h.pushLone hT ht hp
    · obtain ⟨hinner, htail, hafter⟩ := hparts
      rw [hx] at hp
      rw [hy]
      dsimp only at hp hinner htail hafter ⊢
      rw [hname, (hT htail).2]
      split at hp
      · next hc =>
        obtain rfl := Except.ok.inj hp
        exact ⟨.pair tag' inner' tail' after', if_pos hc, .pair ht hinner htail hafter⟩
      · next hc =>
        obtain ⟨g', hg, hrel⟩ := h.pushLone hT ht hp
        exact ⟨g', by rw [if_neg hc, hg], hrel⟩

theorem grow {tags tags' : List Tag} (h : List.Forall₂ T tags tags')
    (hg : Forest.grow registry strict tags = .ok f) :
    ∃ f', Forest.grow registry strict tags' = .ok f' ∧ Rel T f f' := by
  induction h generalizing f with
  | nil =>
    obtain rfl := Except.ok.inj hg
    exact ⟨.nil, rfl, .nil⟩
  | cons ht _ ih =>
    obtain ⟨before, hbefore, hp⟩ := Except.bind_eq_ok_iff.1 hg
    obtain ⟨before', hbefore', hrel⟩ := ih hbefore
    obtain ⟨g', hg', hmore⟩ := hrel.push hT ht hp
    exact ⟨g', Except.bind_eq_ok_iff.2 ⟨before', hbefore', hg'⟩, hmore⟩

end Rel

end Forest

theorem source_eq_slice {d : Delimiters} (h : tag.Stands d names text) :
    tag.source = text.slice tag.span.first (tag.span.last + 1) :=
  h.covers.read_eq.symm

variable [Marker.Serials]

/-- Whether a head tag keeps the file name that it includes, if it includes one. -/
def Tag.suffixChoice? (tag : Tag) : Option Bool :=
  if tag.kind = .head then
    Standard.suffixChoice? tag.name
      (Compiler.readAttributes ((knownAttributes.get? tag.name).getD []) tag.argument)
  else none

/-- Twin tags that make the same choice of a suffix if what is to agree does. -/
def Tag.AgreeingTwins (Agree : Prop) (Pair : Marker → Text → Text → Prop) (text text' : Text)
    (tag tag' : Tag) : Prop :=
  tag.Twins Pair text text' tag' ∧ (Agree → tag'.suffixChoice? = tag.suffixChoice?)

theorem Tag.AgreeingTwins.imp {Agree' : Prop} (h : tag.AgreeingTwins Agree Pair text text' tag')
    (ha : Agree' → Agree) : tag.AgreeingTwins Agree' Pair text text' tag' :=
  ⟨h.1, fun hagree => h.2 (ha hagree)⟩

theorem Tag.Twins.isSome_suffixChoice? (h : tag.Twins Pair text text' tag') :
    tag'.suffixChoice?.isSome = tag.suffixChoice?.isSome := by
  have hsome (tag : Tag) :
      tag.suffixChoice?.isSome = true ↔ tag.kind = .head ∧ tag.name = "include" := by
    rw [suffixChoice?]
    split
    · next hk =>
      rw [Standard.suffixChoice?]
      split
      · next hn => exact iff_of_true rfl ⟨hk, hn⟩
      · next hn => exact iff_of_false Bool.false_ne_true fun hboth => hn hboth.2
    · next hk => exact iff_of_false Bool.false_ne_true fun hboth => hk hboth.1
  rw [Bool.eq_iff_iff, hsome, hsome, h.kind, h.name]

/-- Twin tags all choose alike if the choices that are made are the same in turn. -/
theorem Tag.agreeingTwins {tags tags' : List Tag}
    (h : List.Forall₂ (Tag.Twins Pair text text') tags tags') :
    List.Forall₂ (Tag.AgreeingTwins
      (tags'.filterMap suffixChoice? = tags.filterMap suffixChoice?) Pair
      text text') tags tags' := by
  induction h with
  | nil => exact .nil
  | @cons tag tag' tags tags' ht _ ih =>
    have hsome := ht.isSome_suffixChoice?
    rw [List.filterMap_cons, List.filterMap_cons]
    cases hc : tag.suffixChoice? with
    | none =>
      rw [hc] at hsome
      have hc' : tag'.suffixChoice? = none :=
        Option.not_isSome_iff_eq_none.1 (by rw [hsome]; decide)
      rw [hc']
      exact .cons ⟨ht, fun _ => hc'.trans hc.symm⟩ ih
    | some choice =>
      rw [hc] at hsome
      obtain ⟨choice', hc'⟩ := Option.isSome_iff_exists.1 hsome
      rw [hc']
      refine .cons ⟨ht, fun hagree => ?_⟩ (ih.imp fun _ _ hmore => hmore.imp fun hagree => ?_)
      · rw [hc, hc', (List.cons.inj hagree).1]
      · exact (List.cons.inj hagree).2

/-- Nodes with twin sources between braces, of which the second compiles if the first does, to a
twin if what is to agree does. -/
structure Node.Mirrored (Agree : Prop) (Pair : Marker → Text → Text → Prop) (suffix : Text)
    (node node' : Node) : Prop where
  braced : node.source.IsBraced
  source : Twin Core.hashes.plainness Pair node.source node'.source
  compiles : ∀ {out}, node.compileContent (.standard suffix) = .ok out →
    ∃ out', node'.compileContent (.standard suffix) = .ok out' ∧ (Agree → Kin Pair out out')

/-- The nodes that stand in twins give their places to twins. -/
theorem Node.exists_twin_substituted {children children' : List Node} (hd : Decides Pair)
    (hd' : Decides (flipped Pair)) (h : Twin Core.hashes.plainness Pair text text')
    (hc : List.Forall₂ (Mirrored Agree Pair suffix) children children')
    (ho : substituted (.standard suffix) text children = .ok out) :
    ∃ out', substituted (.standard suffix) text' children' = .ok out' ∧
    (Agree → Kin Pair out out') := by
  induction hc generalizing text text' out with
  | nil =>
    rw [substituted_nil] at ho
    obtain rfl := Except.ok.inj ho
    exact ⟨text', substituted_nil _ _, fun _ => h.kin⟩
  | @cons child child' children children' hchild _ ih =>
    rcases Option.Rel.none_or_some (hchild.source.cut?_braced hd hd' hchild.braced h) with
      ⟨hx, hy⟩ | ⟨⟨before, rest⟩, ⟨before', rest'⟩, hx, hy, hbefore, hrest⟩
    · rw [substituted_cons_of_none hx] at ho
      rw [substituted_cons_of_none hy]
      obtain ⟨content, hcontent, hmore⟩ := Except.bind_eq_ok_iff.1 ho
      obtain ⟨content', hcontent', -⟩ := hchild.compiles hcontent
      obtain ⟨out', hout, htwin⟩ := ih h hmore
      exact ⟨out', Except.bind_eq_ok_iff.2 ⟨content', hcontent', hout⟩, htwin⟩
    · rw [substituted_cons hx] at ho
      obtain ⟨content, hcontent, hmore⟩ := Except.bind_eq_ok_iff.1 ho
      obtain ⟨after, hafter, hdone⟩ := Except.bind_eq_ok_iff.1 hmore
      obtain rfl := Except.ok.inj hdone
      obtain ⟨content', hcontent', htwin⟩ := hchild.compiles hcontent
      obtain ⟨after', hafter', hmore⟩ := ih hrest hafter
      refine ⟨_, substituted_cons_of_ok hy hcontent' hafter', fun hagree => ?_⟩
      exact (hbefore.append (htwin hagree)).append (hmore hagree)

theorem Tag.exists_twin_attributes {table : Table Text}
    (h : head.AgreeingTwins Agree Pair text text' head')
    (hk : head.kind = .head) (ha : head.attributes = .ok table) :
    ∃ table', head'.attributes = .ok table' ∧ Table.Rel (Kin Pair) table table' ∧
      (Agree → Standard.suffixChoice? head.name table' =
        Standard.suffixChoice? head.name table) := by
  obtain ⟨htwins, hchoice⟩ := h
  have hrel := htwins.argument.readAttributes ((knownAttributes.get? head.name).getD [])
  unfold attributes at ha ⊢
  rw [suffixChoice?, suffixChoice?, htwins.kind, htwins.name, if_pos hk, if_pos hk] at hchoice
  dsimp only at ha ⊢
  rw [htwins.name, Marker.Twin.isMissing_eq hrel]
  split at ha
  · contradiction
  · obtain rfl := Except.ok.inj ha
    exact ⟨_, rfl, hrel, hchoice⟩

namespace Pairing

variable {inner inner' : List Node}

theorem exists_twin_loneNode (h : head.AgreeingTwins Agree Pair text text' head')
    (hk : head.kind = .head) (hn : head.name ∈ Standard.nodeNames)
    (ho : (loneNode text head).compileContent (.standard suffix) = .ok out) :
    ∃ out', (loneNode text' head').compileContent (.standard suffix) = .ok out' ∧
      (Agree → Kin Pair out out') := by
  obtain ⟨content, hroutine, hwrites⟩ := Standard.exists_twin_routine Agree Pair suffix hn
  cases ha : head.attributes with
  | error e =>
    rw [loneNode_of_error suffix text ha] at ho
    contradiction
  | ok table =>
    obtain ⟨table', ha', hrel, hchoice⟩ := Tag.exists_twin_attributes h hk ha
    obtain ⟨node, hnode, hgiven, hbody⟩ := exists_loneNode text hroutine ha
    obtain ⟨node', hnode', hgiven', hbody'⟩ := exists_loneNode text' (h.1.name ▸ hroutine) ha'
    rw [hnode] at ho
    rw [hnode']
    refine hwrites ⟨⟨table, table', hgiven, hgiven', hrel, hchoice⟩, fun _ => ?_⟩ ho
    rw [hbody, hbody']
    exact Marker.Twin.same []

/-- A pair compiles if its twin does and so do what stands in them. -/
theorem exists_twin_pairNode (hd : Decides Pair) (hd' : Decides (flipped Pair))
    (h : head.AgreeingTwins Agree Pair text text' head') (hk : head.kind = .head)
    (hn : head.name ∈ Standard.nodeNames)
    (hs : Twin Core.hashes.plainness Pair (text.slice (head.span.last + 1) tail.span.first)
      (text'.slice (head'.span.last + 1) tail'.span.first))
    (hi : List.Forall₂ (Node.Mirrored Agree Pair suffix) inner inner')
    (he : text.slice (head.span.last + 1) tail.span.first = [] → inner = [])
    (ho : (pairNode text head tail inner).compileContent (.standard suffix) = .ok out) :
    ∃ out', (pairNode text' head' tail' inner').compileContent (.standard suffix) = .ok out' ∧
      (Agree → Kin Pair out out') := by
  obtain ⟨content, hroutine, hwrites⟩ := Standard.exists_twin_routine Agree Pair suffix hn
  cases ha : head.attributes with
  | error e =>
    rw [pairNode_of_error ha] at ho
    contradiction
  | ok table =>
    cases hb : substituted (.standard suffix) (text.slice (head.span.last + 1) tail.span.first)
      inner with
    | error e =>
      rw [pairNode_of_body_error ha hb he] at ho
      contradiction
    | ok body =>
      have he' : text'.slice (head'.span.last + 1) tail'.span.first = [] → inner' = [] := by
        intro hslice
        have hnone := he (hs.eq_nil.1 hslice)
        subst hnone
        exact List.forall₂_nil_left_iff.1 hi
      obtain ⟨table', ha', hrel, hchoice⟩ := Tag.exists_twin_attributes h hk ha
      obtain ⟨body', hb', htwin⟩ := Node.exists_twin_substituted hd hd' hs hi hb
      obtain ⟨node, hnode, hgiven, hbody⟩ := exists_pairNode hroutine ha hb he
      obtain ⟨node', hnode', hgiven', hbody'⟩ := exists_pairNode (h.1.name ▸ hroutine) ha' hb' he'
      rw [hnode] at ho
      rw [hnode']
      refine hwrites ⟨⟨table, table', hgiven, hgiven', hrel, hchoice⟩, fun hagree => ?_⟩ ho
      rw [hbody, hbody']
      exact htwin hagree

end Pairing

namespace Forest

variable {names : List Text} {lo lo' hi hi' : Int} {f f' : Forest} {waiting : Option Tag}

/-- The nodes of two forests over twins compile alike. -/
theorem Rel.mirrored (hd : Decides Pair) (hd' : Decides (flipped Pair))
    (h : Rel (Tag.AgreeingTwins Agree Pair text text') f f')
    (hr : Tag.Row .usual names text lo hi f.tags) (hr' : Tag.Row .usual names text' lo' hi' f'.tags)
    (hm : Matched registry strict waiting f)
    (hc : ∀ tag ∈ f.tags, tag.source.IsBraced ∧ tag.name ∈ Standard.nodeNames) :
    List.Forall₂ (Node.Mirrored Agree Pair suffix) (f.nodes text) (f'.nodes text') := by
  induction h generalizing lo lo' hi hi' waiting with
  | nil => exact .nil
  | stray _ _ ih => exact ih hr.2.2.2 hr'.2.2.2 hm.2 (List.forall_mem_cons.1 hc).2
  | @lone head head' next next' htag _ ih =>
    obtain ⟨hk, -, -, hm⟩ := hm
    obtain ⟨-, -, hh, hr⟩ := hr
    obtain ⟨-, -, hh', hr'⟩ := hr'
    obtain ⟨⟨hbraced, hname⟩, hc⟩ := List.forall_mem_cons.1 hc
    have hsource : Twin Core.hashes.plainness Pair head.source head'.source := by
      have hlong := hh.long
      rw [source_eq_slice hh, source_eq_slice hh']
      exact (htag.1.first.slice hd htag.1.stop (by omega)).2
    exact .cons ⟨hbraced, hsource, Pairing.exists_twin_loneNode htag hk hname⟩ (ih hr hr' hm hc)
  | @pair head head' tail tail' inner inner' next next' htag _ htail _ ihi ih =>
    obtain ⟨hk, -, -, -, hmi, hm⟩ := hm
    obtain ⟨-, -, hh, hr⟩ := hr
    obtain ⟨hri, ht, hr⟩ := Tag.row_append_cons.1 hr
    obtain ⟨-, -, hh', hr'⟩ := hr'
    obtain ⟨hri', ht', hr'⟩ := Tag.row_append_cons.1 hr'
    obtain ⟨⟨hbraced, hname⟩, hc⟩ := List.forall_mem_cons.1 hc
    obtain ⟨hci, hc⟩ := List.forall_mem_append.1 hc
    obtain ⟨⟨hbraced', -⟩, hc⟩ := List.forall_mem_cons.1 hc
    have hle := hri.le
    have hlong := hh.long
    have hlong' := ht.long
    have hwhole :
        Twin Core.hashes.plainness Pair (Pairing.pairNode text head tail (inner.nodes text)).source
        (Pairing.pairNode text' head' tail' (inner'.nodes text')).source :=
      (htag.1.first.slice hd htail.1.stop (by omega)).2
    have hbetween : (Pairing.pairNode text head tail (inner.nodes text)).source.IsBraced := by
      obtain ⟨before, after, -, hsource⟩ :=
        Pairing.exists_around hh ht (by omega) (inner.nodes text)
      rw [hsource, ← List.append_assoc]
      exact hbraced.around _ hbraced'
    have hslice := (htag.1.stop.slice hd htail.1.first hle).2
    exact .cons ⟨hbetween, hwhole, Pairing.exists_twin_pairNode hd hd' htag hk hname hslice
      (ihi hri hri' hmi hci) (nodes_of_slice_eq_nil hh ht hri)⟩ (ih hr hr' hm hc)

end Forest

namespace Engine

/-- Whether the include tags of a text, in turn, keep the file names that they include. -/
def choices (engine : Engine) (text : Text) : Except Error (List Bool) := do
  let tags ← Tag.scan engine.compiler.registry engine.delimiters.node text
  return tags.filterMap Tag.suffixChoice?

/-- Where the node pass makes something of a text it makes something of its twin as well, and a twin
of it if all choices of suffixes agree. -/
theorem exists_twin_runPass_node (hd : Decides Pair) (hd' : Decides (flipped Pair))
    (h : Twin Core.hashes.plainness Pair text text')
    (ho : (standard suffix strict).runPass .node text = .ok out) :
    ∃ out', (standard suffix strict).runPass .node text' = .ok out' ∧
      ((standard suffix strict).choices text' = (standard suffix strict).choices text →
        Kin Pair out out') := by
  have hproper : Delimiters.usual.IsProper := by decide
  obtain ⟨tree, ht, -⟩ := Except.bind_eq_ok_iff.1 ho
  obtain ⟨forest, hscan, hmatched, -⟩ := (tree_node_eq_ok_iff hproper).1 ht
  have hgrow := Forest.grow_eq_ok_iff.2 ⟨rfl, hmatched⟩
  rw [runPass_node_of_scan hproper hscan, hgrow] at ho
  obtain ⟨tags', hscan', htwins⟩ := Tag.exists_scan_twins hd h hscan
  obtain ⟨forest', hgrow', hrel⟩ := Forest.Rel.grow (fun ht => ⟨ht.1.kind, ht.1.name⟩)
    (Tag.agreeingTwins htwins) hgrow
  obtain ⟨rfl, -⟩ := Forest.grow_eq_ok_iff.1 hgrow'
  have hcarries := Tag.carries_of_scan h.left hscan
  have hnodes :
      List.Forall₂ (Node.Mirrored _ Pair suffix) (forest.nodes text) (forest'.nodes text') :=
    hrel.mirrored hd hd' (Tag.row_of_scan hproper hscan) (Tag.row_of_scan hproper hscan') hmatched
      fun tag ht => ⟨(hcarries tag ht).braced, (hcarries tag ht).name⟩
  obtain ⟨out', hout, htwin⟩ := Node.exists_twin_substituted hd hd' h hnodes ho
  refine ⟨out', ?_, fun hagree => htwin ?_⟩
  · rw [runPass_node_of_scan hproper hscan', hgrow']
    exact hout
  · have hchoices {text : Text} {tags : List Tag}
        (hs : Tag.scan (Compiler.standard suffix).registry .usual text = .ok tags) :
        (standard suffix strict).choices text = .ok (tags.filterMap Tag.suffixChoice?) :=
      Except.bind_eq_ok_iff.2 ⟨tags, hs, rfl⟩
    rw [hchoices hscan, hchoices hscan'] at hagree
    exact Except.ok.inj hagree

end Engine

end ThemeMarkup
