import Mathlib
import ThemeMarkup.Config.Engine
import ThemeMarkup.Proofs.Except
import ThemeMarkup.Proofs.Pairing.Tree

namespace ThemeMarkup

theorem nameCloses_of_strict {head tail : Text} (h : nameCloses true head tail = true) :
    nameCloses false head tail = true := by
  have heq : Text.lower head = Text.lower tail := by simpa [nameCloses] using h
  simp [nameCloses, heq]

namespace Pairing

structure Contests (head tail : Tag) : Prop where
  isHead : head.kind = .head
  lenient : nameCloses false head.name tail.name = true
  strict : nameCloses true head.name tail.name = false

/-- Wherever strict pairing of the tags comes to a head, the nearest waiting tail does not contest
it. -/
def Uncontested (registry : Registry) (tags : List Tag) : Prop :=
  ∀ head rest pairings tail tails, head :: rest <:+ tags →
    match? registry true rest = .ok (pairings, tail :: tails) → ¬ Contests head tail

end Pairing

namespace Forest

open Pairing

/-- What a forest becomes when a tag is put before it. -/
inductive Pushed (registry : Registry) (strict : Bool) (tag : Tag) : Forest → Forest → Prop where
  | stray {f : Forest} (hk : tag.kind = .tail) : Pushed registry strict tag f (.stray tag f)
  | lone {f : Forest} (hk : tag.kind = .head) (hs : registry.isSingle tag.name = true)
      (ho : ∀ tail ∈ f.strays.head?, nameCloses strict tag.name tail.name = false) :
      Pushed registry strict tag f (.lone tag f)
  | pair {inner after : Forest} {tail : Tag} (hk : tag.kind = .head)
      (hc : nameCloses strict tag.name tail.name = true) (hi : inner.strays = []) :
      Pushed registry strict tag (inner.append (.stray tail after)) (.pair tag inner tail after)

variable {registry : Registry} {strict : Bool} {tag head : Tag} {tags : List Tag} {f g : Forest}

theorem pushLone_eq_ok_iff : pushLone registry head f = .ok g ↔
    registry.isSingle head.name = true ∧ g = lone head f := by
  rw [pushLone]
  split
  · next hs => simp [hs, eq_comm]
  · next hs => simp [hs]

theorem push_eq_ok_iff : push registry strict tag f = .ok g ↔ Pushed registry strict tag f g := by
  constructor
  · intro h
    unfold push at h
    split at h
    · next hk =>
      cases h
      exact .stray hk
    · next hk hn =>
      obtain ⟨hs, rfl⟩ := pushLone_eq_ok_iff.1 h
      exact .lone hk hs (by simp [split_eq_none_iff.1 hn])
    · next inner tail after hk hs =>
      obtain ⟨rfl, hi⟩ := eq_append_of_split hs
      split at h
      · next hc =>
        cases h
        exact .pair hk hc hi
      · next hc =>
        obtain ⟨hs, rfl⟩ := pushLone_eq_ok_iff.1 h
        exact .lone hk hs (by simpa [hi, strays] using hc)
  · intro h
    cases h with
    | stray hk => simp only [push, hk]
    | lone hk hs ho =>
      unfold push
      cases hn : f.split with
      | none => simp [hk, pushLone, hs]
      | some parts =>
        obtain ⟨inner, tail, after⟩ := parts
        obtain ⟨rfl, hi⟩ := eq_append_of_split hn
        have hfirst := ho tail (by simp [hi, strays])
        simp [hk, pushLone, hs, hfirst]
    | pair hk hc hi => simp only [push, hk, split_append_stray hi, hc, ↓reduceIte]

theorem Pushed.injective {strict' : Bool} {f' : Forest} (h : Pushed registry strict tag f g)
    (h' : Pushed registry strict' tag f' g) : f = f' := by
  cases h with
  | stray _ =>
    cases h'
    rfl
  | lone _ _ _ =>
    cases h'
    rfl
  | pair _ _ _ =>
    cases h'
    rfl

theorem Pushed.lenient_iff (h : Pushed registry true tag f g) :
    Pushed registry false tag f g ↔ ∀ tail ∈ f.strays.head?, ¬ Contests tag tail := by
  cases h with
  | stray hk =>
    refine ⟨fun _ tail _ hcontests => ?_, fun _ => .stray hk⟩
    exact absurd (hk.symm.trans hcontests.isHead) (by decide)
  | lone hk hs ho =>
    constructor
    · intro hlenient tail htail hcontests
      cases hlenient with
      | lone _ _ ho' => exact absurd (ho' tail htail) (by simp [hcontests.lenient])
    · intro hnone
      refine .lone hk hs fun tail htail => ?_
      by_cases hl : nameCloses false tag.name tail.name = true
      · exact absurd ⟨hk, hl, ho tail htail⟩ (hnone tail htail)
      · simpa using hl
  | @pair inner after closer hk hc hi =>
    refine ⟨fun _ tail htail hcontests => ?_, fun _ => .pair hk (nameCloses_of_strict hc) hi⟩
    obtain rfl : closer = tail := by simpa [hi, strays] using htail
    exact absurd hcontests.strict (by simp [hc])

theorem uncontested_cons (hg : grow registry true tags = .ok f) :
    Uncontested registry (tag :: tags) ↔
      Uncontested registry tags ∧ ∀ tail ∈ f.strays.head?, ¬ Contests tag tail := by
  have hmatch : match? registry true tags = .ok (f.pairings, f.strays) := by
    rw [match?_eq_grow, hg]
    rfl
  constructor
  · intro h
    refine ⟨fun head rest pairings tail tails hsuffix =>
      h head rest pairings tail tails (hsuffix.trans (List.suffix_cons ..)), fun tail htail => ?_⟩
    obtain ⟨tails, hstrays⟩ := List.head?_eq_some_iff.1 htail
    exact h tag tags f.pairings tail tails List.suffix_rfl (hstrays ▸ hmatch)
  · rintro ⟨htags, htag⟩ head rest pairings tail tails hsuffix hrest
    rcases List.suffix_cons_iff.1 hsuffix with he | hsuffix
    · obtain ⟨rfl, rfl⟩ := List.cons.inj he
      have hpair := Except.ok.inj (hmatch.symm.trans hrest)
      have hstrays : f.strays = tail :: tails := congrArg Prod.snd hpair
      exact htag tail (by simp [hstrays])
    · exact htags head rest pairings tail tails hsuffix hrest

theorem grow_lenient_iff (h : grow registry true tags = .ok f) :
    grow registry false tags = .ok f ↔ Uncontested registry tags := by
  induction tags generalizing f with
  | nil =>
    refine ⟨fun _ head rest pairings tail tails hsuffix => ?_, fun _ => h⟩
    simp at hsuffix
  | cons tag tags ih =>
    -- Lenient pairing gives this forest only if it gave the same one before the tag was put before
    -- it, as both can be read off.
    obtain ⟨before, hb, hpush⟩ := Except.bind_eq_ok_iff.1 h
    have hpushed := push_eq_ok_iff.1 hpush
    rw [uncontested_cons hb, ← ih hb, ← hpushed.lenient_iff]
    constructor
    · intro hl
      obtain ⟨before', hb', hpush'⟩ := Except.bind_eq_ok_iff.1 hl
      have hpushed' := push_eq_ok_iff.1 hpush'
      obtain rfl := hpushed.injective hpushed'
      exact ⟨hb', hpushed'⟩
    · rintro ⟨hb', hpushed'⟩
      exact Except.bind_eq_ok_iff.2 ⟨before, hb', push_eq_ok_iff.2 hpushed'⟩

variable {d : Delimiters} {names : List Text} {text : Text} {lo hi : Int}

theorem last_lt_last {before mid after : List Tag} {tail tail' : Tag}
    (h : Tag.Row d names text lo hi (before ++ tail :: (mid ++ tail' :: after))) :
    tail.span.last < tail'.span.last := by
  obtain ⟨-, -, hafter⟩ := Tag.row_append_cons.1 h
  obtain ⟨hs, hl, -⟩ := hafter.stands (List.mem_append_right mid List.mem_cons_self)
  have hlong := hs.long
  omega

theorem split_unique {before before' after after' : List Tag} {tail tail' : Tag}
    (h : Tag.Row d names text lo hi (before ++ tail :: after))
    (he : before ++ tail :: after = before' ++ tail' :: after')
    (hl : tail.span.last = tail'.span.last) :
    before = before' ∧ tail = tail' ∧ after = after' := by
  rcases List.append_eq_append_iff.1 he with ⟨mid, rfl, hmid⟩ | ⟨mid, rfl, hmid⟩
  · cases mid with
    | nil => simpa using hmid
    | cons first mid =>
      obtain ⟨rfl, rfl⟩ := List.cons.inj hmid
      exact absurd hl (Int.ne_of_lt (last_lt_last h))
  · cases mid with
    | nil => simpa [eq_comm] using hmid
    | cons first mid =>
      obtain ⟨rfl, rfl⟩ := List.cons.inj hmid
      rw [he] at h
      exact absurd hl (Int.ne_of_gt (last_lt_last h))

theorem exists_stray {waiting : Option Tag} {tail : Tag} (hm : Matched registry strict waiting g)
    (ht : tail :: tags = g.tags) (hk : tail.kind = .tail) :
    ∃ next, g = stray tail next ∧ tags = next.tags ∧ Matched registry strict waiting next := by
  have hother {head : Tag} (he : tail = head) (hh : head.kind = .head) : False := by
    rw [he, hh] at hk
    contradiction
  cases g with
  | nil => contradiction
  | stray tail next =>
    obtain ⟨rfl, rfl⟩ := List.cons.inj ht
    exact ⟨next, rfl, rfl, hm.2⟩
  | lone head next => exact (hother (List.cons.inj ht).1 hm.1).elim
  | pair head inner tail next => exact (hother (List.cons.inj ht).1 hm.1).elim

theorem exists_lone_or_pair {waiting : Option Tag} (hm : Matched registry strict waiting g)
    (ht : head :: tags = g.tags) (hk : head.kind = .head) :
    (∃ next, g = lone head next ∧ tags = next.tags ∧ Matched registry strict waiting next) ∨
      ∃ inner tail next, g = pair head inner tail next ∧ tags = inner.tags ++ tail :: next.tags ∧
        Matched registry strict (some tail) inner ∧ Matched registry strict waiting next := by
  cases g with
  | nil => contradiction
  | stray tail next =>
    rw [(List.cons.inj ht).1, hm.1] at hk
    contradiction
  | lone head next =>
    obtain ⟨rfl, rfl⟩ := List.cons.inj ht
    exact .inl ⟨next, rfl, rfl, hm.2.2.2⟩
  | pair head inner tail next =>
    obtain ⟨rfl, rfl⟩ := List.cons.inj ht
    exact .inr ⟨inner, tail, next, rfl, rfl, hm.2.2.2.2.1, hm.2.2.2.2.2⟩

section Pair

variable {tail tail' : Tag} {inner inner' next : Forest}

theorem loneNode_ne_pairNode (hh : head.Stands d names text) (ht : tail.Stands d names text)
    (hl : head.span.last < tail.span.first) (nodes : List Node) :
    loneNode text head ≠ pairNode text head tail nodes := by
  intro he
  obtain ⟨-, -, hlast⟩ := pairNode_covers hh ht hl nodes
  have hspan : head.span.last = tail.span.last := by
    rw [← hlast, ← he]
    rfl
  have := ht.long
  omega

theorem inner_nodes_eq (hh : head.Stands d names text) (ht : tail.Stands d names text)
    (hi : Tag.Row d names text (head.span.last + 1) tail.span.first inner.tags)
    (hi' : Tag.Row d names text (head.span.last + 1) tail.span.first inner'.tags)
    (hn : pairNode text head tail (inner.nodes text) =
      pairNode text head tail (inner'.nodes text)) :
    inner.nodes text = inner'.nodes text := by
  rcases Int.lt_or_eq_of_le hi.le with hlt | heq
  · have hchildren := congrArg Node.children hn
    rw [children_pairNode_of_lt hh ht hlt, children_pairNode_of_lt hh ht hlt] at hchildren
    exact congrArg Node.children (List.cons.inj (List.cons.inj hchildren).2).1
  · have hle := Int.le_of_eq heq.symm
    rw [nodes_of_le hi hle, nodes_of_le hi' hle]

end Pair

/-- The nodes of a forest tell how its tags are paired. -/
theorem nodes_injective {strict' : Bool} {waiting waiting' : Option Tag}
    (hr : Tag.Row d names text lo hi f.tags) (ht : f.tags = g.tags)
    (hf : Matched registry strict waiting f) (hg : Matched registry strict' waiting' g)
    (hn : f.nodes text = g.nodes text) : f = g := by
  induction f generalizing g lo hi waiting waiting' with
  | nil =>
    cases g with
    | nil => rfl
    | stray _ _ => contradiction
    | lone _ _ => contradiction
    | pair _ _ _ _ => contradiction
  | stray tail next ih =>
    obtain ⟨next', rfl, htags, hg'⟩ := exists_stray hg ht hf.1
    rw [ih hr.2.2.2 htags hf.2 hg' hn]
  | lone head next ih =>
    obtain ⟨-, -, hs, hr'⟩ := hr
    rcases exists_lone_or_pair hg ht hf.1 with
      ⟨next', rfl, htags, hg'⟩ | ⟨inner', tail', next', rfl, htags, -, -⟩
    · rw [ih hr' htags hf.2.2.2 hg' (List.cons.inj hn).2]
    · rw [htags] at hr'
      obtain ⟨hi', hs', -⟩ := Tag.row_append_cons.1 hr'
      exact absurd (List.cons.inj hn).1
        (loneNode_ne_pairNode hs hs' (Int.add_one_le_iff.1 hi'.le) _)
  | pair head inner tail next ihi ih =>
    obtain ⟨-, -, hs, hr'⟩ := hr
    obtain ⟨hk, -, -, -, hinner, hnext⟩ := hf
    obtain ⟨hi, hs', ha⟩ := Tag.row_append_cons.1 hr'
    have hl := Int.add_one_le_iff.1 hi.le
    rcases exists_lone_or_pair hg ht hk with
      ⟨next', rfl, -, -⟩ | ⟨inner', tail', next', rfl, htags, hinner', hnext'⟩
    · exact absurd (List.cons.inj hn).1.symm (loneNode_ne_pairNode hs hs' hl _)
    · obtain ⟨hnode, hnodes⟩ := List.cons.inj hn
      have hlast : tail.span.last = tail'.span.last := by
        have hr'' := htags ▸ hr'
        obtain ⟨hi', hs'', -⟩ := Tag.row_append_cons.1 hr''
        rw [← (pairNode_covers hs hs' hl _).2.2, hnode,
          (pairNode_covers hs hs'' (Int.add_one_le_iff.1 hi'.le) _).2.2]
      obtain ⟨hin, rfl, hne⟩ := split_unique hr' htags hlast
      rw [ihi hi hin hinner hinner' (inner_nodes_eq hs hs' hi (hin ▸ hi) hnode),
        ih ha hne hnext hnext' hnodes]

end Forest

namespace Engine

open Pairing

theorem tree_lenient_iff {engine : Engine} {text : Text} {tags : List Tag} {f : Forest}
    (hd : engine.delimiters.node.IsProper) (hlenient : engine.strict = false)
    (ht : Tag.scan engine.compiler.registry engine.delimiters.node text = .ok tags)
    (hg : Forest.grow engine.compiler.registry true tags = .ok f) :
    engine.tree .node text = .ok ((root text).withChildren (f.nodes text)) ↔
      Uncontested engine.compiler.registry tags := by
  rw [tree_node_of_scan hd ht, hlenient, ← Forest.grow_lenient_iff hg]
  constructor
  · intro h
    cases hg' : Forest.grow engine.compiler.registry false tags with
    | error e =>
      rw [hg'] at h
      contradiction
    | ok g =>
      rw [hg'] at h
      have hroot := Except.ok.inj h
      obtain ⟨rfl, hf⟩ := Forest.grow_eq_ok_iff.1 hg
      obtain ⟨hgtags, hgm⟩ := Forest.grow_eq_ok_iff.1 hg'
      have hnodes : f.nodes text = g.nodes text := congrArg Node.children hroot.symm
      rw [Forest.nodes_injective (Tag.row_of_scan hd ht) hgtags.symm hf hgm hnodes]
  · intro h
    rw [h]
    rfl

/-- Strict pairing next to lenient pairing of the same text. Where strict pairing gives a tree,
lenient pairing gives the same tree just if no head is contested, and then the pass makes the same
of the text. -/
theorem tree_strict_iff (engine : Engine) (hd : engine.delimiters.node.IsProper) (text : Text) :
    let strict := { engine with strict := true }
    let lenient := { engine with strict := false }
    let registry := engine.compiler.registry
    match Tag.scan registry engine.delimiters.node text with
    | .error e => strict.tree .node text = .error e ∧ lenient.tree .node text = .error e
    | .ok tags =>
      (∀ root, strict.tree .node text = .ok root →
        (lenient.tree .node text = .ok root ↔ Uncontested registry tags) ∧
          (Uncontested registry tags →
            lenient.runPass .node text = strict.runPass .node text)) ∧
      ∀ root, Uncontested registry tags → lenient.tree .node text = .ok root →
        strict.tree .node text = .ok root ∨
          ∃ head ∈ tags, head.kind = .head ∧ registry.isSingle head.name = false ∧
            strict.tree .node text =
              .error (.tag { fault := .unpaired head.name, span := head.span }) := by
  intro strict lenient registry
  cases ht : Tag.scan registry engine.delimiters.node text with
  | error e =>
    have hs : strict.tree .node text = .error e := by
      rw [tree_node_eq strict hd, show Tag.scan strict.compiler.registry _ text = _ from ht]
      rfl
    have hl : lenient.tree .node text = .error e := by
      rw [tree_node_eq lenient hd, show Tag.scan lenient.compiler.registry _ text = _ from ht]
      rfl
    exact ⟨hs, hl⟩
  | ok tags =>
    have hs : strict.tree .node text = (Forest.grow registry true tags).map _ :=
      @tree_node_of_scan strict text tags hd ht
    dsimp only
    cases hg : Forest.grow registry true tags with
    | error e =>
      rw [hg] at hs
      obtain ⟨head, hm, hk, hsingle, rfl⟩ := Forest.unpaired_of_grow hg
      refine ⟨fun root hroot => ?_, fun root _ _ => .inr ⟨head, hm, hk, hsingle, hs⟩⟩
      rw [hs] at hroot
      contradiction
    | ok f =>
      rw [hg] at hs
      have hiff := @tree_lenient_iff lenient text tags f hd rfl ht hg
      refine ⟨fun root hroot => ?_, fun root hun hroot => .inl ?_⟩
      · obtain rfl := Except.ok.inj (hs.symm.trans hroot)
        refine ⟨hiff, fun hun => ?_⟩
        rw [runPass, runPass, hiff.2 hun, hs]
        rfl
      · rw [← hroot, hiff.2 hun, hs]
        rfl

/-- A head that may stand alone and a tail whose name begins the head's. -/
def begunElseif : Text :=
  "\x7b% elseif a %\x7dx\x7b% :else %\x7d"

attribute [local instance] Marker.Serials.sample

theorem runPass_begunElseif :
    (standard ".html" true).runPass .node begunElseif =
        .ok "\x7b% elif a %\x7dx\x7b% :else %\x7d" ∧
      (standard ".html" false).runPass .node begunElseif = .ok "\x7b% elif a %\x7d" := by
  constructor <;> cbv

theorem tree_ne_of_runPass {engine other : Engine} {pass : Pass} {text out out' : Text}
    (h : engine.runPass pass text = .ok out) (h' : other.runPass pass text = .ok out')
    (hcompiler : engine.compiler = other.compiler) (hne : out ≠ out') :
    ∃ root, engine.tree pass text = .ok root ∧ other.tree pass text ≠ .ok root := by
  obtain ⟨root, hroot, hout⟩ := Except.bind_eq_ok_iff.1 h
  refine ⟨root, hroot, fun hroot' => hne ?_⟩
  rw [runPass, hroot', ← hcompiler] at h'
  exact Except.ok.inj (hout.symm.trans h')

theorem tree_strict_iff_begunElseif :
    (standard ".html" true).delimiters.node.IsProper ∧
      ∃ tags, Tag.scan (standard ".html" true).compiler.registry .usual begunElseif = .ok tags ∧
        ¬ Uncontested (standard ".html" true).compiler.registry tags := by
  have hd : (standard ".html" true).delimiters.node.IsProper := by decide
  refine ⟨hd, ?_⟩
  obtain ⟨hstrict, hlenient⟩ := runPass_begunElseif
  obtain ⟨root, hroot, hne⟩ := tree_ne_of_runPass hstrict hlenient rfl (by decide)
  have hiff := tree_strict_iff (standard ".html" true) hd begunElseif
  dsimp only at hiff
  split at hiff
  · exact absurd (hroot.symm.trans hiff.1) (by simp)
  · next tags ht => exact ⟨tags, ht, fun hun => hne ((hiff.1 root hroot).1.2 hun)⟩

/-- Strict pairing gives a tree that lenient pairing does not give, and another text. -/
theorem tree_strict_ne :
    (∃ root, (standard ".html" true).tree .node begunElseif = .ok root ∧
        (standard ".html" false).tree .node begunElseif ≠ .ok root) ∧
      (standard ".html" true).runPass .node begunElseif ≠
        (standard ".html" false).runPass .node begunElseif := by
  obtain ⟨hstrict, hlenient⟩ := runPass_begunElseif
  refine ⟨tree_ne_of_runPass hstrict hlenient rfl (by decide), ?_⟩
  rw [hstrict, hlenient]
  decide

end Engine

end ThemeMarkup
