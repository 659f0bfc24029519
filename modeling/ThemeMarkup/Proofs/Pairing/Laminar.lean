import ThemeMarkup.Compiler.Standard
import ThemeMarkup.Proofs.Pairing.Forest
import ThemeMarkup.Proofs.Tag.Row

namespace ThemeMarkup

namespace Pairing

/-- The tag that a pairing ends with: the tail, or the head if nothing closes it. -/
def stop (pairing : Pairing) : Tag :=
  pairing.tail.getD pairing.head

/-- A tail among the tags that stands after a head and closes it. -/
structure Closes (strict : Bool) (tags : List Tag) (head tail : Tag) : Prop where
  mem : tail ∈ tags
  kind : tail.kind = .tail
  after : head.Before tail
  name : nameCloses strict head.name tail.name = true

/-- The pairings of tags of a text, in the order of their heads, when no two of them cross. -/
structure IsLaminar (registry : Registry) (strict : Bool) (text : Text) (tags : List Tag)
    (pairings : List Pairing) : Prop where
  heads : pairings.map (·.head) = tags.filter (·.kind = .head)
  closes : ∀ pairing ∈ pairings, ∀ tail ∈ pairing.tail, Closes strict tags pairing.head tail
  once : (pairings.filterMap (·.tail)).Nodup
  closed : ∀ pairing ∈ pairings, registry.isSingle pairing.head.name = false → pairing.tail.isSome
  spans : ∀ pairing ∈ pairings, (toNode text pairing).span.first = pairing.head.span.first ∧
    (toNode text pairing).span.last = pairing.stop.span.last
  nested : pairings.Pairwise fun pairing later =>
    (toNode text pairing).span.last < (toNode text later).span.first ∨
      ∃ tail ∈ pairing.tail, pairing.head.span.last < (toNode text later).span.first ∧
        (toNode text later).span.last < tail.span.first
  outside : ∀ tail ∈ tags, tail.kind = .tail → tail ∉ pairings.filterMap (·.tail) →
    ∀ pairing ∈ pairings, tail.span.last < (toNode text pairing).span.first ∨
      (toNode text pairing).span.last < tail.span.first

variable {registry : Registry} {strict : Bool} {text : Text} {tags : List Tag}

theorem span_toNode (hs : Tag.InOrder text tags) {pairing : Pairing} (hm : pairing.head ∈ tags)
    (hc : ∀ tail ∈ pairing.tail, Closes strict tags pairing.head tail) :
    (toNode text pairing).span.first = pairing.head.span.first ∧
      (toNode text pairing).span.last = pairing.stop.span.last := by
  obtain ⟨head, tail?⟩ := pairing
  cases tail? with
  | none => exact ⟨rfl, rfl⟩
  | some tail =>
    have hclose := hc tail rfl
    obtain ⟨hzero, hhead, -⟩ := hs.within head hm
    obtain ⟨-, htail, hlength⟩ := hs.within tail hclose.mem
    have hafter : head.span.last < tail.span.first := hclose.after
    have hstop : tail.span.last + 1 ≤ text.length := by omega
    obtain ⟨-, hfirst, hlast⟩ := Text.covers_slice hzero (by omega) hstop
    exact ⟨hfirst, (Int.add_left_inj 1).1 hlast⟩

end Pairing

namespace Forest

open Pairing

variable {registry : Registry} {strict : Bool} {waiting : Option Tag} {f : Forest}

theorem mem_tags_of_mem_pairings {pairing : Pairing} (hp : pairing ∈ f.pairings) :
    pairing.head ∈ f.tags ∧ pairing.stop ∈ f.tags := by
  induction f with
  | nil => contradiction
  | stray tail next ih => exact (ih hp).imp (List.mem_cons_of_mem _) (List.mem_cons_of_mem _)
  | lone head next ih =>
    rcases List.mem_cons.1 hp with rfl | hp
    · exact ⟨List.mem_cons_self, List.mem_cons_self⟩
    · exact (ih hp).imp (List.mem_cons_of_mem _) (List.mem_cons_of_mem _)
  | pair head inner tail next ihi ih =>
    have hinner : inner.tags ⊆ (pair head inner tail next).tags :=
      List.subset_cons_of_subset _ (List.subset_append_left _ _)
    have hrest : tail :: next.tags ⊆ (pair head inner tail next).tags :=
      List.subset_cons_of_subset _ (List.subset_append_right _ _)
    rcases List.mem_cons.1 hp with rfl | hp
    · exact ⟨List.mem_cons_self, hrest List.mem_cons_self⟩
    rcases List.mem_append.1 hp with hp | hp
    · exact (ihi hp).imp (fun hm => hinner hm) (fun hm => hinner hm)
    · exact (ih hp).imp (fun hm => hrest (List.mem_cons_of_mem _ hm))
        (fun hm => hrest (List.mem_cons_of_mem _ hm))

theorem heads_eq (h : Matched registry strict waiting f) :
    f.pairings.map (·.head) = f.tags.filter (·.kind = .head) := by
  induction f generalizing waiting with
  | nil => rfl
  | stray tail next ih =>
    obtain ⟨hk, hn⟩ := h
    rw [pairings, tags, List.filter_cons_of_neg (by simp [hk]), ih hn]
  | lone head next ih =>
    obtain ⟨hk, -, -, hn⟩ := h
    rw [pairings, tags, List.filter_cons_of_pos (by simp [hk]), List.map_cons, ih hn]
  | pair head inner tail next ihi ih =>
    obtain ⟨hk, ht, -, -, hi, hn⟩ := h
    rw [pairings, tags, List.filter_cons_of_pos (by simp [hk]), List.filter_append,
      List.filter_cons_of_neg (by simp [ht]), List.map_cons, List.map_append, ihi hi, ih hn]

theorem tails_perm (h : Matched registry strict waiting f) :
    (f.pairings.filterMap (·.tail) ++ f.strays).Perm (f.tags.filter (·.kind = .tail)) := by
  induction f generalizing waiting with
  | nil => exact .refl _
  | stray tail next ih =>
    obtain ⟨hk, hn⟩ := h
    rw [pairings, strays, tags, List.filter_cons_of_pos (by simp [hk])]
    exact List.perm_middle.trans ((ih hn).cons tail)
  | lone head next ih =>
    obtain ⟨hk, -, -, hn⟩ := h
    rw [pairings, strays, tags, List.filter_cons_of_neg (by simp [hk]),
      List.filterMap_cons_none rfl]
    exact ih hn
  | pair head inner tail next ihi ih =>
    obtain ⟨hk, ht, -, hs, hi, hn⟩ := h
    have hinner := ihi hi
    rw [hs, List.append_nil] at hinner
    have hcons (rest : List Pairing) :
        (⟨head, some tail⟩ :: rest : List Pairing).filterMap (·.tail) =
        tail :: rest.filterMap (·.tail) := rfl
    rw [pairings, strays, tags, List.filter_cons_of_neg (by simp [hk]), List.filter_append,
      List.filter_cons_of_pos (by simp [ht]), hcons, List.filterMap_append, List.cons_append,
      List.append_assoc]
    exact List.perm_middle.symm.trans (hinner.append ((ih hn).cons tail))

theorem closed_of_matched (h : Matched registry strict waiting f) {pairing : Pairing}
    (hp : pairing ∈ f.pairings) (hs : registry.isSingle pairing.head.name = false) :
    pairing.tail.isSome := by
  induction f generalizing waiting with
  | nil => contradiction
  | stray tail next ih => exact ih h.2 hp
  | lone head next ih =>
    obtain ⟨-, hsingle, -, hn⟩ := h
    rcases List.mem_cons.1 hp with rfl | hp
    · rw [hsingle] at hs
      contradiction
    · exact ih hn hp
  | pair head inner tail next ihi ih =>
    obtain ⟨-, -, -, -, hi, hn⟩ := h
    rcases List.mem_cons.1 hp with rfl | hp
    · rfl
    · exact (List.mem_append.1 hp).elim (ihi hi) (ih hn)

theorem ordered_pair {head tail : Tag} {inner next : Forest}
    (ho : (pair head inner tail next).tags.Pairwise Tag.Before) :
    (∀ tag ∈ inner.tags, head.Before tag ∧ tag.Before tail) ∧
      head.Before tail ∧
      (∀ tag ∈ next.tags, tail.Before tag ∧ ∀ tag' ∈ inner.tags, tag'.Before tag) ∧
      inner.tags.Pairwise Tag.Before ∧
      next.tags.Pairwise Tag.Before := by
  obtain ⟨hhead, hrest⟩ := List.pairwise_cons.1 ho
  obtain ⟨hinner, hafter, hcross⟩ := List.pairwise_append.1 hrest
  obtain ⟨htail, hnext⟩ := List.pairwise_cons.1 hafter
  refine ⟨fun tag hm => ?_, ?_, fun tag hm => ⟨htail tag hm, fun tag' hm' => ?_⟩, hinner, hnext⟩
  · exact ⟨hhead tag (List.mem_append_left _ hm), hcross tag hm tail List.mem_cons_self⟩
  · exact hhead tail (List.mem_append_right _ List.mem_cons_self)
  · exact hcross tag' hm' tag (List.mem_cons_of_mem _ hm)

theorem closes_of_matched (h : Matched registry strict waiting f)
    (ho : f.tags.Pairwise Tag.Before) {pairing : Pairing}
    (hp : pairing ∈ f.pairings) {tail : Tag} (ht : tail ∈ pairing.tail) :
    Closes strict f.tags pairing.head tail := by
  have hstop : pairing.stop = tail := by rw [Pairing.stop, Option.mem_def.1 ht, Option.getD_some]
  have hmem : tail ∈ f.tags := hstop ▸ (mem_tags_of_mem_pairings hp).2
  suffices hrest : tail.kind = .tail ∧ pairing.head.Before tail ∧
      nameCloses strict pairing.head.name tail.name = true from
    ⟨hmem, hrest.1, hrest.2.1, hrest.2.2⟩
  clear hmem
  induction f generalizing waiting with
  | nil => contradiction
  | stray tail' next ih => exact ih h.2 (List.pairwise_cons.1 ho).2 hp
  | lone head next ih =>
    rcases List.mem_cons.1 hp with rfl | hp
    · contradiction
    · exact ih h.2.2.2 (List.pairwise_cons.1 ho).2 hp
  | pair head inner tail' next ihi ih =>
    obtain ⟨-, hk, hc, -, hi, hn⟩ := h
    obtain ⟨-, hlt, -, hinner, hnext⟩ := ordered_pair ho
    rcases List.mem_cons.1 hp with rfl | hp
    · obtain rfl := Option.some.inj ht
      exact ⟨hk, hlt, hc⟩
    · exact (List.mem_append.1 hp).elim (ihi hi hinner) (ih hn hnext)

theorem nested_pairings (ho : f.tags.Pairwise Tag.Before) :
    f.pairings.Pairwise fun pairing later => pairing.stop.Before later.head ∨
      ∃ tail ∈ pairing.tail, pairing.head.Before later.head ∧ later.stop.Before tail := by
  induction f with
  | nil => exact .nil
  | stray tail next ih => exact ih (List.pairwise_cons.1 ho).2
  | lone head next ih =>
    obtain ⟨hhead, hnext⟩ := List.pairwise_cons.1 ho
    refine List.pairwise_cons.2 ⟨fun later hl => ?_, ih hnext⟩
    exact .inl (hhead _ (mem_tags_of_mem_pairings hl).1)
  | pair head inner tail next ihi ih =>
    obtain ⟨hin, -, hafter, hinner, hnext⟩ := ordered_pair ho
    refine List.pairwise_cons.2 ⟨fun later hl => ?_, ?_⟩
    · rcases List.mem_append.1 hl with hl | hl
      · obtain ⟨hhead, hstop⟩ := mem_tags_of_mem_pairings hl
        exact .inr ⟨tail, rfl, (hin _ hhead).1, (hin _ hstop).2⟩
      · exact .inl (hafter _ (mem_tags_of_mem_pairings hl).1).1
    · refine List.pairwise_append.2 ⟨ihi hinner, ih hnext, fun pairing hp later hl => ?_⟩
      exact .inl ((hafter _ (mem_tags_of_mem_pairings hl).1).2 _ (mem_tags_of_mem_pairings hp).2)

theorem strays_outside (ho : f.tags.Pairwise Tag.Before)
    {tail : Tag} (ht : tail ∈ f.strays) {pairing : Pairing} (hp : pairing ∈ f.pairings) :
    tail.Before pairing.head ∨ pairing.stop.Before tail := by
  induction f with
  | nil => contradiction
  | stray tail' next ih =>
    obtain ⟨htail, hnext⟩ := List.pairwise_cons.1 ho
    rcases List.mem_cons.1 ht with rfl | ht
    · exact .inl (htail _ (mem_tags_of_mem_pairings (f := next) hp).1)
    · exact ih hnext ht hp
  | lone head next ih =>
    obtain ⟨hhead, hnext⟩ := List.pairwise_cons.1 ho
    rcases List.mem_cons.1 hp with rfl | hp
    · exact .inr (hhead _ (next.strays_subset_tags ht))
    · exact ih hnext ht hp
  | pair head inner tail' next _ ih =>
    obtain ⟨-, -, hafter, -, hnext⟩ := ordered_pair ho
    obtain ⟨hlast, hinner⟩ := hafter tail (next.strays_subset_tags ht)
    rcases List.mem_cons.1 hp with rfl | hp
    · exact .inr hlast
    rcases List.mem_append.1 hp with hp | hp
    · exact .inr (hinner _ (mem_tags_of_mem_pairings hp).2)
    · exact ih hnext ht hp

theorem isLaminar_pairings {text : Text} (h : Matched registry strict none f)
    (hs : Tag.InOrder text f.tags) : IsLaminar registry strict text f.tags f.pairings := by
  have hspan (pairing : Pairing) (hp : pairing ∈ f.pairings) :=
    span_toNode hs (mem_tags_of_mem_pairings hp).1 fun _ ht => closes_of_matched h hs.ordered hp ht
  have hdistinct : f.tags.Nodup := hs.ordered.imp_of_mem fun {tag next} hm _ hlt he => by
    have hwithin := (hs.within tag hm).2.1
    rw [he] at hlt hwithin
    omega
  refine ⟨heads_eq h, fun _ hp _ ht => closes_of_matched h hs.ordered hp ht, ?_,
    fun _ hp => closed_of_matched h hp, hspan, ?_, ?_⟩
  · exact (List.nodup_append.1 ((tails_perm h).nodup_iff.2 (hdistinct.filter _))).1
  · refine (nested_pairings hs.ordered).imp_of_mem fun {pairing later} hp hl hn => ?_
    rw [(hspan pairing hp).2, (hspan later hl).1, (hspan later hl).2]
    exact hn
  · intro tail hm hk hc pairing hp
    rw [(hspan pairing hp).1, (hspan pairing hp).2]
    have hmem := (tails_perm h).mem_iff.2 (List.mem_filter.2 ⟨hm, decide_eq_true hk⟩)
    exact strays_outside hs.ordered ((List.mem_append.1 hmem).resolve_left hc) hp

end Forest

namespace Pairing

open Forest

/-- The nodes of tags of a text are those of pairings that do not cross, the last head's first. -/
theorem nodes_laminar {text : Text} {tags : List Tag} {nodes : List Node} (registry : Registry)
    (strict : Bool) (hs : Tag.InOrder text tags)
    (hn : Pairing.nodes registry strict text tags = .ok nodes) :
    ∃ pairings, IsLaminar registry strict text tags pairings ∧
      nodes = pairings.reverse.map (toNode text) ∧
      nodes.Pairwise fun node next => next.span.first < node.span.first := by
  rw [Pairing.nodes, match?_eq_grow] at hn
  cases hg : grow registry strict tags with
  | error e =>
    rw [hg] at hn
    contradiction
  | ok f =>
    rw [hg] at hn
    obtain rfl := Except.ok.inj hn
    obtain ⟨rfl, hm⟩ := grow_eq_ok_iff.1 hg
    have hlaminar := isLaminar_pairings hm hs
    refine ⟨f.pairings, hlaminar, rfl, ?_⟩
    have hheads : (f.pairings.map (·.head)).Pairwise fun head next =>
        head.span.first < next.span.first := by
      rw [heads_eq hm]
      refine (hs.ordered.imp_of_mem fun {tag next} ht _ hlt => ?_).filter _
      have hwithin := hs.within tag ht
      omega
    rw [List.pairwise_map, List.pairwise_reverse]
    refine (List.pairwise_map.1 hheads).imp_of_mem fun {pairing later} hp hl hlt => ?_
    rw [(hlaminar.spans pairing hp).1, (hlaminar.spans later hl).1]
    exact hlt

/-- A pair with a single tag in it and a tail that closes nothing after it. -/
def closedTwice : Text :=
  "\x7b% if a %\x7d\x7b% else %\x7d\x7b% :if %\x7d\x7b% :if %\x7d"

def closedTwiceTags : List Tag :=
  [{ kind := .head, name := "if", argument := "a", source := closedTwice.slice 0 10
     span := .ofRange closedTwice 0 10 },
    { kind := .head, name := "else", source := closedTwice.slice 10 20
      span := .ofRange closedTwice 10 10 },
    { kind := .tail, name := "if", source := closedTwice.slice 20 29
      span := .ofRange closedTwice 20 9 },
    { kind := .tail, name := "if", source := closedTwice.slice 29 38
      span := .ofRange closedTwice 29 9 }]

attribute [local instance] Marker.Serials.sample

theorem nodes_laminar_closedTwice :
    let registry := (Compiler.standard ".html").registry
    Tag.InOrder closedTwice closedTwiceTags ∧ ∃ nodes pairings,
      Pairing.nodes registry false closedTwice closedTwiceTags = .ok nodes ∧
      IsLaminar registry false closedTwice closedTwiceTags pairings ∧
      nodes = pairings.reverse.map (toNode closedTwice) ∧
      nodes.Pairwise fun node next => next.span.first < node.span.first := by
  intro registry
  have horder : Tag.InOrder closedTwice closedTwiceTags := ⟨by decide, by decide⟩
  have hok : (Pairing.nodes registry false closedTwice closedTwiceTags).isOk = true := by decide
  refine ⟨horder, ?_⟩
  cases hn : Pairing.nodes registry false closedTwice closedTwiceTags with
  | error e =>
    rw [hn] at hok
    contradiction
  | ok nodes =>
    obtain ⟨pairings, hlaminar, hnodes, hordered⟩ := nodes_laminar registry false horder hn
    exact ⟨nodes, pairings, rfl, hlaminar, hnodes, hordered⟩

end Pairing

end ThemeMarkup
