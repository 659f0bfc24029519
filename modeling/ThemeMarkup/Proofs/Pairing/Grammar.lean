import ThemeMarkup.Compiler.Standard
import ThemeMarkup.Proofs.Pairing.Forest

namespace ThemeMarkup

namespace Pairing

variable (registry : Registry) (strict : Bool)

/-- The tags of one node. -/
inductive IsNode : List Tag → Prop where
  | lone {head : Tag} (kind : head.kind = .head) (single : registry.isSingle head.name = true) :
      IsNode [head]
  | pair {head tail : Tag} {parts : List (List Tag)} (kind : head.kind = .head)
      (kind' : tail.kind = .tail) (closes : nameCloses strict head.name tail.name = true)
      (inside : ∀ part ∈ parts, IsNode part) : IsNode (head :: (parts.flatten ++ [tail]))

/-- Whether tags fall into nodes and tails that close nothing. -/
def IsNested (tags : List Tag) : Prop :=
  ∃ parts : List (List Tag), tags = parts.flatten ∧
    ∀ part ∈ parts, IsNode registry strict part ∨ ∃ tail : Tag, part = [tail] ∧ tail.kind = .tail

/-- Whether each tail among some tags closes only heads that may stand alone or only heads that may
not. -/
def Apart (tags : List Tag) : Prop :=
  ∀ tail ∈ tags, ∀ head ∈ tags, ∀ other ∈ tags,
    tail.kind = .tail → head.kind = .head → other.kind = .head →
      nameCloses strict head.name tail.name = true → nameCloses strict other.name tail.name = true →
        registry.isSingle head.name = registry.isSingle other.name

instance (tags : List Tag) : Decidable (Apart registry strict tags) :=
  inferInstanceAs (Decidable (∀ tail ∈ tags, _))

def Spare (tags : List Tag) (tail : Tag) : Prop :=
  ∃ head ∈ tags, head.kind = .head ∧ registry.isSingle head.name = true ∧
    nameCloses strict head.name tail.name = true

end Pairing

namespace Forest

open Pairing

variable {registry : Registry} {strict : Bool} {head tail : Tag} {tags rest all : List Tag}
  {f g : Forest}

/-- The tags of a forest, those of each node together. -/
def parts : Forest → List (List Tag)
  | nil => []
  | stray tail next => [tail] :: next.parts
  | lone head next => [head] :: next.parts
  | pair head inner tail next => (head :: (inner.tags ++ [tail])) :: next.parts

theorem flatten_parts (f : Forest) : f.parts.flatten = f.tags := by
  induction f with
  | nil => rfl
  | stray tail next ih => rw [parts, List.flatten_cons, ih]; rfl
  | lone head next ih => rw [parts, List.flatten_cons, ih]; rfl
  | pair head inner tail next _ ih =>
    rw [parts, List.flatten_cons, ih, tags, List.cons_append, List.append_assoc]
    rfl

/-- The parts of a forest are nodes, but for the tails that close nothing. -/
theorem isNode_or_stray {waiting : Option Tag} (h : Matched registry strict waiting f) :
    ∀ part ∈ f.parts, IsNode registry strict part ∨
      ∃ tail ∈ f.strays, part = [tail] ∧ tail.kind = .tail := by
  induction f generalizing waiting with
  | nil => exact nofun
  | stray tail next ih =>
    obtain ⟨hk, hm⟩ := h
    intro part hp
    rcases List.mem_cons.1 hp with rfl | hp
    · exact .inr ⟨tail, List.mem_cons_self, rfl, hk⟩
    · refine (ih hm part hp).imp_right ?_
      rintro ⟨other, ho, he⟩
      exact ⟨other, List.mem_cons_of_mem _ ho, he⟩
  | lone head next ih =>
    obtain ⟨hk, hs, -, hm⟩ := h
    intro part hp
    rcases List.mem_cons.1 hp with rfl | hp
    · exact .inl (.lone hk hs)
    · exact ih hm part hp
  | pair head inner tail next ihi ih =>
    obtain ⟨hk, hk', hc, hi, hmi, hm⟩ := h
    intro part hp
    rcases List.mem_cons.1 hp with rfl | hp
    · have hinside : ∀ part ∈ inner.parts, IsNode registry strict part := by
        intro part hp
        refine (ihi hmi part hp).resolve_right ?_
        rintro ⟨other, ho, -⟩
        rw [hi] at ho
        contradiction
      rw [← flatten_parts inner]
      exact .inl (.pair hk hk' hc hinside)
    · exact ih hm part hp

theorem isNested_of_grow (h : grow registry strict tags = .ok f) :
    IsNested registry strict tags := by
  obtain ⟨rfl, hm⟩ := grow_eq_ok_iff.1 h
  refine ⟨f.parts, (flatten_parts f).symm, ?_⟩
  intro part hp
  refine (isNode_or_stray hm part hp).imp_right ?_
  rintro ⟨tail, -, he⟩
  exact ⟨tail, he⟩

theorem grow_cons_of_ok (h : grow registry strict rest = .ok g) (tag : Tag) :
    grow registry strict (tag :: rest) = push registry strict tag g := by
  rw [grow, h]
  rfl

theorem exists_push_of_single (strict : Bool) (hk : head.kind = .head)
    (hs : registry.isSingle head.name = true) (g : Forest) :
    ∃ g' taken, push registry strict head g = .ok g' ∧ g.strays = taken ++ g'.strays ∧
      ∀ tail ∈ taken, nameCloses strict head.name tail.name = true := by
  have hlone : pushLone registry head g = .ok (lone head g) := if_pos hs
  unfold push
  rw [hk]
  cases hsplit : g.split with
  | none => exact ⟨lone head g, [], hlone, rfl, List.forall_mem_nil _⟩
  | some parts =>
    obtain ⟨inner, tail, after⟩ := parts
    obtain ⟨rfl, hi⟩ := eq_append_of_split hsplit
    dsimp only
    split
    · next hc =>
      refine ⟨pair head inner tail after, [tail], rfl, ?_, List.forall_mem_singleton.2 hc⟩
      rw [strays_append, hi]
      rfl
    · exact ⟨_, [], hlone, rfl, List.forall_mem_nil _⟩

theorem exists_push_of_closes (registry : Registry) {after : List Tag} (hk : head.kind = .head)
    (hc : nameCloses strict head.name tail.name = true) (hg : g.strays = tail :: after) :
    ∃ g', push registry strict head g = .ok g' ∧ g'.strays = after := by
  unfold push
  rw [hk]
  cases hsplit : g.split with
  | none =>
    rw [split_eq_none_iff.1 hsplit] at hg
    contradiction
  | some parts =>
    obtain ⟨inner, first, next⟩ := parts
    obtain ⟨rfl, hi⟩ := eq_append_of_split hsplit
    rw [strays_append, hi] at hg
    obtain ⟨rfl, hnext⟩ := List.cons.inj hg
    dsimp only
    rw [if_pos hc]
    exact ⟨_, rfl, hnext⟩

/-- Whether tags can be put before any forest, taking spare tails of it at most. -/
def Grows (registry : Registry) (strict : Bool) (all tags : List Tag) : Prop :=
  ∀ ⦃rest : List Tag⦄ ⦃g : Forest⦄, grow registry strict rest = .ok g →
    ∃ g' taken, grow registry strict (tags ++ rest) = .ok g' ∧ g.strays = taken ++ g'.strays ∧
      ∀ tail ∈ taken, Spare registry strict all tail

theorem grows_flatten {parts : List (List Tag)}
    (h : ∀ part ∈ parts, Grows registry strict all part) :
    Grows registry strict all parts.flatten := by
  induction parts with
  | nil =>
    intro rest g hg
    exact ⟨g, [], hg, rfl, List.forall_mem_nil _⟩
  | cons part parts ih =>
    obtain ⟨hpart, hparts⟩ := List.forall_mem_cons.1 h
    intro rest g hg
    obtain ⟨g₁, taken₁, hg₁, hs₁, ht₁⟩ := ih hparts hg
    obtain ⟨g₂, taken₂, hg₂, hs₂, ht₂⟩ := hpart hg₁
    refine ⟨g₂, taken₁ ++ taken₂, ?_, ?_, List.forall_mem_append.2 ⟨ht₁, ht₂⟩⟩
    · rw [List.flatten_cons, List.append_assoc, hg₂]
    · rw [hs₁, hs₂, List.append_assoc]

/-- A node can be put before any forest. -/
theorem grows_of_isNode (ha : Apart registry strict all) (h : IsNode registry strict tags)
    (hsub : tags ⊆ all) : Grows registry strict all tags := by
  induction h with
  | @lone head hk hs =>
    intro rest g hg
    obtain ⟨g', taken, hpush, hstrays, ht⟩ := exists_push_of_single strict hk hs g
    refine ⟨g', taken, (grow_cons_of_ok hg head).trans hpush, hstrays, ?_⟩
    intro tail hm
    exact ⟨head, hsub List.mem_cons_self, hk, hs, ht tail hm⟩
  | @pair head tail parts hk hk' hc _ ih =>
    obtain ⟨hhead, hsub⟩ := List.cons_subset.1 hsub
    obtain ⟨hparts, hlast⟩ := List.append_subset.1 hsub
    have htail : tail ∈ all := hlast (List.mem_singleton_self tail)
    intro rest g hg
    -- The tail is a stray until it closes the head, unless a single head inside takes it before,
    -- and then the head is single as well.
    have hstray : grow registry strict (tail :: rest) = .ok (stray tail g) := by
      rw [grow_cons_of_ok hg, push, hk']
    have hinside : Grows registry strict all parts.flatten := by
      apply grows_flatten
      intro part hp
      have hflat : part ⊆ parts.flatten := fun tag ht => List.mem_flatten.2 ⟨part, hp, ht⟩
      exact ih part hp (List.Subset.trans hflat hparts)
    obtain ⟨g₁, taken, hg₁, hstrays, ht⟩ := hinside hstray
    have hgrow (g' : Forest) (hp : push registry strict head g₁ = .ok g') :
        grow registry strict (head :: (parts.flatten ++ [tail]) ++ rest) = .ok g' := by
      rw [List.cons_append, List.append_assoc, List.singleton_append, grow_cons_of_ok hg₁, hp]
    cases taken with
    | nil =>
      obtain ⟨g', hpush, hafter⟩ := exists_push_of_closes registry hk hc hstrays.symm
      exact ⟨g', [], hgrow g' hpush, hafter.symm, List.forall_mem_nil _⟩
    | cons first taken =>
      obtain ⟨rfl, hrest⟩ := List.cons.inj hstrays
      obtain ⟨hspare, ht⟩ := List.forall_mem_cons.1 ht
      obtain ⟨other, ho, hko, hso, hco⟩ := hspare
      have hs : registry.isSingle head.name = true := by
        rw [ha tail htail head hhead other ho hk' hk hko hc hco, hso]
      obtain ⟨g', more, hpush, hmore, hm⟩ := exists_push_of_single strict hk hs g₁
      refine ⟨g', taken ++ more, hgrow g' hpush, ?_, ?_⟩
      · rw [List.append_assoc, ← hmore]
        exact hrest
      · refine List.forall_mem_append.2 ⟨ht, ?_⟩
        intro closer hmem
        exact ⟨head, hhead, hk, hs, hm closer hmem⟩

theorem exists_grow_flatten {parts : List (List Tag)} (ha : Apart registry strict all)
    (hall : ∀ part ∈ parts, part ⊆ all)
    (hparts : ∀ part ∈ parts,
      IsNode registry strict part ∨ ∃ tail : Tag, part = [tail] ∧ tail.kind = .tail) :
    ∃ f, grow registry strict parts.flatten = .ok f := by
  induction parts with
  | nil => exact ⟨nil, rfl⟩
  | cons part parts ih =>
    obtain ⟨hpart, hparts⟩ := List.forall_mem_cons.1 hparts
    obtain ⟨hsub, hall⟩ := List.forall_mem_cons.1 hall
    obtain ⟨g, hg⟩ := ih hall hparts
    rw [List.flatten_cons]
    rcases hpart with hnode | ⟨tail, rfl, hk⟩
    · obtain ⟨g', -, hg', -⟩ := grows_of_isNode ha hnode hsub hg
      exact ⟨g', hg'⟩
    · refine ⟨stray tail g, (grow_cons_of_ok hg tail).trans ?_⟩
      rw [push, hk]

theorem exists_grow_of_isNested (ha : Apart registry strict tags)
    (h : IsNested registry strict tags) : ∃ f, grow registry strict tags = .ok f := by
  obtain ⟨parts, rfl, hparts⟩ := h
  exact exists_grow_flatten ha (fun part hp tag ht => List.mem_flatten.2 ⟨part, hp, ht⟩) hparts

theorem exists_grow_error {e : Error} (h : grow registry strict tags = .error e) :
    ∃ before head after g, tags = before ++ head :: after ∧ grow registry strict after = .ok g ∧
      grow registry strict (head :: after) = .error e ∧ head.kind = .head ∧
      registry.isSingle head.name = false ∧
      e = .tag { fault := .unpaired head.name, span := head.span } := by
  induction tags with
  | nil => contradiction
  | cons tag tags ih =>
    cases hg : grow registry strict tags with
    | error e' =>
      rw [grow, hg] at h
      cases h
      obtain ⟨before, head, after, g, rfl, hhead⟩ := ih hg
      exact ⟨tag :: before, head, after, g, rfl, hhead⟩
    | ok g =>
      have hpush := (grow_cons_of_ok hg tag).symm.trans h
      obtain ⟨hk, hs, he⟩ := unpaired_of_push hpush
      exact ⟨[], tag, tags, g, rfl, hg, h, hk, hs, he⟩

theorem grow_append_error {e : Error} (h : grow registry strict rest = .error e)
    (before : List Tag) :
    grow registry strict (before ++ rest) = .error e := by
  induction before with
  | nil => exact h
  | cons tag before ih =>
    rw [List.cons_append, grow, ih]
    rfl

end Forest

namespace Pairing

open Forest

variable {registry : Registry} {strict : Bool} {head tail : Tag} {tags before after : List Tag}

/-- Whether a head is where tags stop being nested, read from the last: those after it are nested
and those from it on are not. -/
def StopsAt (registry : Registry) (strict : Bool) (tags before : List Tag) (head : Tag)
    (after : List Tag) : Prop :=
  tags = before ++ head :: after ∧ IsNested registry strict after ∧
    ¬ IsNested registry strict (head :: after)

theorem Apart.subset (ha : Apart registry strict tags) (hsub : after ⊆ tags) :
    Apart registry strict after :=
  fun tail ht head hh other ho => ha tail (hsub ht) head (hsub hh) other (hsub ho)

theorem not_isNested_iff_grow (ha : Apart registry strict tags) :
    ¬ IsNested registry strict tags ↔ ∃ e, grow registry strict tags = .error e := by
  constructor
  · intro hn
    cases hg : grow registry strict tags with
    | error e => exact ⟨e, rfl⟩
    | ok f => exact absurd (isNested_of_grow hg) hn
  · rintro ⟨e, he⟩ hn
    obtain ⟨f, hf⟩ := exists_grow_of_isNested ha hn
    rw [he] at hf
    contradiction

theorem StopsAt.eq_nil {mid after' : List Tag} {head' : Tag} (ha : Apart registry strict tags)
    (h : StopsAt registry strict tags before head after)
    (h' : StopsAt registry strict tags (before ++ mid) head' after') : mid = [] := by
  obtain ⟨rfl, hafter, -⟩ := h
  obtain ⟨he, -, hstop⟩ := h'
  rw [List.append_assoc] at he
  have he := List.append_cancel_left he
  cases mid with
  | nil => rfl
  | cons tag mid =>
    obtain ⟨rfl, rfl⟩ := List.cons.inj he
    have hsub : mid ++ head' :: after' ⊆ before ++ head :: (mid ++ head' :: after') :=
      List.subset_append_of_subset_right _ (List.subset_cons_self _ _)
    have hsub' : head' :: after' ⊆ mid ++ head' :: after' := List.subset_append_right _ _
    obtain ⟨e, hg⟩ := (not_isNested_iff_grow (ha.subset (List.Subset.trans hsub' hsub))).1 hstop
    exact absurd hafter ((not_isNested_iff_grow (ha.subset hsub)).2 ⟨e, grow_append_error hg mid⟩)

theorem StopsAt.unique {before' after' : List Tag} {head' : Tag} (ha : Apart registry strict tags)
    (h : StopsAt registry strict tags before head after)
    (h' : StopsAt registry strict tags before' head' after') :
    before' = before ∧ head' = head ∧ after' = after := by
  have hbefore : before' = before := by
    rcases List.append_eq_append_iff.1 (h.1.symm.trans h'.1) with ⟨mid, rfl, -⟩ | ⟨mid, rfl, -⟩
    · rw [h.eq_nil ha h', List.append_nil]
    · rw [h'.eq_nil ha h, List.append_nil]
  subst hbefore
  obtain ⟨rfl, rfl⟩ := List.cons.inj (List.append_cancel_left (h.1.symm.trans h'.1))
  exact ⟨rfl, rfl, rfl⟩

/-- Tags are paired just if they are nested; if they are not, the error is of the one head at which
they stop being nested. -/
theorem nodes_ok_iff_isNested (registry : Registry) (strict : Bool) (text : Text) (tags : List Tag)
    (ha : Apart registry strict tags) :
    ((∃ nodes, Pairing.nodes registry strict text tags = .ok nodes) ↔
        IsNested registry strict tags) ∧
      ∀ e, Pairing.nodes registry strict text tags = .error e →
        ∃ before head after, StopsAt registry strict tags before head after ∧
          head.kind = .head ∧ registry.isSingle head.name = false ∧
          e = .tag { fault := .unpaired head.name, span := head.span } ∧
          ∀ before' head' after', StopsAt registry strict tags before' head' after' →
            before' = before ∧ head' = head ∧ after' = after := by
  rw [Pairing.nodes, match?_eq_grow]
  cases hg : grow registry strict tags with
  | ok f =>
    refine ⟨⟨fun _ => isNested_of_grow hg, fun _ => ⟨_, rfl⟩⟩, ?_⟩
    intro e he
    contradiction
  | error e =>
    constructor
    · constructor
      · rintro ⟨nodes, hn⟩
        contradiction
      · intro hn
        exact absurd hn ((not_isNested_iff_grow ha).2 ⟨e, hg⟩)
    · intro e' he'
      obtain rfl : e = e' := Except.error.inj he'
      obtain ⟨before, head, after, g, rfl, hafter, hstop, hk, hs, he⟩ := exists_grow_error hg
      have hsub : head :: after ⊆ before ++ head :: after := List.subset_append_right _ _
      have hat : StopsAt registry strict (before ++ head :: after) before head after :=
        ⟨rfl, isNested_of_grow hafter, (not_isNested_iff_grow (ha.subset hsub)).2 ⟨e, hstop⟩⟩
      exact ⟨before, head, after, hat, hk, hs, he, fun _ _ _ hat' => hat.unique ha hat'⟩

/-- The tags of `{% if a %}{% else %}{% :else %}`, the last of which closes the second. -/
def unclosedIf : List Tag :=
  let text : Text := "\x7b% if a %\x7d\x7b% else %\x7d\x7b% :else %\x7d"
  [{ kind := .head, name := "if", argument := "a", source := text.slice 0 10
     span := .ofRange text 0 10 },
    { kind := .head, name := "else", source := text.slice 10 20, span := .ofRange text 10 10 },
    { kind := .tail, name := "else", source := text.slice 20 31, span := .ofRange text 20 11 }]

attribute [local instance] Marker.Serials.sample

theorem nodes_ok_iff_isNested_unclosedIf :
    Apart (Compiler.standard ".html").registry false unclosedIf ∧
      ¬ IsNested (Compiler.standard ".html").registry false unclosedIf := by
  let registry := (Compiler.standard ".html").registry
  have ha : Apart registry false unclosedIf := by decide
  have hfails : (Pairing.nodes registry false [] unclosedIf).isOk = false := by decide
  refine ⟨ha, ?_⟩
  intro hn
  obtain ⟨nodes, hnodes⟩ := (nodes_ok_iff_isNested registry false [] unclosedIf ha).1.2 hn
  rw [hnodes] at hfails
  contradiction

end Pairing

end ThemeMarkup
