import ThemeMarkup.Pairing

namespace ThemeMarkup

/-- The error of a head tag that needs a tail tag and has none. -/
def Tag.unpaired (head : Tag) : Error :=
  .tag { fault := .unpaired head.name, span := head.span }

/-- Tags in the order in which they stand, each pair with the tags inside it. -/
inductive Forest where
  | nil
  | stray (tail : Tag) (next : Forest)
  | lone (head : Tag) (next : Forest)
  | pair (head : Tag) (inner : Forest) (tail : Tag) (next : Forest)

namespace Forest

def tags : Forest → List Tag
  | nil => []
  | stray tail next => tail :: next.tags
  | lone head next => head :: next.tags
  | pair head inner tail next => head :: (inner.tags ++ tail :: next.tags)

def strays : Forest → List Tag
  | nil => []
  | stray tail next => tail :: next.strays
  | lone _ next => next.strays
  | pair _ _ _ next => next.strays

def pairings : Forest → List Pairing
  | nil => []
  | stray _ next => next.pairings
  | lone head next => ⟨head, none⟩ :: next.pairings
  | pair head inner tail next => ⟨head, some tail⟩ :: (inner.pairings ++ next.pairings)

theorem strays_subset_tags (f : Forest) : f.strays ⊆ f.tags := by
  induction f with
  | nil => exact List.Subset.refl _
  | stray tail next ih => exact List.cons_subset_cons tail ih
  | lone head next ih => exact List.subset_cons_of_subset head ih
  | pair head inner tail next _ ih =>
    exact List.subset_cons_of_subset head
      (List.subset_append_of_subset_right _ (List.subset_cons_of_subset tail ih))

def append : Forest → Forest → Forest
  | nil, after => after
  | stray tail next, after => stray tail (next.append after)
  | lone head next, after => lone head (next.append after)
  | pair head inner tail next, after => pair head inner tail (next.append after)

/-- The forest before the first stray tail, that tail and the forest after it. -/
def split : Forest → Option (Forest × Tag × Forest)
  | nil => none
  | stray tail next => some (nil, tail, next)
  | lone head next => next.split.map fun (before, tail, after) => (lone head before, tail, after)
  | pair head inner tail next =>
    next.split.map fun (before, closer, after) => (pair head inner tail before, closer, after)

/-- The first tag that is left to close a head before the forest, `waiting` coming after it. -/
def firstStray (forest : Forest) (waiting : Option Tag) : Option Tag :=
  forest.strays.head?.or waiting

@[simp] theorem tags_append (f g : Forest) : (f.append g).tags = f.tags ++ g.tags := by
  induction f with
  | nil => rfl
  | stray tail next ih => simp only [append, tags, ih, List.cons_append]
  | lone head next ih => simp only [append, tags, ih, List.cons_append]
  | pair head inner tail next _ ih =>
    simp only [append, tags, ih, List.cons_append, List.append_assoc]

@[simp] theorem strays_append (f g : Forest) : (f.append g).strays = f.strays ++ g.strays := by
  induction f with
  | nil => rfl
  | stray tail next ih => simp only [append, strays, ih, List.cons_append]
  | lone head next ih => exact ih
  | pair head inner tail next _ ih => exact ih

@[simp] theorem pairings_append (f g : Forest) :
    (f.append g).pairings = f.pairings ++ g.pairings := by
  induction f with
  | nil => rfl
  | stray tail next ih => exact ih
  | lone head next ih => simp only [append, pairings, ih, List.cons_append]
  | pair head inner tail next _ ih =>
    simp only [append, pairings, ih, List.cons_append, List.append_assoc]

theorem split_eq_none_iff {f : Forest} : f.split = none ↔ f.strays = [] := by
  induction f with
  | nil => simp [split, strays]
  | stray tail next _ => simp [split, strays]
  | lone head next ih => simpa [split, strays] using ih
  | pair head inner tail next _ ih => simpa [split, strays] using ih

theorem split_append_stray {f : Forest} (hf : f.strays = []) (tail : Tag) (after : Forest) :
    (f.append (stray tail after)).split = some (f, tail, after) := by
  induction f with
  | nil => rfl
  | stray tail next ih => contradiction
  | lone head next ih => simp only [append, split, ih hf, Option.map_some]
  | pair head inner tail next _ ih => simp only [append, split, ih hf, Option.map_some]

theorem eq_append_of_split {f before after : Forest} {tail : Tag}
    (h : f.split = some (before, tail, after)) :
    f = before.append (stray tail after) ∧ before.strays = [] := by
  induction f generalizing before with
  | nil => contradiction
  | stray tail next ih =>
    cases h
    exact ⟨rfl, rfl⟩
  | lone head next ih =>
    obtain ⟨⟨b, t, a⟩, hs, he⟩ := Option.map_eq_some_iff.1 h
    cases he
    obtain ⟨rfl, hb⟩ := ih hs
    exact ⟨rfl, hb⟩
  | pair head inner tail next _ ih =>
    obtain ⟨⟨b, t, a⟩, hs, he⟩ := Option.map_eq_some_iff.1 h
    cases he
    obtain ⟨rfl, hb⟩ := ih hs
    exact ⟨rfl, hb⟩

variable (registry : Registry) (strict : Bool)

/-- The forest with a head put before it that nothing closes. -/
def pushLone (head : Tag) (forest : Forest) : Except Error Forest :=
  if registry.isSingle head.name then .ok (lone head forest)
  else .error (.tag { fault := .unpaired head.name, span := head.span })

/-- The forest with a tag put before it: a head takes what stands before the first stray tail into a
pair if that tail closes it. -/
def push (tag : Tag) (forest : Forest) : Except Error Forest :=
  match tag.kind, forest.split with
  | .tail, _ => .ok (stray tag forest)
  | .head, none => pushLone registry tag forest
  | .head, some (inner, tail, after) =>
    if nameCloses strict tag.name tail.name then .ok (pair tag inner tail after)
    else pushLone registry tag forest

/-- The forest that tags grow to, from the last tag to the first. -/
def grow : List Tag → Except Error Forest
  | [] => .ok nil
  | tag :: tags => grow tags >>= push registry strict tag

/-- Pairing tags is growing a forest of them. -/
theorem match?_eq_grow (tags : List Tag) :
    Pairing.match? registry strict tags =
      (grow registry strict tags).map fun forest => (forest.pairings, forest.strays) := by
  induction tags with
  | nil => rfl
  | cons tag tags ih =>
    rw [Pairing.match?, grow, ih]
    cases grow registry strict tags with
    | error e => rfl
    | ok forest =>
      simp only [bind, Except.bind, Except.map, push, pushLone]
      cases hk : tag.kind with
      | tail => rfl
      | head =>
        cases hs : forest.split with
        | none =>
          rw [split_eq_none_iff.1 hs]
          dsimp only
          split <;> simp [strays, pairings, split_eq_none_iff.1 hs, pure, Except.pure, throw,
            throwThe, MonadExceptOf.throw]
        | some parts =>
          obtain ⟨inner, tail, after⟩ := parts
          obtain ⟨rfl, hi⟩ := eq_append_of_split hs
          simp only [strays_append, hi, strays, List.nil_append, pairings_append, pairings]
          split
          · simp [pairings, strays, pure, Except.pure]
          · split <;> simp [strays, pairings, hi, pure, Except.pure, throw,
              throwThe, MonadExceptOf.throw]

/-- A forest in which the heads and tails are those of its tags, each pair closes, each head that
stands alone may do so and is not closed by the first stray tail after it. `waiting` is the tail
that closes the pair around the forest. -/
def Matched : Option Tag → Forest → Prop
  | _, nil => True
  | waiting, stray tail next => tail.kind = .tail ∧ Matched waiting next
  | waiting, lone head next =>
    head.kind = .head ∧ registry.isSingle head.name = true ∧
      (∀ tail ∈ next.firstStray waiting, nameCloses strict head.name tail.name = false) ∧
      Matched waiting next
  | waiting, pair head inner tail next =>
    head.kind = .head ∧ tail.kind = .tail ∧ nameCloses strict head.name tail.name = true ∧
      inner.strays = [] ∧ Matched (some tail) inner ∧ Matched waiting next

variable {registry strict}

theorem matched_append {waiting : Option Tag} {f g : Forest} :
    Matched registry strict waiting (f.append g) ↔
      Matched registry strict (g.firstStray waiting) f ∧ Matched registry strict waiting g := by
  induction f with
  | nil => simp [append, Matched]
  | stray tail next ih => simp only [append, Matched, ih, and_assoc]
  | lone head next ih =>
    simp only [append, Matched, ih, firstStray, strays_append, List.head?_append, Option.or_assoc,
      and_assoc]
  | pair head inner tail next _ ih => simp only [append, Matched, ih, and_assoc]

theorem matched_of_pushLone {head : Tag} {f g : Forest} (hk : head.kind = .head)
    (hf : Matched registry strict none f)
    (ho : ∀ tail ∈ f.firstStray none, nameCloses strict head.name tail.name = false)
    (h : pushLone registry head f = .ok g) :
    g.tags = head :: f.tags ∧ Matched registry strict none g := by
  rw [pushLone] at h
  split at h
  · next hs =>
    cases h
    exact ⟨rfl, hk, hs, ho, hf⟩
  · contradiction

theorem matched_of_push {tag : Tag} {f g : Forest} (hf : Matched registry strict none f)
    (h : push registry strict tag f = .ok g) :
    g.tags = tag :: f.tags ∧ Matched registry strict none g := by
  unfold push at h
  split at h
  · next hk =>
    cases h
    exact ⟨rfl, hk, hf⟩
  · next hk hs =>
    exact matched_of_pushLone hk hf (by simp [firstStray, split_eq_none_iff.1 hs]) h
  · next inner tail after hk hs =>
    obtain ⟨rfl, hi⟩ := eq_append_of_split hs
    split at h
    · next hc =>
      cases h
      obtain ⟨hinner, htail, hafter⟩ := matched_append.1 hf
      refine ⟨by simp [tags], hk, htail, hc, hi, ?_, hafter⟩
      simpa [firstStray, strays] using hinner
    · next hc =>
      exact matched_of_pushLone hk hf (by simpa [firstStray, hi, strays] using hc) h

theorem grow_append {f g : Forest} {rest : List Tag} (hg : grow registry strict rest = .ok g)
    (hf : Matched registry strict (g.firstStray none) f) :
    grow registry strict (f.tags ++ rest) = .ok (f.append g) := by
  induction f generalizing g rest with
  | nil => exact hg
  | stray tail next ih =>
    obtain ⟨hk, hn⟩ := hf
    rw [tags, List.cons_append, grow, ih hg hn, append]
    simp only [bind, Except.bind, push, hk]
  | lone head next ih =>
    obtain ⟨hk, hs, ho, hn⟩ := hf
    rw [tags, List.cons_append, grow, ih hg hn, append]
    simp only [bind, Except.bind, push, pushLone, hk]
    cases hsplit : (next.append g).split with
    | none => simp only [hs, ↓reduceIte]
    | some parts =>
      obtain ⟨inner, tail, after⟩ := parts
      obtain ⟨he, hi⟩ := eq_append_of_split hsplit
      have hfirst : next.firstStray (g.firstStray none) = some tail := by
        have := congrArg (fun f => f.strays.head?) he
        simpa [firstStray, strays, hi] using this
      simp only [hs, ho tail hfirst, ↓reduceIte, Bool.false_eq_true]
  | pair head inner tail next ihi ih =>
    obtain ⟨hk, ht, hc, hi, hinner, hn⟩ := hf
    have hstray : grow registry strict (tail :: (next.tags ++ rest)) =
        .ok (stray tail (next.append g)) := by
      rw [grow, ih hg hn]
      simp only [bind, Except.bind, push, ht]
    have hgrown := ihi hstray (by simpa [firstStray, strays] using hinner)
    rw [tags, List.cons_append, List.append_assoc, List.cons_append, grow, hgrown, append]
    simp only [bind, Except.bind, push, hk, split_append_stray hi, hc, ↓reduceIte]

/-- Tags grow to a forest just if they are its tags and it is paired as it should be. -/
theorem grow_eq_ok_iff {tags : List Tag} {forest : Forest} :
    grow registry strict tags = .ok forest ↔
      forest.tags = tags ∧ Matched registry strict none forest := by
  constructor
  · intro h
    induction tags generalizing forest with
    | nil =>
      cases h
      exact ⟨rfl, trivial⟩
    | cons tag tags ih =>
      rw [grow] at h
      cases hg : grow registry strict tags with
      | error e =>
        rw [hg] at h
        contradiction
      | ok f =>
        obtain ⟨rfl, hf⟩ := ih hg
        rw [hg] at h
        exact matched_of_push hf h
  · rintro ⟨rfl, hm⟩
    have h : grow registry strict (forest.tags ++ []) = .ok (forest.append nil) :=
      grow_append rfl hm
    have he (f : Forest) : f.append nil = f := by
      induction f with
      | nil => rfl
      | stray tail next ih => rw [append, ih]
      | lone head next ih => rw [append, ih]
      | pair head inner tail next _ ih => rw [append, ih]
    rwa [List.append_nil, he] at h

theorem unpaired_of_pushLone {head : Tag} {f : Forest} {e : Error}
    (h : pushLone registry head f = .error e) :
    registry.isSingle head.name = false ∧
      e = .tag { fault := .unpaired head.name, span := head.span } := by
  rw [pushLone] at h
  split at h
  · contradiction
  · next hs =>
    cases h
    exact ⟨by simpa using hs, rfl⟩

theorem unpaired_of_push {tag : Tag} {f : Forest} {e : Error}
    (h : push registry strict tag f = .error e) :
    tag.kind = .head ∧ registry.isSingle tag.name = false ∧
      e = .tag { fault := .unpaired tag.name, span := tag.span } := by
  unfold push at h
  split at h
  · contradiction
  · next hk _ => exact ⟨hk, unpaired_of_pushLone h⟩
  · next hk _ =>
    split at h
    · contradiction
    · exact ⟨hk, unpaired_of_pushLone h⟩

theorem unpaired_of_grow {tags : List Tag} {e : Error}
    (h : grow registry strict tags = .error e) :
    ∃ head ∈ tags, head.kind = .head ∧ registry.isSingle head.name = false ∧
      e = .tag { fault := .unpaired head.name, span := head.span } := by
  induction tags with
  | nil => contradiction
  | cons tag tags ih =>
    rw [grow] at h
    cases hg : grow registry strict tags with
    | error e' =>
      rw [hg] at h
      cases h
      obtain ⟨head, hm, hh⟩ := ih hg
      exact ⟨head, List.mem_cons_of_mem _ hm, hh⟩
    | ok f =>
      rw [hg] at h
      exact ⟨tag, List.mem_cons_self, unpaired_of_push h⟩

end Forest

end ThemeMarkup
