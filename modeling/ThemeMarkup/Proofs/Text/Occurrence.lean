import Mathlib.Data.Nat.Count
import ThemeMarkup.Proofs.Text.Search

namespace ThemeMarkup.Text

variable {needle text : Text} {offset i j : Nat}

/-- Texts that do not end as they begin: only the whole text and the empty one stand both at the
beginning and at the end. -/
structure Unbordered (needle : Text) : Prop where
  ne_nil : needle ≠ []
  eq_of_border : ∀ border, border <+: needle → border <:+ needle → border ≠ [] → border = needle

instance (needle : Text) : Decidable needle.Unbordered :=
  decidable_of_iff
    (needle ≠ [] ∧ ∀ border ∈ needle.inits, border <:+ needle → border ≠ [] → border = needle)
    ⟨fun h => ⟨h.1, fun border hb => h.2 border ((List.mem_inits ..).2 hb)⟩,
      fun h => ⟨h.ne_nil, fun border hb => h.eq_of_border border ((List.mem_inits ..).1 hb)⟩⟩

/-- Whether the last character of a text stands nowhere else in it. -/
def EndsOnce (needle : Text) : Prop :=
  ∃ front c, needle = front ++ [c] ∧ c ∉ front

/-- Whether a piece of text stands at an offset. -/
def Occurs (needle text : Text) (i : Nat) : Prop :=
  needle <+: text.drop i

instance (needle text : Text) : DecidablePred (Occurs needle text) :=
  fun i => inferInstanceAs (Decidable (needle <+: text.drop i))

theorem Occurs.add_length_le (h : Occurs needle text i) (hn : needle ≠ []) :
    i + needle.length ≤ text.length := by
  have hpos := List.length_pos_iff.2 hn
  have hle := List.IsPrefix.length_le h
  rw [List.length_drop] at hle
  omega

theorem occurs_append_add_iff {before : Text} :
    Occurs needle (before ++ text) (before.length + i) ↔ Occurs needle text i := by
  rw [Occurs, Occurs, ← List.drop_drop, List.drop_left]

theorem Occurs.getElem? (h : Occurs needle text i) {k : Nat} (hk : k < needle.length) :
    text[i + k]? = needle[k]? := by
  obtain ⟨rest, hrest⟩ := h
  rw [← List.getElem?_drop, ← hrest, List.getElem?_append_left hk]

theorem exists_findFrom? {start : Nat} (h : Occurs needle text i) (hn : needle ≠ [])
    (hle : start ≤ i) : ∃ first, findFrom? needle start text = some first := by
  have hstart : start ≤ text.length := by
    have := h.add_length_le hn
    omega
  have hinfix : needle <:+: text.drop start := by
    rw [Occurs, ← Nat.add_sub_of_le hle, ← List.drop_drop] at h
    exact h.isInfix.trans (List.drop_suffix ..).isInfix
  obtain ⟨parts, hparts⟩ := Option.isSome_iff_exists.1 (isSome_cut?_iff.2 hinfix)
  rw [findFrom?, if_pos hstart, find?, hparts]
  exact ⟨_, rfl⟩

/-- The search from an offset finds the first occurrence that does not begin before it. -/
theorem findFrom?_eq_some_iff {start : Nat} (hn : needle ≠ []) :
    findFrom? needle start text = some i ↔
      start ≤ i ∧ Occurs needle text i ∧ ∀ j, start ≤ j → Occurs needle text j → i ≤ j := by
  have hfound {i : Nat} (h : findFrom? needle start text = some i) :
      start ≤ i ∧ Occurs needle text i ∧ ∀ j, start ≤ j → Occurs needle text j → i ≤ j := by
    rw [findFrom?] at h
    split at h
    · obtain ⟨k, hk, rfl⟩ := Option.map_eq_some_iff.1 h
      obtain ⟨⟨before, rest⟩, hcut, rfl⟩ := Option.map_eq_some_iff.1 hk
      obtain ⟨hdrop, hfirst⟩ := cut?_eq_some_iff.1 hcut
      refine ⟨Nat.le_add_right .., ?_, ?_⟩
      · rw [Occurs, ← List.drop_drop, hdrop, List.append_assoc, List.drop_left]
        exact List.prefix_append ..
      · intro j hj hoccurs
        apply Nat.le_of_not_lt
        intro hlt
        apply hfirst (j - start) (Nat.sub_lt_left_of_lt_add hj hlt)
        rw [List.drop_drop, Nat.add_sub_of_le hj]
        exact hoccurs
    · contradiction
  constructor
  · exact hfound
  · intro ⟨hle, hoccurs, hleast⟩
    obtain ⟨first, hfirst⟩ := exists_findFrom? hoccurs hn hle
    obtain ⟨hle', hoccurs', hleast'⟩ := hfound hfirst
    rw [hfirst, Nat.le_antisymm (hleast' _ hle hoccurs) (hleast _ hle' hoccurs')]

theorem occurs_append (needle before after : Text) :
    Occurs needle (before ++ needle ++ after) before.length := by
  rw [Occurs, List.append_assoc, List.drop_left]
  exact List.prefix_append ..

theorem EndsOnce.unbordered (h : EndsOnce needle) : needle.Unbordered := by
  obtain ⟨front, c, rfl, hc⟩ := h
  constructor
  · simp
  · intro border hbegin hend hne
    rcases List.prefix_concat_iff.1 hbegin with rfl | hfront
    · rfl
    · obtain ⟨part, rfl, -⟩ := (List.suffix_concat_iff.1 hend).resolve_left hne
      exact absurd (hfront.subset (List.mem_append_right _ (List.mem_singleton_self c))) hc

theorem Unbordered.add_length_le (h : needle.Unbordered) (hi : Occurs needle text i)
    (hj : Occurs needle text j) (hij : i < j) : i + needle.length ≤ j := by
  refine Nat.le_of_not_lt fun hlt => ?_
  let border := needle.drop (j - i)
  have hlength : border.length = i + needle.length - j := by
    rw [List.length_drop]
    omega
  have hbegin : border <+: needle := by
    obtain ⟨rest, hrest⟩ := hi
    have hshared : border ++ rest = text.drop j := by
      rw [← Nat.add_sub_of_le (Nat.le_of_lt hij), ← List.drop_drop, ← hrest,
        List.drop_append_of_le_length (by omega)]
    apply List.prefix_of_prefix_length_le ⟨rest, hshared⟩ hj
    omega
  have hne : border ≠ [] := List.ne_nil_of_length_pos (by omega)
  have hwhole := congrArg List.length (h.eq_of_border border hbegin (List.drop_suffix ..) hne)
  omega

theorem occurs_of_mem_occurrences (h : i ∈ occurrences needle offset text) :
    ∃ k, i = offset + k ∧ Occurs needle text k := by
  induction hn : text.length using Nat.strongRecOn generalizing offset text with
  | ind n ih =>
    subst hn
    rw [occurrences] at h
    split at h
    · contradiction
    · next before rest hc =>
      obtain ⟨rfl, -⟩ := cut?_eq_some_iff.1 hc
      rcases List.mem_cons.1 h with rfl | h
      · exact ⟨before.length, rfl, occurs_append needle before rest⟩
      · split at h
        · next hlt =>
          obtain ⟨k, rfl, hk⟩ := ih _ hlt h rfl
          refine ⟨before.length + needle.length + k, by omega, ?_⟩
          rw [← List.length_append]
          exact occurs_append_add_iff.2 hk
        · contradiction

theorem filter_occurs_append (h : needle.Unbordered) (rest : Text) :
    ((List.range (needle ++ rest).length).filter fun i => Occurs needle (needle ++ rest) i) =
      0 :: ((List.range rest.length).filter fun i => Occurs needle rest i).map
      (needle.length + ·) := by
  have hhere : Occurs needle (needle ++ rest) 0 := List.prefix_append needle rest
  have hpos := List.length_pos_iff.2 h.ne_nil
  obtain ⟨n, hn⟩ := Nat.exists_eq_succ_of_ne_zero hpos.ne'
  have hinside :
      ((List.range needle.length).filter fun i => Occurs needle (needle ++ rest) i) = [0] := by
    rw [hn, List.range_succ_eq_map, List.filter_cons, if_pos (decide_eq_true hhere)]
    refine congrArg (0 :: ·) (List.filter_eq_nil_iff.2 ?_)
    intro i hi hoccurs
    obtain ⟨k, hk, rfl⟩ := List.mem_map.1 hi
    have hle := h.add_length_le hhere (of_decide_eq_true hoccurs) (Nat.succ_pos k)
    have hlt := List.mem_range.1 hk
    omega
  rw [List.length_append, List.range_add, List.filter_append, hinside, List.filter_map]
  simp only [Function.comp_def, occurs_append_add_iff]
  rfl

/-- The occurrences that are met from the left are all there are. -/
theorem occurrences_eq_filter (h : needle.Unbordered) (offset : Nat) (text : Text) :
    occurrences needle offset text =
      ((List.range text.length).filter fun i => Occurs needle text i).map (offset + ·) := by
  -- As the needle has no border, none begins inside the one that is found, and the search goes on
  -- after it.
  induction hn : text.length using Nat.strongRecOn generalizing offset text with
  | ind n ih =>
    subst hn
    rw [occurrences]
    cases hc : cut? needle text with
    | none =>
      have hnone : ((List.range text.length).filter fun i => Occurs needle text i) = [] := by
        refine List.filter_eq_nil_iff.2 ?_
        intro i _ hoccurs
        have hsome : (cut? needle text).isSome :=
          isSome_cut?_iff.2 ((of_decide_eq_true hoccurs).isInfix.trans
            (List.drop_suffix i text).isInfix)
        rw [hc] at hsome
        contradiction
      rw [hnone]
      rfl
    | some parts =>
      obtain ⟨before, rest⟩ := parts
      obtain ⟨rfl, hfirst⟩ := cut?_eq_some_iff.1 hc
      have hpos := List.length_pos_iff.2 h.ne_nil
      have hlt : rest.length < (before ++ needle ++ rest).length := by
        simp only [List.length_append]
        omega
      have hbefore : ((List.range before.length).filter fun i =>
          Occurs needle (before ++ (needle ++ rest)) i) = [] := by
        refine List.filter_eq_nil_iff.2 ?_
        intro i hi hoccurs
        apply hfirst i (List.mem_range.1 hi)
        rw [List.append_assoc]
        exact of_decide_eq_true hoccurs
      dsimp only
      rw [if_pos hlt, ih _ hlt _ rest rfl, List.append_assoc, List.length_append, List.range_add,
        List.filter_append, hbefore, List.filter_map]
      simp only [Function.comp_def, occurs_append_add_iff, filter_occurs_append h, List.nil_append,
        List.map_cons, List.map_map, Nat.add_zero, Nat.add_assoc]

theorem length_occurrences_take (h : needle.Unbordered) (hi : Occurs needle text i) :
    (occurrences needle 0 (text.take i)).length = Nat.count (Occurs needle text) i := by
  have hle := hi.add_length_le h.ne_nil
  have hlength : (text.take i).length = i := by
    rw [List.length_take]
    omega
  rw [occurrences_eq_filter h, List.length_map, hlength, ← List.countP_eq_length_filter]
  apply List.countP_congr
  intro j hj
  have hlt := List.mem_range.1 hj
  rw [decide_eq_true_iff, decide_eq_true_iff, Occurs, List.drop_take, List.prefix_take_iff]
  refine ⟨And.left, fun hoccurs => ⟨hoccurs, ?_⟩⟩
  have hbefore := h.add_length_le hoccurs hi hlt
  omega

theorem getElem?_occurrences (h : needle.Unbordered) (hi : Occurs needle text i) :
    (occurrences needle 0 text)[Nat.count (Occurs needle text) i]? = some i := by
  have hle := hi.add_length_le h.ne_nil
  have hpos := List.length_pos_iff.2 h.ne_nil
  obtain ⟨n, hn⟩ : ∃ n, text.length = i + (n + 1) := ⟨text.length - i - 1, by omega⟩
  have hhere : Occurs needle text (i + 0) := hi
  rw [occurrences_eq_filter h, hn, List.range_add, List.filter_append, List.range_succ_eq_map,
    List.map_cons, List.filter_cons, if_pos (decide_eq_true hhere), List.map_append,
    List.getElem?_append_right]
  · rw [List.length_map, ← List.countP_eq_length_filter]
    simp [Nat.count]
  · rw [List.length_map, ← List.countP_eq_length_filter]
    exact Nat.le_refl _

theorem nodup_occurrences (h : needle.Unbordered) (text : Text) :
    (occurrences needle 0 text).Nodup := by
  rw [occurrences_eq_filter h]
  exact (List.nodup_range.filter _).map fun _ _ => Nat.add_left_cancel

theorem getElem?_occurrences_iff (h : needle.Unbordered) :
    (occurrences needle 0 text)[j]? = some i ↔
      Occurs needle text i ∧ Nat.count (Occurs needle text) i = j := by
  constructor
  · intro hj
    obtain ⟨k, rfl, hk⟩ := occurs_of_mem_occurrences (List.mem_of_getElem? hj)
    rw [Nat.zero_add] at hj ⊢
    obtain ⟨hlt, -⟩ := List.getElem?_eq_some_iff.1 hj
    refine ⟨hk, ((List.getElem?_inj hlt (nodup_occurrences h text)).1 ?_).symm⟩
    rw [hj, getElem?_occurrences h hk]
  · rintro ⟨hi, rfl⟩
    exact getElem?_occurrences h hi

/-- The number of places at which a piece of text stands. -/
def copies (needle text : Text) : Nat :=
  Nat.count (Occurs needle text) text.length

theorem length_occurrences (h : needle.Unbordered) (text : Text) :
    (occurrences needle 0 text).length = copies needle text := by
  rw [occurrences_eq_filter h, List.length_map, ← List.countP_eq_length_filter]
  rfl

theorem count_append (h : needle.Unbordered) (before after : Text) :
    Nat.count (Occurs needle (before ++ needle ++ after)) before.length = copies needle before := by
  rw [← length_occurrences_take h (occurs_append ..), List.append_assoc, List.take_left,
    length_occurrences h]

theorem getElem?_occurrences_eq_none_iff (h : needle.Unbordered) :
    (occurrences needle 0 text)[j]? = none ↔ copies needle text ≤ j := by
  rw [List.getElem?_eq_none_iff, length_occurrences h]

theorem exists_getElem?_occurrences (h : needle.Unbordered) (hj : j < copies needle text) :
    ∃ place, (occurrences needle 0 text)[j]? = some place := by
  rw [← length_occurrences h] at hj
  exact ⟨_, List.getElem?_eq_getElem hj⟩

end ThemeMarkup.Text
