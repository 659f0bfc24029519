import Mathlib.Data.List.Infix
import ThemeMarkup.Path

namespace ThemeMarkup.Path

variable {before text after : Text} {name : Text}

theorem parts_append_slash (before after : Text) :
    (ofText (before ++ '/' :: after)).parts = (ofText before).parts ++ (ofText after).parts := by
  simp only [ofText, List.splitOn_append_cons_self, List.filter_append]

theorem parts_of_not_mem (h : '/' ∉ name) (hn : name ≠ []) (hd : name ≠ ['.']) :
    (ofText name).parts = [name] := by
  have hsplit : name.splitOn '/' = [name] := List.splitOn_eq_singleton h
  simp [ofText, hsplit, hn, hd]

def Opens (text : Text) : Prop :=
  text = [] ∨ ∃ before, text = before ++ ['/']

theorem parts_append (hb : Opens before) (h : '/' ∉ name) (hn : name ≠ []) (hd : name ≠ ['.']) :
    (ofText (before ++ name)).parts = (ofText before).parts ++ [name] := by
  rcases hb with rfl | ⟨before, rfl⟩
  · exact parts_of_not_mem h hn hd
  · rw [List.append_assoc, List.singleton_append, parts_append_slash, parts_append_slash,
      parts_of_not_mem h hn hd]
    have hnil : (ofText []).parts = [] := rfl
    rw [hnil, List.append_nil]

theorem name_append (hb : Opens before) (h : '/' ∉ name) (hn : name ≠ []) (hd : name ≠ ['.']) :
    (ofText (before ++ name)).name = name := by
  rw [Path.name, parts_append hb h hn hd, List.getLastD_concat]

theorem rootOf_append (h : after.head? ≠ some '/') : rootOf (text ++ after) = rootOf text := by
  have hafter : after.takeWhile (· = '/') = [] := by
    cases after with
    | nil => rfl
    | cons c after =>
      apply List.takeWhile_cons_of_neg
      simpa using h
  have htake : (text ++ after).takeWhile (· = '/') = text.takeWhile (· = '/') := by
    rw [List.takeWhile_append]
    split
    · next hall =>
      rw [hafter, List.append_nil]
      exact ((List.takeWhile_prefix _).eq_of_length hall).symm
    · rfl
  rw [rootOf, rootOf, htake]

theorem root_append (h : after.head? ≠ some '/') :
    (ofText (text ++ after)).root = (ofText text).root :=
  rootOf_append h

theorem join_eq_join_iff {base path other : Path} (h : path.root = other.root) :
    base.join path = base.join other ↔ path.parts = other.parts := by
  obtain ⟨root, parts⟩ := path
  obtain ⟨root', parts'⟩ := other
  obtain rfl : root = root' := h
  by_cases hroot : root = []
  · simp [join, isAbsolute, hroot]
  · simp [join, isAbsolute, hroot]

/-- Endings of file names: a point and more, without slashes and not ending with a point. -/
structure IsEnding (ending : Text) : Prop where
  point : ending.head? = some '.'
  slash : '/' ∉ ending
  last : ending.getLast? ≠ some '.'

theorem IsEnding.exists_cons {ending : Text} (h : IsEnding ending) :
    ∃ c rest, ending = '.' :: c :: rest := by
  obtain ⟨hp, -, hl⟩ := h
  cases ending with
  | nil => contradiction
  | cons d ending =>
    obtain rfl : d = '.' := Option.some.inj hp
    cases ending with
    | nil => exact absurd rfl hl
    | cons c rest => exact ⟨c, rest, rfl⟩

theorem splitName_of_not_mem (h : '.' ∉ name) : (splitName name).2 = [] := by
  have hc : name.contains '.' = false := by simpa using h
  simp only [splitName, hc, Bool.not_false, Bool.or_true, ↓reduceIte]

theorem exists_last_point (hm : '.' ∈ text) (hl : text.getLast? ≠ some '.') :
    ∃ start ending, text = start ++ '.' :: ending ∧ ending ≠ [] ∧ '.' ∉ ending := by
  obtain ⟨after, before, hs, hn⟩ := List.eq_append_cons_of_mem (List.mem_reverse.2 hm)
  have htext : text = before.reverse ++ '.' :: after.reverse := by
    have h := congrArg List.reverse hs
    simpa using h
  refine ⟨before.reverse, after.reverse, htext, ?_, by simpa using hn⟩
  rintro he
  rw [htext, he] at hl
  simp at hl

theorem splitName_append {start ending : Text} (hs : start ≠ []) (he : ending ≠ [])
    (hn : '.' ∉ ending) : splitName (start ++ '.' :: ending) = (start, '.' :: ending) := by
  have htake : (start ++ '.' :: ending).reverse.takeWhile (· ≠ '.') = ending.reverse := by
    rw [List.reverse_append, List.reverse_cons, List.append_assoc, List.singleton_append,
      List.takeWhile_append_of_pos, List.takeWhile_cons_of_neg, List.append_nil]
    · simp
    · intro c hc
      have hne : c ≠ '.' := by
        rintro rfl
        exact hn (List.mem_reverse.1 hc)
      simpa using hne
  have hstart : (start ++ '.' :: ending).take
      ((start ++ '.' :: ending).length - ending.length - 1) = start := by
    have hlength : (start ++ '.' :: ending).length - ending.length - 1 = start.length := by
      simp only [List.length_append, List.length_cons]
      omega
    rw [hlength, List.take_left]
  simp only [splitName, htake, List.reverse_reverse, hstart]
  simp [hs, he]

theorem splitName_ending_ne_nil {ending : Text} (hn : name ≠ []) (he : IsEnding ending) :
    (splitName (name ++ ending)).2 ≠ [] := by
  obtain ⟨c, rest, rfl⟩ := he.exists_cons
  have hlast : (name ++ '.' :: c :: rest).getLast? ≠ some '.' := by
    rw [List.getLast?_append_of_ne_nil _ (List.cons_ne_nil _ _)]
    exact he.last
  obtain ⟨start, ending, hs, hne, hnot⟩ :=
    exists_last_point (List.mem_append_right _ List.mem_cons_self) hlast
  have hstart : start ≠ [] := by
    rintro rfl
    obtain ⟨d, name, rfl⟩ := List.exists_cons_of_ne_nil hn
    obtain ⟨-, rfl⟩ := List.cons.inj hs
    exact hnot (List.mem_append_right _ List.mem_cons_self)
  rw [hs, splitName_append hstart hne hnot]
  exact List.cons_ne_nil _ _

end ThemeMarkup.Path
