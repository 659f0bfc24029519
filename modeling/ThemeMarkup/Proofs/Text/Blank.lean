import Mathlib.Data.List.TakeWhile
import ThemeMarkup.Text.Blank

namespace ThemeMarkup.Text

variable {before core after text : Text}

/-- Whether there is a character in a text that is not blank. -/
def IsFilled (text : Text) : Prop :=
  ∃ c ∈ text, isBlank c = false

instance (text : Text) : Decidable text.IsFilled :=
  decidable_of_iff (text.any (!isBlank ·) = true) (by simp [IsFilled])

theorem exists_append_stripLeft (text : Text) :
    ∃ blanks, text = blanks ++ stripLeft text ∧ ∀ c ∈ blanks, isBlank c = true := by
  refine ⟨text.takeWhile isBlank, List.takeWhile_append_dropWhile.symm, ?_⟩
  intro c hc
  exact List.all_eq_true.1 List.all_takeWhile c hc

theorem exists_stripRight_append (text : Text) :
    ∃ blanks, text = stripRight text ++ blanks ∧ ∀ c ∈ blanks, isBlank c = true := by
  obtain ⟨blanks, he, hb⟩ := exists_append_stripLeft text.reverse
  refine ⟨blanks.reverse, ?_, ?_⟩
  · rw [← List.reverse_reverse text, he, List.reverse_append]
    simp only [stripRight, List.reverse_append, List.reverse_reverse, ← he]
    rfl
  · intro c hc
    exact hb c (List.mem_reverse.1 hc)

theorem length_strip_le (text : Text) : (strip text).length ≤ text.length := by
  have hleft : (stripLeft text).length ≤ text.length := (List.dropWhile_sublist _).length_le
  have hright : (stripRight (stripLeft text)).length ≤ (stripLeft text).length := by
    have h := (List.dropWhile_sublist (l := (stripLeft text).reverse) isBlank).length_le
    rw [stripRight, List.length_reverse]
    rwa [List.length_reverse] at h
  exact Nat.le_trans hright hleft

theorem strip_infix (text : Text) : strip text <:+: text := by
  have hright : stripRight (stripLeft text) <+: stripLeft text :=
    List.reverse_suffix.1 (by
      rw [stripRight, List.reverse_reverse]
      exact List.dropWhile_suffix _)
  exact hright.isInfix.trans (List.dropWhile_suffix _).isInfix

theorem dropWhile_eq_self {p : Char → Bool} (h : ∀ c ∈ text.head?, p c = false) :
    text.dropWhile p = text := by
  cases text with
  | nil => rfl
  | cons c text => exact List.dropWhile_cons_of_neg (by simp [h c rfl])

theorem takeWhile_eq_nil {p : Char → Bool} (h : ∀ c ∈ text.head?, p c = false) :
    text.takeWhile p = [] := by
  cases text with
  | nil => rfl
  | cons c text => exact List.takeWhile_cons_of_neg (by simp [h c rfl])

theorem strip_between (hb : ∀ c ∈ before, isBlank c = true) (ha : ∀ c ∈ after, isBlank c = true)
    (hf : ∀ c ∈ core.head?, isBlank c = false) (hl : ∀ c ∈ core.getLast?, isBlank c = false) :
    strip (before ++ core ++ after) = core := by
  by_cases hn : core = []
  · subst hn
    have hall : (before ++ after).dropWhile isBlank = [] := by
      rw [List.dropWhile_append_of_pos hb, List.dropWhile_eq_nil_iff.2 ha]
    rw [List.append_nil, strip, stripLeft, hall]
    rfl
  · have hleft : stripLeft (before ++ core ++ after) = core ++ after := by
      rw [stripLeft, List.append_assoc, List.dropWhile_append_of_pos hb]
      obtain ⟨d, core, rfl⟩ := List.exists_cons_of_ne_nil hn
      exact dropWhile_eq_self fun c hc => hf c hc
    have hright : (core ++ after).reverse.dropWhile isBlank = core.reverse := by
      rw [List.reverse_append, List.dropWhile_append_of_pos fun c hc =>
        ha c (List.mem_reverse.1 hc)]
      exact dropWhile_eq_self fun c hc => hl c (List.head?_reverse ▸ hc)
    rw [strip, hleft, stripRight, hright, List.reverse_reverse]

theorem isBlank_of_mem_head?_dropWhile {c : Char} (h : c ∈ (text.dropWhile isBlank).head?) :
    isBlank c = false := by
  have hnot := List.head?_dropWhile_not isBlank text
  rw [Option.mem_def.1 h] at hnot
  exact hnot

theorem isBlank_of_mem_getLast?_strip {c : Char} (h : c ∈ (strip text).getLast?) :
    isBlank c = false := by
  rw [strip, stripRight, List.getLast?_reverse] at h
  exact isBlank_of_mem_head?_dropWhile h

theorem isBlank_of_mem_head?_strip {c : Char} (h : c ∈ (strip text).head?) : isBlank c = false := by
  obtain ⟨blanks, he, -⟩ := exists_stripRight_append (stripLeft text)
  have hleft : c ∈ (stripLeft text).head? := by
    rw [strip] at h
    rw [he, List.head?_append, Option.mem_def.1 h]
    rfl
  exact isBlank_of_mem_head?_dropWhile hleft

theorem strip_eq_self (hf : ∀ c ∈ text.head?, isBlank c = false)
    (hl : ∀ c ∈ text.getLast?, isBlank c = false) : strip text = text := by
  have h := strip_between (List.forall_mem_nil _) (List.forall_mem_nil _) hf hl
  rwa [List.nil_append, List.append_nil] at h

@[simp] theorem strip_strip (text : Text) : strip (strip text) = strip text :=
  strip_eq_self (fun _ => isBlank_of_mem_head?_strip) fun _ => isBlank_of_mem_getLast?_strip

theorem strip_append (text : Text) (ha : ∀ c ∈ after, isBlank c = true) :
    strip (text ++ after) = strip text := by
  rw [strip, strip, stripLeft, stripLeft, List.dropWhile_append]
  split
  · next h =>
    rw [List.dropWhile_eq_nil_iff.2 ha, List.isEmpty_iff.1 h]
  · rw [stripRight, stripRight, List.reverse_append, List.dropWhile_append_of_pos]
    intro c hc
    exact ha c (List.mem_reverse.1 hc)

theorem strip_ne_nil (h : text.IsFilled) : strip text ≠ [] := by
  obtain ⟨c, hc, hb⟩ := h
  have hleft : ∃ d ∈ stripLeft text, isBlank d = false := by
    refine ⟨c, ?_, hb⟩
    have hm : c ∈ text.takeWhile isBlank ++ stripLeft text := by
      rwa [stripLeft, List.takeWhile_append_dropWhile]
    refine (List.mem_append.1 hm).resolve_left fun ht => ?_
    have hall := List.all_eq_true.1 (List.all_takeWhile (p := isBlank) (l := text)) c ht
    rw [hb] at hall
    contradiction
  obtain ⟨d, hd, hb⟩ := hleft
  intro hn
  have hnil : (stripLeft text).reverse.dropWhile isBlank = [] := List.reverse_eq_nil_iff.1 hn
  have hall := List.dropWhile_eq_nil_iff.1 hnil d (List.mem_reverse.2 hd)
  rw [hb] at hall
  contradiction

theorem strip_eq_nil_iff : strip text = [] ↔ ¬ text.IsFilled := by
  constructor
  · intro h hf
    exact strip_ne_nil hf h
  · intro h
    have hblank : ∀ c ∈ text, isBlank c = true := by
      intro c hc
      by_contra hn
      exact h ⟨c, hc, Bool.not_eq_true _ ▸ hn⟩
    exact strip_append [] hblank

end ThemeMarkup.Text
