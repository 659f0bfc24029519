import Mathlib.Data.List.Count
import ThemeMarkup.Proofs.Text.Blank

namespace ThemeMarkup.Text

variable {text before after : Text} {c d : Char}

theorem exists_around_strip (text : Text) :
    ∃ before after, text = before ++ (strip text ++ after) ∧
      (∀ c ∈ before, isBlank c = true) ∧ ∀ c ∈ after, isBlank c = true := by
  obtain ⟨before, hbefore, hb⟩ := exists_append_stripLeft text
  obtain ⟨after, hafter, ha⟩ := exists_stripRight_append (stripLeft text)
  exact ⟨before, after, hbefore.trans (congrArg (before ++ ·) hafter), hb, ha⟩

theorem countP_eq_zero_of_blank {p : Char → Bool} (hp : ∀ c, isBlank c = true → p c = false)
    {blanks : Text} (h : ∀ c ∈ blanks, isBlank c = true) : blanks.countP p = 0 := by
  apply List.countP_eq_zero.2
  intro c hc
  simp [hp c (h c hc)]

theorem countP_strip {p : Char → Bool} (hp : ∀ c, isBlank c = true → p c = false) (text : Text) :
    (strip text).countP p = text.countP p := by
  obtain ⟨before, after, htext, hb, ha⟩ := exists_around_strip text
  have h := congrArg (List.countP p) htext
  rw [List.countP_append, List.countP_append, countP_eq_zero_of_blank hp hb,
    countP_eq_zero_of_blank hp ha] at h
  omega

theorem count_strip (h : isBlank c = false) (text : Text) :
    (strip text).count c = text.count c := by
  apply countP_strip
  intro d hd
  apply beq_false_of_ne
  rintro rfl
  rw [h] at hd
  contradiction

theorem mem_strip_iff (h : isBlank c = false) : c ∈ strip text ↔ c ∈ text := by
  rw [← List.count_pos_iff, count_strip h, List.count_pos_iff]

theorem head?_strip_cons (h : isBlank c = false) (rest : Text) :
    (strip (c :: rest)).head? = some c := by
  obtain ⟨before, after, htext, hb, ha⟩ := exists_around_strip (c :: rest)
  have hblank {blanks more : Text} (hall : ∀ d ∈ blanks, isBlank d = true)
      (he : c :: rest = blanks ++ more) : blanks = [] := by
    cases blanks with
    | nil => rfl
    | cons d blanks =>
      obtain rfl := (List.cons.inj he).1
      rw [hall c List.mem_cons_self] at h
      contradiction
  obtain rfl := hblank hb htext
  cases hs : strip (c :: rest) with
  | nil =>
    rw [hs] at htext
    obtain rfl := hblank ha (htext.trans (List.append_nil _).symm)
    exact absurd htext (List.cons_ne_nil c rest)
  | cons d core =>
    rw [hs] at htext
    exact congrArg some (List.cons.inj htext).1.symm

def ink (text : Text) : Nat :=
  text.countP (!isBlank ·)

@[simp] theorem ink_append (text other : Text) : ink (text ++ other) = ink text + ink other :=
  List.countP_append

@[simp] theorem ink_cons (c : Char) (text : Text) :
    ink (c :: text) = ink text + if isBlank c then 0 else 1 := by
  cases hc : isBlank c <;> simp [ink, hc]

@[simp] theorem ink_strip (text : Text) : ink (strip text) = ink text :=
  countP_strip (fun c hc => by simp [hc]) text

theorem ink_pos_iff : 0 < ink text ↔ text.IsFilled := by
  simp [ink, IsFilled, List.countP_pos_iff]

theorem strip_append_ne (hc : isBlank c = false) (hd : isBlank d = false) (hne : c ≠ d)
    (before after : Text) : strip (before ++ c :: after) ≠ strip (before ++ [d]) := by
  intro h
  have hink : ink after = 0 := by
    have hink := congrArg ink h
    simp only [ink_strip, ink_append, ink_cons, hc, hd, Bool.false_eq_true, if_false] at hink
    have hnil : ink [] = 0 := rfl
    omega
  have hcount := congrArg (List.count d) h
  rw [count_strip hd, count_strip hd, List.count_append, List.count_append,
    List.count_cons_of_ne hne, List.count_singleton_self] at hcount
  have hmem : d ∈ after := List.count_pos_iff.1 (by omega)
  have hpos := ink_pos_iff.2 ⟨d, hmem, hd⟩
  omega

end ThemeMarkup.Text
