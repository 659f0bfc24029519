import Mathlib
import ThemeMarkup.Text.Quoted
import ThemeMarkup.Proofs.Text.Lowercase
import ThemeMarkup.Proofs.Text.Number

namespace ThemeMarkup.Text

variable {quote c : Char} {text : Text}

def IsQuote (quote : Char) : Prop :=
  quote = '\'' ∨ quote = '"'

theorem isQuote_quoteMark (text : Text) : IsQuote (quoteMark text) := by
  rw [quoteMark]
  split
  · exact .inr rfl
  · exact .inl rfl

theorem quoteMark_congr {other : Text} (hs : '\'' ∈ text ↔ '\'' ∈ other)
    (hd : '"' ∈ text ↔ '"' ∈ other) :
    quoteMark text = quoteMark other := by
  simp only [quoteMark, List.contains_eq_mem, hs, hd]

theorem isAlphanum_digitChar {n : Nat} (h : n < 16) : (Nat.digitChar n).isAlphanum = true := by
  decide +revert

theorem isAlphanum_of_mem_hex {width n : Nat} (h : c ∈ hex width n) : c.isAlphanum = true := by
  rcases List.mem_append.1 h with h | h
  · rw [List.eq_of_mem_replicate h]
    rfl
  · obtain ⟨n, hn, rfl⟩ := exists_digitChar_of_mem_toDigits (by decide) h
    exact isAlphanum_digitChar hn

theorem quotedChar_of_isPrintable (hp : isPrintable c = true) (hq : c ≠ quote) (hs : c ≠ '\\') :
    quotedChar quote c = [c] := by
  have hne {d : Char} (hd : isPrintable d = false) : c ≠ d := by
    rintro rfl
    rw [hp] at hd
    contradiction
  rw [quotedChar, if_neg (not_or.2 ⟨hq, hs⟩), if_neg (hne (by decide)), if_neg (hne (by decide)),
    if_neg (hne (by decide)), if_pos hp]

theorem quotedChar_of_eq (h : c = quote ∨ c = '\\') : quotedChar quote c = ['\\', c] :=
  if_pos h

/-- A character that is not printable is named by letters and digits. -/
theorem exists_quotedChar (hp : isPrintable c = false) (hq : IsQuote quote) :
    ∃ d rest, quotedChar quote c = '\\' :: d :: rest ∧ ∀ e ∈ d :: rest, e.isAlphanum = true := by
  have hne {d : Char} (hd : isPrintable d = true) : c ≠ d := by
    rintro rfl
    rw [hp] at hd
    contradiction
  have hquote : c ≠ quote := by
    rcases hq with rfl | rfl
    · exact hne (by decide)
    · exact hne (by decide)
  have hcode {d : Char} (width n : Nat) (hd : d.isAlphanum = true) :
      ∀ e ∈ d :: hex width n, e.isAlphanum = true :=
    List.forall_mem_cons.2 ⟨hd, fun e he => isAlphanum_of_mem_hex he⟩
  rw [quotedChar, if_neg (not_or.2 ⟨hquote, hne (by decide)⟩)]
  split
  · exact ⟨'t', [], rfl, List.forall_mem_singleton.2 rfl⟩
  split
  · exact ⟨'n', [], rfl, List.forall_mem_singleton.2 rfl⟩
  split
  · exact ⟨'r', [], rfl, List.forall_mem_singleton.2 rfl⟩
  rw [hp, if_neg Bool.false_ne_true]
  split
  · exact ⟨'x', hex 2 c.toNat, rfl, hcode 2 _ rfl⟩
  split
  · exact ⟨'u', hex 4 c.toNat, rfl, hcode 4 _ rfl⟩
  · exact ⟨'U', hex 8 c.toNat, rfl, hcode 8 _ rfl⟩

theorem isPrintable_of_isAlphanum (h : c.isAlphanum = true) : isPrintable c = true := by
  have hascii : isAscii c = true := by
    simp only [Char.isAlphanum, Char.isAlpha, Char.isUpper, Char.isLower, Char.isDigit,
      Bool.or_eq_true, Bool.and_eq_true, decide_eq_true_eq] at h
    apply decide_eq_true
    rcases h with (⟨-, h⟩ | ⟨-, h⟩) | ⟨-, h⟩ <;>
      · have hle := UInt32.le_iff_toNat_le.1 h
        exact Nat.lt_of_le_of_lt hle (by decide)
  exact forall_isAscii (p := fun c => c.isAlphanum = true → isPrintable c = true) (by decide)
    hascii h

theorem isPrintable_of_mem_quoted (h : c ∈ quoted text) : isPrintable c = true := by
  have hmark : isPrintable (quoteMark text) = true ∧ isPrintable '\\' = true := by
    rcases isQuote_quoteMark text with hq | hq <;> rw [hq] <;> decide
  rw [quoted, List.cons_append, List.mem_cons, List.mem_append, List.mem_singleton] at h
  rcases h with rfl | h | rfl
  · exact hmark.1
  · obtain ⟨e, -, h⟩ := List.mem_flatMap.1 h
    by_cases hspecial : e = quoteMark text ∨ e = '\\'
    · rw [quotedChar_of_eq hspecial] at h
      rcases List.mem_cons.1 h with rfl | h
      · exact hmark.2
      · rw [List.mem_singleton.1 h]
        rcases hspecial with rfl | rfl
        · exact hmark.1
        · exact hmark.2
    · cases hp : isPrintable e with
      | true =>
        rw [quotedChar_of_isPrintable hp (not_or.1 hspecial).1 (not_or.1 hspecial).2] at h
        rw [List.mem_singleton.1 h, hp]
      | false =>
        obtain ⟨d, rest, he, hall⟩ := exists_quotedChar hp (isQuote_quoteMark text)
        rw [he] at h
        rcases List.mem_cons.1 h with rfl | h
        · exact hmark.2
        · exact isPrintable_of_isAlphanum (hall c h)
  · exact hmark.1

theorem count_flatMap {f : Char → Text} (h : ∀ e, (f e).count c = [e].count c) (text : Text) :
    (text.flatMap f).count c = text.count c := by
  induction text with
  | nil => rfl
  | cons e text ih =>
    rw [List.flatMap_cons, List.count_append, h, ih, ← List.count_append]
    rfl

theorem count_quoted (hp : isPrintable c = true) (ha : c.isAlphanum = false)
    (hc : ¬ (IsQuote c ∨ c = '\\')) (text : Text) : (quoted text).count c = text.count c := by
  obtain ⟨hquote, hslash⟩ := not_or.1 hc
  have hq := isQuote_quoteMark text
  have hmark : quoteMark text ≠ c := fun he => hquote (he ▸ hq)
  have hchar (e : Char) : (quotedChar (quoteMark text) e).count c = [e].count c := by
    by_cases hspecial : e = quoteMark text ∨ e = '\\'
    · rw [quotedChar_of_eq hspecial, List.count_cons_of_ne (Ne.symm hslash)]
    · cases he : isPrintable e with
      | true => rw [quotedChar_of_isPrintable he (not_or.1 hspecial).1 (not_or.1 hspecial).2]
      | false =>
        obtain ⟨d, rest, hd, hall⟩ := exists_quotedChar he hq
        have hne : e ≠ c := fun h => by rw [h, hp] at he; contradiction
        have hnone : c ∉ d :: rest := fun hm => by rw [hall c hm] at ha; contradiction
        rw [hd, List.count_cons_of_ne (Ne.symm hslash), List.count_eq_zero.2 hnone,
          List.count_cons_of_ne hne, List.count_nil]
  rw [quoted, List.cons_append, List.count_cons_of_ne hmark, List.count_append, count_flatMap hchar,
    List.count_cons_of_ne hmark, List.count_nil, Nat.add_zero]

end ThemeMarkup.Text
