import ThemeMarkup.Text.Lowercase

namespace ThemeMarkup.Text

theorem forall_isAscii {p : Char → Prop} (h : ∀ n < 128, p (Char.ofNat n)) {c : Char}
    (hc : isAscii c = true) : p c := by
  have hp := h c.toNat (by simpa [isAscii] using hc)
  rwa [Char.ofNat_toNat] at hp

theorem lowerAscii_of_not_isAscii {c : Char} (h : ¬ isAscii c = true) : lowerAscii c = c := by
  refine if_neg fun hc => h ?_
  have hle : c.toNat ≤ 'Z'.toNat := hc.2
  simp only [isAscii, decide_eq_true_eq]
  exact Nat.lt_of_le_of_lt hle (by decide)

theorem isAscii_lowerAscii (c : Char) : isAscii (lowerAscii c) = isAscii c := by
  by_cases h : isAscii c = true
  · exact forall_isAscii (p := fun c => isAscii (lowerAscii c) = isAscii c) (by decide) h
  · rw [lowerAscii_of_not_isAscii h]

theorem lowerAscii_lowerAscii (c : Char) : lowerAscii (lowerAscii c) = lowerAscii c := by
  by_cases h : isAscii c = true
  · exact forall_isAscii (p := fun c => lowerAscii (lowerAscii c) = lowerAscii c) (by decide) h
  · rw [lowerAscii_of_not_isAscii h, lowerAscii_of_not_isAscii h]

/-- A character that no other one has as its lower case. -/
def IsCaseless (c : Char) : Prop :=
  ∀ d, lowerAscii d = lowerAscii c → d = c

theorem isCaseless_of_forall {c : Char} (h : ∀ n < 128, lowerAscii (Char.ofNat n) = lowerAscii c →
    Char.ofNat n = c) (hc : isAscii c = true) : IsCaseless c := by
  intro d hd
  have hascii : isAscii d = true := by
    rw [← isAscii_lowerAscii, hd, isAscii_lowerAscii, hc]
  exact forall_isAscii (p := fun d => lowerAscii d = lowerAscii c → d = c) h hascii hd

theorem eq_of_caseless {text lead : Text} (hc : ∀ c ∈ lead, IsCaseless c)
    (h : text.map lowerAscii = lead.map lowerAscii) : text = lead := by
  induction lead generalizing text with
  | nil => exact List.map_eq_nil_iff.1 h
  | cons c lead ih =>
    cases text with
    | nil => contradiction
    | cons d text =>
      obtain ⟨hhead, htail⟩ := List.cons.inj h
      obtain ⟨hfirst, hlead⟩ := List.forall_mem_cons.1 hc
      rw [hfirst d hhead, ih hlead htail]

theorem lowerFrom_of_isAscii {before text : Text} (h : ∀ c ∈ text, isAscii c = true) :
    lowerFrom before text = text.map lowerAscii := by
  induction text generalizing before with
  | nil => rfl
  | cons c text ih =>
    have hc := h c List.mem_cons_self
    have hs : c ≠ 'Σ' := by
      rintro rfl
      contradiction
    rw [lowerFrom, if_neg hs, lowerChar, if_pos hc, ih fun c hc => h c (List.mem_cons_of_mem _ hc)]
    rfl

theorem lower_of_isAscii {text : Text} (h : ∀ c ∈ text, isAscii c = true) :
    lower text = text.map lowerAscii :=
  lowerFrom_of_isAscii h

theorem lower_of_alike {text name : Text} (hn : ∀ c ∈ name, isAscii c = true)
    (h : text.map lowerAscii = (lower name).map lowerAscii) : lower text = lower name := by
  have hlower : (lower name).map lowerAscii = lower name := by
    simp only [lower_of_isAscii hn, List.map_map, Function.comp_def, lowerAscii_lowerAscii]
  have htext : ∀ c ∈ text, isAscii c = true := by
    intro c hc
    have hm : lowerAscii c ∈ name.map lowerAscii := by
      rw [← lower_of_isAscii hn, ← hlower, ← h]
      exact List.mem_map_of_mem hc
    obtain ⟨e, he, hle⟩ := List.mem_map.1 hm
    rw [← isAscii_lowerAscii, ← hle, isAscii_lowerAscii, hn e he]
  rw [lower_of_isAscii htext, h, hlower]

end ThemeMarkup.Text
