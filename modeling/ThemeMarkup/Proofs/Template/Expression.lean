import ThemeMarkup.Proofs.Attribute.Reading
import ThemeMarkup.Proofs.Template.Unmarked

namespace ThemeMarkup.Expression

open Text (Unmarked)

variable {text : Text}

theorem isChain_dropSigils {a : Char} (h : (a :: text).IsChain fun c d => c = '#' → d ≠ '#') :
    (a :: dropSigils text).IsChain fun c d => c = '#' → d ≠ '#' := by
  induction text using dropSigils.induct generalizing a with
  | case1 c text hc ih =>
    rw [dropSigils, if_pos hc]
    apply ih
    exact List.isChain_cons_cons.2
      ⟨fun _ => Attribute.ne_of_isNameStart hc (by decide), h.tail.tail⟩
  | case2 c text hc ih =>
    rw [dropSigils, if_neg hc]
    exact List.isChain_cons_cons.2 ⟨(List.isChain_cons_cons.1 h).1, ih h.tail⟩
  | case3 c text hc ih =>
    rw [dropSigils]
    · exact List.isChain_cons_cons.2 ⟨(List.isChain_cons_cons.1 h).1, ih h.tail⟩
    · exact hc
  | case4 => exact h

theorem isChain_pointArrows {a : Char} (h : (a :: text).IsChain fun c d => c = '#' → d ≠ '#') :
    (a :: pointArrows text).IsChain fun c d => c = '#' → d ≠ '#' := by
  induction text using pointArrows.induct generalizing a with
  | case1 text ih =>
    rw [pointArrows]
    refine List.isChain_cons_cons.2 ⟨fun _ => by decide, ih ?_⟩
    cases text with
    | nil => exact .singleton _
    | cons c text =>
      exact List.isChain_cons_cons.2 ⟨fun he => absurd he (by decide), h.tail.tail.tail⟩
  | case2 c text hc ih =>
    rw [pointArrows]
    · exact List.isChain_cons_cons.2 ⟨(List.isChain_cons_cons.1 h).1, ih h.tail⟩
    · exact hc
  | case3 => exact h

theorem unmarked_toTarget (h : Unmarked text) : Unmarked (toTarget text) := by
  have hstrip := h.of_infix (Text.strip_infix text)
  have hspace : Unmarked (' ' :: Text.strip text) := Text.unmarked_cons_of_ne (by decide) hstrip
  have hchain := isChain_pointArrows (isChain_dropSigils (Text.unmarked_iff.1 hspace))
  exact Text.unmarked_iff.2 hchain.tail

theorem mem_toTarget {c : Char} (h : c ∈ toTarget text) : c ∈ text ∨ c = '.' := by
  cases mem_pointArrows h with
  | inl hm => exact .inl ((Text.strip_infix text).subset (mem_dropSigils hm))
  | inr he => exact .inr he

theorem dropSigils_ne_nil (h : text ≠ []) : dropSigils text ≠ [] := by
  induction text using dropSigils.induct with
  | case1 c text hc ih =>
    rw [dropSigils, if_pos hc]
    exact ih (List.cons_ne_nil c text)
  | case2 c text hc ih =>
    rw [dropSigils, if_neg hc]
    exact List.cons_ne_nil _ _
  | case3 c text hc ih =>
    rw [dropSigils]
    · exact List.cons_ne_nil _ _
    · exact hc
  | case4 => exact absurd rfl h

theorem pointArrows_ne_nil (h : text ≠ []) : pointArrows text ≠ [] := by
  unfold pointArrows
  split
  · exact List.cons_ne_nil _ _
  · exact List.cons_ne_nil _ _
  · exact absurd rfl h

theorem toTarget_ne_nil (h : text.IsFilled) : toTarget text ≠ [] :=
  pointArrows_ne_nil (dropSigils_ne_nil (Text.strip_ne_nil h))

theorem toTarget_eq_nil_iff : toTarget text = [] ↔ ¬ text.IsFilled := by
  constructor
  · intro h hf
    exact toTarget_ne_nil hf h
  · intro h
    rw [toTarget, Text.strip_eq_nil_iff.2 h]
    rfl

theorem mem_quote {c : Char} (h : c ∈ quote text) : c ∈ text ∨ c = '.' ∨ c = '"' ∨ c = '\\' := by
  rw [quote] at h
  have hstrip {c : Char} (hm : c ∈ Text.strip text) : c ∈ text := (Text.strip_infix text).subset hm
  split at h
  · cases mem_toTarget h with
    | inl hm => exact .inl (hstrip hm)
    | inr he => exact .inr (.inl he)
  · rcases List.mem_append.1 h with h | h
    · rcases List.mem_append.1 h with h | h
      · exact .inr (.inr (.inl (List.mem_singleton.1 h)))
      · obtain ⟨d, hd, hc⟩ := List.mem_flatMap.1 h
        split at hc
        · simp only [List.mem_cons, List.not_mem_nil, or_false] at hc
          rcases hc with rfl | rfl
          · exact .inr (.inr (.inr rfl))
          · exact .inr (.inr (.inl rfl))
        · exact .inl (List.mem_singleton.1 hc ▸ hstrip hd)
    · exact .inr (.inr (.inl (List.mem_singleton.1 h)))

end ThemeMarkup.Expression
