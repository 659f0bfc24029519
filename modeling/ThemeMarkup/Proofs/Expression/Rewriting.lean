import ThemeMarkup.Proofs.Attribute
import ThemeMarkup.Proofs.Template.Expression
import ThemeMarkup.Proofs.Text.Ink

namespace ThemeMarkup

namespace Expression

open Attribute (isNameStart)

variable {text before after : Text} {c : Char}

/-- A text as code of the target. -/
def rewritten (text : Text) : Text :=
  pointArrows (dropSigils text)

theorem mem_head?_dropSigils (h : c ∈ (dropSigils text).head?) :
    c ∈ text.head? ∨ isNameStart c = true := by
  unfold dropSigils at h
  split at h
  · next d text =>
    split at h
    · next hd =>
      rw [dropSigils_cons (Attribute.ne_of_isNameStart hd (by decide))] at h
      obtain rfl := Option.some.inj h
      exact .inr hd
    · exact .inl h
  · exact .inl h
  · exact .inl h

theorem mem_head?_pointArrows (h : c ∈ (pointArrows text).head?) : c ∈ text.head? ∨ c = '.' := by
  unfold pointArrows at h
  split at h
  · exact .inr (Option.some.inj h).symm
  · exact .inl h
  · exact .inl h

theorem getLast?_dropSigils (text : Text) : (dropSigils text).getLast? = text.getLast? := by
  induction text using dropSigils.induct with
  | case1 d text hd ih => rw [dropSigils, if_pos hd, ih, List.getLast?_cons_cons]
  | case2 d text hd ih =>
    rw [dropSigils, if_neg hd, List.getLast?_cons, ih, ← List.getLast?_cons]
  | case3 d text hd ih =>
    rw [dropSigils, List.getLast?_cons, ih, List.getLast?_cons]
    exact hd
  | case4 => rfl

theorem mem_getLast?_pointArrows (h : c ∈ (pointArrows text).getLast?) :
    c ∈ text.getLast? ∨ c = '.' := by
  have step {d e : Char} {text text' : Text} (ih : c ∈ text'.getLast? → c ∈ text.getLast? ∨ c = '.')
      (hn : text' = [] → text = []) (he : d = e ∨ d = '.') (h : c ∈ (d :: text').getLast?) :
      c ∈ (e :: text).getLast? ∨ c = '.' := by
    rw [List.getLast?_cons] at h ⊢
    cases hl : text'.getLast? with
    | none =>
      rw [hl] at h
      rw [hn (List.getLast?_eq_none_iff.1 hl)]
      obtain rfl := Option.some.inj h
      exact he.imp_left fun he => congrArg some he.symm
    | some l =>
      rw [hl] at h
      refine (ih (hl.trans h)).imp_left fun hm => ?_
      rw [Option.mem_def.1 hm]
      rfl
  induction text using pointArrows.induct with
  | case1 text ih =>
    rw [pointArrows] at h
    rw [List.getLast?_cons_cons]
    refine step ih (fun hn => ?_) (.inr rfl) h
    by_contra hne
    exact pointArrows_ne_nil hne hn
  | case2 d text hd ih =>
    rw [pointArrows] at h
    · refine step ih (fun hn => ?_) (.inl rfl) h
      by_contra hne
      exact pointArrows_ne_nil hne hn
    · exact hd
  | case3 => exact .inl h

theorem dropSigils_append (h : before.getLast? = some '$' →
    ∀ c ∈ after.head?, isNameStart c = false) :
    dropSigils (before ++ after) = dropSigils before ++ dropSigils after := by
  induction before using dropSigils.induct with
  | case1 d before hd ih =>
    rw [dropSigils, if_pos hd, ← ih (List.getLast?_cons_cons ▸ h)]
    exact if_pos hd
  | case2 d before hd ih =>
    rw [dropSigils, if_neg hd]
    exact (if_neg hd).trans (congrArg ('$' :: ·) (ih (List.getLast?_cons_cons ▸ h)))
  | case3 d before hd ih =>
    cases before with
    | nil =>
      by_cases he : d = '$'
      · subst he
        cases after with
        | nil => rfl
        | cons c after =>
          have hc : ¬ isNameStart c = true := by simp [h rfl c rfl]
          exact if_neg hc
      · rw [List.singleton_append, dropSigils_cons he, dropSigils_cons he]
        rfl
    | cons e before =>
      have hne : d ≠ '$' := fun he => hd e before he rfl
      rw [List.cons_append, dropSigils_cons hne, dropSigils_cons hne,
        ih (List.getLast?_cons_cons ▸ h), List.cons_append]
  | case4 => rfl

theorem pointArrows_append (h : before.getLast? = some '-' → after.head? ≠ some '>') :
    pointArrows (before ++ after) = pointArrows before ++ pointArrows after := by
  induction before using pointArrows.induct with
  | case1 before ih =>
    refine congrArg ('.' :: ·) (ih fun hl => h ?_)
    rw [List.getLast?_cons_cons, List.getLast?_cons, hl]
    rfl
  | case2 d before hd ih =>
    cases before with
    | nil =>
      by_cases he : d = '-'
      · subst he
        cases after with
        | nil => rfl
        | cons c after =>
          rw [List.singleton_append, pointArrows]
          · rfl
          · rintro rest - hc
            exact h rfl (congrArg List.head? hc)
      · rw [List.singleton_append, pointArrows_cons he, pointArrows_cons he]
        rfl
    | cons e before =>
      have hcons (rest : Text) : pointArrows (d :: e :: rest) = d :: pointArrows (e :: rest) := by
        rw [pointArrows]
        rintro rest' hdash he
        exact hd before hdash (congrArg (· :: before) (List.cons.inj he).1)
      rw [hcons, List.cons_append, List.cons_append, hcons, ← List.cons_append,
        ih (List.getLast?_cons_cons ▸ h), List.cons_append]
  | case3 => rfl

theorem rewritten_append (hs : before.getLast? = some '$' →
    ∀ c ∈ after.head?, isNameStart c = false)
    (ha : before.getLast? = some '-' → after.head? ≠ some '>') :
    rewritten (before ++ after) = rewritten before ++ rewritten after := by
  rw [rewritten, dropSigils_append hs]
  apply pointArrows_append
  rw [getLast?_dropSigils]
  intro hl hh
  rcases mem_head?_dropSigils hh with hh | hname
  · exact ha hl hh
  · exact absurd hname (by decide)

/-- Characters that belong to no sigil and no arrow and to nothing that a sigil stands before. -/
structure IsApart (c : Char) : Prop where
  sigil : c ≠ '$'
  shaft : c ≠ '-'
  point : c ≠ '>'
  name : isNameStart c = false

theorem IsApart.rewritten_cons (h : IsApart c) (text : Text) :
    rewritten (c :: text) = c :: rewritten text := by
  rw [rewritten, dropSigils_cons h.sigil, pointArrows_cons h.shaft]
  rfl

theorem IsApart.rewritten_append_cons (h : IsApart c) (before after : Text) :
    rewritten (before ++ c :: after) = rewritten before ++ c :: rewritten after := by
  rw [rewritten_append, h.rewritten_cons]
  · rintro - d ⟨⟩
    exact h.name
  · rintro - ⟨⟩
    exact h.point rfl

theorem isApart_of_isBlank (h : Text.isBlank c = true) : IsApart c := by
  have hne {d : Char} (hd : Text.isBlank d = false) : c ≠ d := by
    rintro rfl
    rw [h] at hd
    contradiction
  exact ⟨hne (by decide), hne (by decide), hne (by decide), Attribute.isNameStart_of_isBlank h⟩

theorem rewritten_append_of_blank (h : ∀ c ∈ before, Text.isBlank c = true) (text : Text) :
    rewritten (before ++ text) = before ++ rewritten text := by
  induction before with
  | nil => rfl
  | cons c before ih =>
    obtain ⟨hc, hb⟩ := List.forall_mem_cons.1 h
    rw [List.cons_append, (isApart_of_isBlank hc).rewritten_cons, ih hb, List.cons_append]

theorem rewritten_append_blank (text : Text) (h : ∀ c ∈ after, Text.isBlank c = true) :
    rewritten (text ++ after) = rewritten text ++ after := by
  cases after with
  | nil => rw [List.append_nil, List.append_nil]
  | cons c after =>
    obtain ⟨hc, ha⟩ := List.forall_mem_cons.1 h
    have hblanks : rewritten (after ++ []) = after ++ [] := rewritten_append_of_blank ha []
    rw [List.append_nil] at hblanks
    rw [(isApart_of_isBlank hc).rewritten_append_cons, hblanks]

theorem toTarget_strip (text : Text) : toTarget (Text.strip text) = toTarget text := by
  rw [toTarget, Text.strip_strip]
  rfl

theorem toTarget_eq_strip (text : Text) : toTarget text = Text.strip (rewritten text) := by
  obtain ⟨before, after, htext, hb, ha⟩ := Text.exists_around_strip text
  have hrewritten : rewritten text = before ++ toTarget text ++ after := by
    conv_lhs => rw [htext]
    rw [rewritten_append_of_blank hb, rewritten_append_blank _ ha, ← List.append_assoc]
    rfl
  have hpoint : Text.isBlank '.' = false := by decide
  rw [hrewritten]
  refine (Text.strip_between hb ha ?_ ?_).symm
  · intro c hc
    rcases mem_head?_pointArrows hc with hc | rfl
    · rcases mem_head?_dropSigils hc with hc | hc
      · exact Text.isBlank_of_mem_head?_strip hc
      · exact Attribute.isBlank_of_isNameStart hc
    · exact hpoint
  · intro c hc
    rcases mem_getLast?_pointArrows hc with hc | rfl
    · rw [getLast?_dropSigils] at hc
      exact Text.isBlank_of_mem_getLast?_strip hc
    · exact hpoint

/-- Text without a dollar sign before the beginning of a name and without an arrow. -/
structure IsInert (text : Text) : Prop where
  sigil : ∀ c, isNameStart c = true → ¬ ['$', c] <:+: text
  arrow : ¬ ("->" : Text) <:+: text

theorem ink_dropSigils_le (text : Text) : Text.ink (dropSigils text) ≤ Text.ink text := by
  induction text using dropSigils.induct with
  | case1 d text hd ih =>
    rw [dropSigils, if_pos hd, Text.ink_cons '$']
    exact Nat.le_add_right_of_le ih
  | case2 d text hd ih =>
    rw [dropSigils, if_neg hd, Text.ink_cons '$', Text.ink_cons '$']
    exact Nat.add_le_add_right ih _
  | case3 d text hd ih =>
    rw [dropSigils, Text.ink_cons, Text.ink_cons]
    · exact Nat.add_le_add_right ih _
    · exact hd
  | case4 => exact Nat.le_refl _

theorem dropSigils_eq_self_of_ink (h : Text.ink text ≤ Text.ink (dropSigils text)) :
    dropSigils text = text := by
  induction text using dropSigils.induct with
  | case1 d text hd ih =>
    have hle := ink_dropSigils_le (d :: text)
    rw [dropSigils, if_pos hd, Text.ink_cons '$', if_neg (by decide)] at h
    omega
  | case2 d text hd ih =>
    rw [dropSigils, if_neg hd, Text.ink_cons '$', Text.ink_cons '$'] at h
    rw [dropSigils, if_neg hd, ih (Nat.le_of_add_le_add_right h)]
  | case3 d text hd ih =>
    have hcons : dropSigils (d :: text) = d :: dropSigils text := by
      rw [dropSigils]
      exact hd
    rw [hcons, Text.ink_cons, Text.ink_cons] at h
    rw [hcons, ih (Nat.le_of_add_le_add_right h)]
  | case4 => rfl

theorem ink_pointArrows_le (text : Text) : Text.ink (pointArrows text) ≤ Text.ink text := by
  induction text using pointArrows.induct with
  | case1 text ih =>
    rw [pointArrows, Text.ink_cons, Text.ink_cons, Text.ink_cons]
    exact Nat.add_le_add (Nat.le_add_right_of_le ih) (Nat.le_refl 1)
  | case2 d text hd ih =>
    rw [pointArrows, Text.ink_cons, Text.ink_cons]
    · exact Nat.add_le_add_right ih _
    · exact hd
  | case3 => exact Nat.le_refl _

theorem pointArrows_eq_self_of_ink (h : Text.ink text ≤ Text.ink (pointArrows text)) :
    pointArrows text = text := by
  induction text using pointArrows.induct with
  | case1 text ih =>
    have hle := ink_pointArrows_le text
    rw [pointArrows, Text.ink_cons, Text.ink_cons, Text.ink_cons, if_neg (by decide),
      if_neg (by decide), if_neg (by decide)] at h
    omega
  | case2 d text hd ih =>
    have hcons : pointArrows (d :: text) = d :: pointArrows text := by
      rw [pointArrows]
      exact hd
    rw [hcons, Text.ink_cons, Text.ink_cons] at h
    rw [hcons, ih (Nat.le_of_add_le_add_right h)]
  | case3 => rfl

theorem ink_rewritten_le (text : Text) : Text.ink (rewritten text) ≤ Text.ink text :=
  Nat.le_trans (ink_pointArrows_le _) (ink_dropSigils_le text)

theorem rewritten_eq_self_of_ink (h : Text.ink text ≤ Text.ink (rewritten text)) :
    rewritten text = text := by
  have hsigils := dropSigils_eq_self_of_ink (Nat.le_trans h (ink_pointArrows_le _))
  rw [rewritten, hsigils] at h ⊢
  exact pointArrows_eq_self_of_ink h

theorem dropSigils_eq_self_iff :
    dropSigils text = text ↔ ∀ c, isNameStart c = true → ¬ ['$', c] <:+: text := by
  induction text using dropSigils.induct with
  | case1 d text hd ih =>
    constructor
    · intro h
      have hle := ink_dropSigils_le (d :: text)
      have hink := congrArg Text.ink h
      rw [dropSigils, if_pos hd, Text.ink_cons '$', if_neg (by decide)] at hink
      omega
    · intro h
      exact absurd ⟨[], text, rfl⟩ (h d hd)
  | case2 d text hd ih =>
    rw [dropSigils, if_neg hd, List.cons_inj_right, ih]
    refine forall_congr' fun c => imp_congr_right fun hc => not_congr ?_
    refine ((or_iff_right ?_).symm).trans List.infix_cons_iff.symm
    rintro ⟨rest, he⟩
    obtain ⟨-, he⟩ := List.cons.inj he
    obtain ⟨rfl, -⟩ := List.cons.inj he
    exact hd hc
  | case3 d text hd ih =>
    have hcons : dropSigils (d :: text) = d :: dropSigils text := by
      rw [dropSigils]
      exact hd
    rw [hcons, List.cons_inj_right, ih]
    refine forall_congr' fun c => imp_congr_right fun hc => not_congr ?_
    refine ((or_iff_right ?_).symm).trans List.infix_cons_iff.symm
    rintro ⟨rest, he⟩
    obtain ⟨rfl, rfl⟩ := List.cons.inj he
    exact hd c rest rfl rfl
  | case4 => simp [dropSigils]

theorem pointArrows_eq_self_iff : pointArrows text = text ↔ ¬ ("->" : Text) <:+: text := by
  induction text using pointArrows.induct with
  | case1 text ih =>
    constructor
    · intro h
      have hle := ink_pointArrows_le text
      have hink := congrArg Text.ink h
      rw [pointArrows, Text.ink_cons, Text.ink_cons, Text.ink_cons, if_neg (by decide),
        if_neg (by decide), if_neg (by decide)] at hink
      omega
    · intro h
      exact absurd ⟨[], text, rfl⟩ h
  | case2 d text hd ih =>
    have hcons : pointArrows (d :: text) = d :: pointArrows text := by
      rw [pointArrows]
      exact hd
    rw [hcons, List.cons_inj_right, ih, List.infix_cons_iff]
    refine not_congr (or_iff_right ?_).symm
    rintro ⟨rest, he⟩
    obtain ⟨rfl, rfl⟩ := List.cons.inj he
    exact hd rest rfl rfl
  | case3 => simp [pointArrows]

theorem rewritten_eq_self_iff : rewritten text = text ↔ IsInert text := by
  constructor
  · intro h
    have hsigils : dropSigils text = text := by
      apply dropSigils_eq_self_of_ink
      have hle := ink_pointArrows_le (dropSigils text)
      have hink := congrArg Text.ink h
      rw [rewritten] at hink
      omega
    rw [rewritten, hsigils] at h
    exact ⟨dropSigils_eq_self_iff.1 hsigils, pointArrows_eq_self_iff.1 h⟩
  · intro h
    rw [rewritten, dropSigils_eq_self_iff.2 h.sigil, pointArrows_eq_self_iff.2 h.arrow]

end Expression

end ThemeMarkup
