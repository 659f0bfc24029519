import Mathlib.Data.List.Forall2

namespace ThemeMarkup

theorem Except.mapM_eq_ok_iff {ε α β : Type} {f : α → Except ε β} {l : List α} {l' : List β} :
    l.mapM f = .ok l' ↔ List.Forall₂ (fun a b => f a = .ok b) l l' := by
  induction l generalizing l' with
  | nil => cases l' <;> simp [pure, Except.pure]
  | cons a l ih =>
    rw [List.mapM_cons]
    constructor
    · intro h
      cases ha : f a with
      | error e =>
        rw [ha] at h
        contradiction
      | ok b =>
        cases hl : l.mapM f with
        | error e =>
          rw [ha, hl] at h
          contradiction
        | ok bs =>
          rw [ha, hl] at h
          rw [← Except.ok.inj h]
          exact .cons ha (ih.1 hl)
    · intro h
      cases h with
      | cons ha hl =>
        rw [ha, ih.2 hl]
        rfl

theorem exists_forall₂ {α β : Type} {R : α → β → Prop} {l : List α} (h : ∀ a ∈ l, ∃ b, R a b) :
    ∃ l', List.Forall₂ R l l' := by
  induction l with
  | nil => exact ⟨[], .nil⟩
  | cons a l ih =>
    obtain ⟨b, hb⟩ := h a List.mem_cons_self
    obtain ⟨l', hl⟩ := ih fun a ha => h a (List.mem_cons_of_mem _ ha)
    exact ⟨b :: l', .cons hb hl⟩

theorem Except.exists_mapM_eq_ok {ε α β : Type} {f : α → Except ε β} {l : List α}
    (h : ∀ a ∈ l, ∃ b, f a = .ok b) : ∃ l', l.mapM f = .ok l' := by
  obtain ⟨l', hl⟩ := exists_forall₂ h
  exact ⟨l', mapM_eq_ok_iff.2 hl⟩

theorem Except.exists_mapM_forall₂_iff {ε α β : Type} {f : α → Except ε β} {R : α → β → Prop}
    {l : List α} :
    (∃ l', l.mapM f = .ok l' ∧ List.Forall₂ R l l') ↔ ∀ a ∈ l, ∃ b, f a = .ok b ∧ R a b := by
  simp only [mapM_eq_ok_iff]
  constructor
  · rintro ⟨l', hf, hr⟩
    induction hf with
    | nil => exact List.forall_mem_nil _
    | cons hfirst _ ih =>
      cases hr with
      | cons hgood hrest => exact List.forall_mem_cons.2 ⟨⟨_, hfirst, hgood⟩, ih hrest⟩
  · intro h
    obtain ⟨l', hboth⟩ := exists_forall₂ h
    exact ⟨l', hboth.imp fun _ _ h => h.1, hboth.imp fun _ _ h => h.2⟩

theorem Except.mapM_eq_error_iff {ε α β : Type} {f : α → Except ε β} {l : List α} {e : ε} :
    l.mapM f = .error e ↔ ∃ before a after, l = before ++ a :: after ∧
      (∀ b ∈ before, ∃ value, f b = .ok value) ∧ f a = .error e := by
  induction l with
  | nil => simp [pure, Except.pure]
  | cons a l ih =>
    rw [List.mapM_cons]
    cases ha : f a with
    | error e' =>
      have hstop : (Except.error e' >>= fun b => l.mapM f >>= fun bs => pure (b :: bs)) = .error e ↔
          e' = e := by simp [bind, Except.bind]
      rw [hstop]
      constructor
      · rintro rfl
        exact ⟨[], a, l, rfl, List.forall_mem_nil _, ha⟩
      · rintro ⟨before, b, after, hl, hbefore, hb⟩
        cases before with
        | nil =>
          obtain ⟨rfl, rfl⟩ := List.cons.inj hl
          exact Except.error.inj (ha.symm.trans hb)
        | cons c before =>
          obtain ⟨rfl, -⟩ := List.cons.inj hl
          obtain ⟨value, hvalue⟩ := hbefore a List.mem_cons_self
          rw [ha] at hvalue
          contradiction
    | ok value =>
      have hrest : (Except.ok value >>= fun b => l.mapM f >>= fun bs => pure (b :: bs)) = .error e ↔
          l.mapM f = .error e := by
        cases l.mapM f <;> simp [bind, Except.bind, pure, Except.pure]
      rw [hrest, ih]
      constructor
      · rintro ⟨before, b, after, rfl, hbefore, hb⟩
        exact ⟨a :: before, b, after, rfl, List.forall_mem_cons.2 ⟨⟨value, ha⟩, hbefore⟩, hb⟩
      · rintro ⟨before, b, after, hl, hbefore, hb⟩
        cases before with
        | nil =>
          obtain ⟨rfl, rfl⟩ := List.cons.inj hl
          rw [ha] at hb
          contradiction
        | cons c before =>
          obtain ⟨rfl, rfl⟩ := List.cons.inj hl
          exact ⟨before, b, after, rfl, (List.forall_mem_cons.1 hbefore).2, hb⟩

theorem Except.bind_eq_ok_iff {ε α β : Type} {r : Except ε α} {f : α → Except ε β} {b : β} :
    r >>= f = .ok b ↔ ∃ a, r = .ok a ∧ f a = .ok b := by
  cases r with
  | error e => simp [bind, Except.bind]
  | ok a => simp [bind, Except.bind]

theorem Except.foldlM_cons_of_ok {ε α β : Type} {f : β → α → Except ε β} {a : α} {b b' : β}
    (h : f b a = .ok b') (l : List α) : (a :: l).foldlM f b = l.foldlM f b' := by
  rw [List.foldlM_cons, h]
  rfl

/-- Whether what a step gives is good or the error that stops it is a known one. -/
def Except.Meets {ε α : Type} (Good : α → Prop) (Bad : ε → Prop) : Except ε α → Prop
  | .ok a => Good a
  | .error e => Bad e

theorem Except.Meets.bind {ε α β : Type} {Good : α → Prop} {Good' : β → Prop} {Bad : ε → Prop}
    {r : Except ε α} {f : α → Except ε β} (h : Meets Good Bad r)
    (hf : ∀ a, Good a → Meets Good' Bad (f a)) : Meets Good' Bad (r >>= f) := by
  cases r with
  | error e => exact h
  | ok a => exact hf a h

def failure? {ε α : Type} : Except ε α → Option ε
  | .ok _ => none
  | .error e => some e

theorem failure?_eq_some_iff {ε α : Type} {r : Except ε α} {e : ε} :
    failure? r = some e ↔ r = .error e := by
  cases r <;> simp [failure?]

theorem failure?_bind {ε α β : Type} {r : Except ε α} {f : α → Except ε β} {after : Option ε}
    (h : ∀ a, r = .ok a → failure? (f a) = after) : failure? (r >>= f) = (failure? r).or after := by
  cases r with
  | error e => rfl
  | ok a => exact h a rfl

theorem exists_of_mem_right {α β : Type} {R : α → β → Prop} {l : List α} {l' : List β}
    (h : List.Forall₂ R l l') {b : β} (hb : b ∈ l') : ∃ a ∈ l, R a b := by
  induction h with
  | nil => contradiction
  | @cons a b' l l' hab _ ih =>
    rcases List.mem_cons.1 hb with rfl | hb
    · exact ⟨a, List.mem_cons_self, hab⟩
    · obtain ⟨a', ha, hr⟩ := ih hb
      exact ⟨a', List.mem_cons_of_mem _ ha, hr⟩

end ThemeMarkup
