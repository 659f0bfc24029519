import ThemeMarkup.Error

namespace ThemeMarkup.Operation

variable {σ ε α β : Type}

@[simp] theorem bind_apply (action : ExceptT ε (StateM σ) α) (next : α → ExceptT ε (StateM σ) β)
    (state : σ) :
    (action >>= next) state =
      match action state with
      | (.ok a, after) => next a after
      | (.error e, after) => (.error e, after) := by
  change (match action state with | (outcome, after) => ExceptT.bindCont next outcome after) = _
  obtain ⟨outcome, after⟩ := action state
  cases outcome <;> rfl

@[simp] theorem pure_apply (a : α) (state : σ) :
    (pure a : ExceptT ε (StateM σ) α) state = (.ok a, state) :=
  rfl

@[simp] theorem throw_apply (e : ε) (state : σ) :
    (throw e : ExceptT ε (StateM σ) α) state = (.error e, state) :=
  rfl

@[simp] theorem get_apply (state : σ) :
    (get : ExceptT ε (StateM σ) σ) state = (.ok state, state) :=
  rfl

@[simp] theorem set_apply (new state : σ) :
    (set new : ExceptT ε (StateM σ) PUnit) state = (.ok ⟨⟩, new) :=
  rfl

@[simp] theorem modify_apply (change : σ → σ) (state : σ) :
    (modify change : ExceptT ε (StateM σ) PUnit) state = (.ok ⟨⟩, change state) :=
  rfl

@[simp] theorem lift_apply (outcome : Except ε α) (state : σ) :
    (liftM outcome : ExceptT ε (StateM σ) α) state = (outcome, state) := by
  cases outcome <;> rfl

theorem exists_of_bind {action : ExceptT ε (StateM σ) α} {next : α → ExceptT ε (StateM σ) β}
    {state : σ} {b : β} (h : ((action >>= next) state).1 = .ok b) :
    ∃ a after, action state = (.ok a, after) ∧ (next a after).1 = .ok b := by
  rw [bind_apply] at h
  split at h
  · next a after ha => exact ⟨a, after, ha, h⟩
  · contradiction

end ThemeMarkup.Operation
