import ThemeMarkup.Table

namespace ThemeMarkup.Table

variable {α : Type} {table : Table α} {key : Text} {value : α} {entries : List (Text × α)}

theorem mem_keys_iff : key ∈ table.keys ↔ (table.get? key).isSome := by
  rw [keys, get?]
  induction table.entries with
  | nil => simp
  | cons entry entries ih =>
    rw [List.map_cons, List.mem_cons, List.lookup_cons, ih]
    cases hk : key == entry.1 with
    | true => simp [eq_of_beq hk]
    | false =>
      have hne : key ≠ entry.1 := by simpa using hk
      simp [hne]

theorem mem_keys_insert {k : Text} : k ∈ (table.insert key value).keys ↔ k = key ∨ k ∈ table.keys :=
  mem_keys_setEntry

theorem mem_keys_foldl_insert (table : Table α) (key : Text) :
    key ∈ (entries.foldl (fun table (key, value) => table.insert key value) table).keys ↔
      key ∈ table.keys ∨ key ∈ entries.map Prod.fst := by
  induction entries generalizing table with
  | nil => simp
  | cons entry entries ih =>
    rw [List.foldl_cons, ih, mem_keys_insert, List.map_cons, List.mem_cons, or_assoc, or_left_comm]

theorem mem_keys_ofList : key ∈ (ofList entries).keys ↔ key ∈ entries.map Prod.fst := by
  rw [ofList, mem_keys_foldl_insert]
  exact or_iff_right (by simp [keys, EmptyCollection.emptyCollection])

theorem get?_foldl_insert (table : Table α) (key : Text) (h : (entries.map Prod.fst).Nodup) :
    (entries.foldl (fun table (key, value) => table.insert key value) table).get? key =
      (entries.lookup key).or (table.get? key) := by
  induction entries generalizing table with
  | nil => rfl
  | cons entry entries ih =>
    obtain ⟨hentry, h⟩ := List.nodup_cons.1 h
    rw [List.foldl_cons, ih _ h, get?_insert, List.lookup_cons]
    by_cases hk : key = entry.1
    · have hnone : entries.lookup key = none := by
        apply List.lookup_eq_none_iff.2
        intro other ho
        apply bne_iff_ne.2
        rintro rfl
        exact hentry (hk ▸ List.mem_map_of_mem ho)
      rw [hnone, if_pos hk, hk, BEq.rfl]
      rfl
    · rw [if_neg hk, beq_false_of_ne hk]

theorem get?_union (table other : Table α) (key : Text) :
    (table.union other).get? key = (other.get? key).or (table.get? key) := by
  rw [union]
  exact get?_foldl_insert table key other.nodup

theorem union_empty (table : Table α) : table.union ∅ = table := by
  rw [union]
  rfl

theorem get?_ofList (h : (entries.map Prod.fst).Nodup) (key : Text) :
    (ofList entries).get? key = entries.lookup key := by
  rw [ofList, get?_foldl_insert ∅ key h]
  exact Option.or_none

theorem entries_insert {table : Table α} (h : key ∉ table.keys) (value : α) :
    (table.insert key value).entries = table.entries ++ [(key, value)] := by
  obtain ⟨entries, hnodup⟩ := table
  change key ∉ entries.map Prod.fst at h
  change setEntry key value entries = entries ++ [(key, value)]
  clear hnodup
  induction entries with
  | nil => rfl
  | cons entry entries ih =>
    rw [List.map_cons, List.mem_cons, not_or] at h
    rw [setEntry, if_neg fun he => h.1 (eq_of_beq he).symm, ih h.2]
    rfl

theorem entries_foldl_insert (table : Table α) (h : (table.keys ++ entries.map Prod.fst).Nodup) :
    (entries.foldl (fun table (key, value) => table.insert key value) table).entries =
      table.entries ++ entries := by
  induction entries generalizing table with
  | nil => exact (List.append_nil _).symm
  | cons entry entries ih =>
    obtain ⟨key, value⟩ := entry
    have hnew : key ∉ table.keys := by
      intro hm
      exact (List.nodup_append.1 h).2.2 key hm key List.mem_cons_self rfl
    have hinsert := entries_insert hnew value
    have hkeys : (table.insert key value).keys = table.keys ++ [key] := by
      rw [keys, hinsert, List.map_append]
      rfl
    rw [List.foldl_cons, ih, hinsert, List.append_assoc]
    · rfl
    · rw [hkeys, List.append_assoc]
      exact h

theorem entries_ofList (h : (entries.map Prod.fst).Nodup) : (ofList entries).entries = entries :=
  entries_foldl_insert ∅ h

theorem get?_map {β : Type} (f : α → β) (table : Table α) (key : Text) :
    (table.map f).get? key = (table.get? key).map f := by
  obtain ⟨entries, hnodup⟩ := table
  change (entries.map fun entry => (entry.1, f entry.2)).lookup key = (entries.lookup key).map f
  clear hnodup
  induction entries with
  | nil => rfl
  | cons entry entries ih =>
    rw [List.map_cons, List.lookup_cons, List.lookup_cons, ih]
    cases key == entry.1 <;> rfl

end ThemeMarkup.Table
