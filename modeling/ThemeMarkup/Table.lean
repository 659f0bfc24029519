import ThemeMarkup.Text.Basic

namespace ThemeMarkup

section Entries

variable {κ α : Type} [BEq κ] [LawfulBEq κ]

/-- Sets a key in a list of entries: in its place if it is there, else at the end. -/
def setEntry (key : κ) (value : α) : List (κ × α) → List (κ × α)
  | [] => [(key, value)]
  | (k, v) :: entries =>
    if k == key then (key, value) :: entries else (k, v) :: setEntry key value entries

theorem mem_keys_setEntry {key k : κ} {value : α} {entries : List (κ × α)} :
    k ∈ (setEntry key value entries).map Prod.fst ↔ k = key ∨ k ∈ entries.map Prod.fst := by
  induction entries with
  | nil => simp [setEntry]
  | cons entry entries ih =>
    obtain ⟨k', v'⟩ := entry
    simp only [setEntry]
    split
    · next h => simp [eq_of_beq h]
    · simp only [List.map_cons, List.mem_cons, ih]
      grind

theorem nodup_keys_setEntry {key : κ} {value : α} {entries : List (κ × α)}
    (h : (entries.map Prod.fst).Nodup) : ((setEntry key value entries).map Prod.fst).Nodup := by
  induction entries with
  | nil => simp [setEntry]
  | cons entry entries ih =>
    obtain ⟨k', v'⟩ := entry
    simp only [List.map_cons, List.nodup_cons] at h
    simp only [setEntry]
    split
    · next hk => simpa [← eq_of_beq hk] using h
    · next hk =>
      simp only [List.map_cons, List.nodup_cons, mem_keys_setEntry, not_or]
      exact ⟨⟨fun he => hk (beq_of_eq he), h.1⟩, ih h.2⟩

theorem lookup_setEntry {key k : κ} {value : α} {entries : List (κ × α)} :
    (setEntry key value entries).lookup k =
      if k == key then some value else entries.lookup k := by
  induction entries with
  | nil => simp only [setEntry, List.lookup_cons, List.lookup_nil]; grind
  | cons entry entries ih =>
    obtain ⟨k', v'⟩ := entry
    simp only [setEntry]
    split <;> simp only [List.lookup_cons] <;> grind

theorem lookup_filter_key (keep : κ → Bool) (k : κ) (entries : List (κ × α)) :
    (entries.filter fun entry => keep entry.1).lookup k =
      if keep k then entries.lookup k else none := by
  induction entries with
  | nil => simp
  | cons entry entries ih =>
    obtain ⟨k', v'⟩ := entry
    simp only [List.filter_cons, List.lookup_cons]
    split <;> grind

end Entries

/-- Values under distinct names, in the order in which the names were first set. -/
structure Table (α : Type) where
  entries : List (Text × α) := []
  nodup : (entries.map Prod.fst).Nodup := by simp

namespace Table

variable {α β : Type}

instance : EmptyCollection (Table α) := ⟨⟨[], List.nodup_nil⟩⟩

instance : Inhabited (Table α) := ⟨∅⟩

def keys (table : Table α) : List Text :=
  table.entries.map Prod.fst

def get? (table : Table α) (key : Text) : Option α :=
  table.entries.lookup key

def insert (table : Table α) (key : Text) (value : α) : Table α :=
  ⟨setEntry key value table.entries, nodup_keys_setEntry table.nodup⟩

/-- The table of entries set one after the other. -/
def ofList (entries : List (Text × α)) : Table α :=
  entries.foldl (fun table (key, value) => table.insert key value) ∅

@[irreducible]
def union (table other : Table α) : Table α :=
  other.entries.foldl (fun table (key, value) => table.insert key value) table

def erase (table : Table α) (key : Text) : Table α where
  entries := table.entries.filter fun (k, _) => k != key
  nodup := (List.Sublist.map Prod.fst List.filter_sublist).nodup table.nodup

def map (f : α → β) (table : Table α) : Table β where
  entries := table.entries.map fun (key, value) => (key, f value)
  nodup := by
    have h : (table.entries.map fun (key, value) => (key, f value)).map Prod.fst =
        table.entries.map Prod.fst := by simp [Function.comp_def]
    rw [h]
    exact table.nodup

theorem get?_insert (table : Table α) (key k : Text) (value : α) :
    (table.insert key value).get? k = if k = key then some value else table.get? k := by
  simp only [get?, insert, lookup_setEntry, beq_iff_eq]

theorem get?_erase (table : Table α) (key k : Text) :
    (table.erase key).get? k = if k = key then none else table.get? k := by
  simpa [get?, erase] using lookup_filter_key (· != key) k table.entries

end Table

end ThemeMarkup
