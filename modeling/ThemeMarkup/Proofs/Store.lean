import Mathlib.Data.List.Infix
import ThemeMarkup.Proofs.Operation
import ThemeMarkup.Store

namespace ThemeMarkup

namespace Store

variable {store wider written : Store} {path : Path} {location : Location} {file : File}

/-- The location that a path spells, taken from the working directory. -/
def place (store : Store) (path : Path) : Location :=
  (Path.resolve { root := ['/'], parts := store.workingDirectory } path).parts

def IsSettled (store : Store) : Prop :=
  ['.', '.'] ∉ store.workingDirectory

structure Widens (store wider : Store) : Prop where
  files : wider.files = store.files
  workingDirectory : wider.workingDirectory = store.workingDirectory
  directories : store.directories ⊆ wider.directories

theorem Widens.refl (store : Store) : Widens store store :=
  ⟨rfl, rfl, List.Subset.refl _⟩

theorem Widens.trans {widest : Store} (h : Widens store wider) (h' : Widens wider widest) :
    Widens store widest :=
  ⟨h'.files.trans h.files, h'.workingDirectory.trans h.workingDirectory,
    List.Subset.trans h.directories h'.directories⟩

structure Writes (store : Store) (location : Location) (file : File) (written : Store) : Prop where
  file? : ∀ other, written.file? other = if other = location then some file else store.file? other
  workingDirectory : written.workingDirectory = store.workingDirectory
  directories : store.directories ⊆ written.directories

def follow (location : Location) (part : Text) : Location :=
  if part = ['.', '.'] then location.dropLast else location ++ [part]

theorem foldl_follow_of_not_mem {parts : List Text} (h : ['.', '.'] ∉ parts) (location : Location) :
    parts.foldl follow location = location ++ parts := by
  induction parts generalizing location with
  | nil => exact (List.append_nil location).symm
  | cons part parts ih =>
    obtain ⟨hpart, hparts⟩ := List.ne_and_not_mem_of_not_mem_cons h
    rw [List.foldl_cons, ih hparts, follow, if_neg (Ne.symm hpart), List.append_assoc]
    rfl

theorem place_eq_foldl (hs : store.IsSettled) (path : Path) :
    store.place path = path.parts.foldl follow (store.base path) := by
  have hcollapse (parts : List Text) : Path.collapse parts = parts.foldl follow [] := rfl
  rw [place, Path.resolve, hcollapse, base, Path.join]
  split
  · rfl
  · rw [List.foldl_append, foldl_follow_of_not_mem hs]
    rfl

theorem eq_foldl_of_walk {parts : List Text} {here : Location}
    (h : store.walk here parts = some location) : location = parts.foldl follow here := by
  induction parts generalizing here with
  | nil => exact (Option.some.inj h).symm
  | cons part parts ih =>
    rw [walk] at h
    split at h
    · exact ih h
    · contradiction

theorem place_of_locate? (hs : store.IsSettled) (h : store.locate? path = some location) :
    location = store.place path := by
  rw [place_eq_foldl hs]
  exact eq_foldl_of_walk h

theorem walk_mono {parts : List Text} {here : Location} (hd : store.directories ⊆ wider.directories)
    (h : store.walk here parts = some location) : wider.walk here parts = some location := by
  induction parts generalizing here with
  | nil => exact h
  | cons part parts ih =>
    rw [walk] at h ⊢
    split at h
    · next hdir =>
      have hwide : wider.isDirectoryAt here = true := by
        simp only [isDirectoryAt, Bool.or_eq_true, decide_eq_true_eq, List.contains_iff_mem]
          at hdir ⊢
        exact hdir.imp_right fun hm => hd hm
      rw [if_pos hwide]
      exact ih h
    · contradiction

theorem locate?_mono (h : store.locate? path = some location)
    (hw : wider.workingDirectory = store.workingDirectory)
    (hd : store.directories ⊆ wider.directories) : wider.locate? path = some location := by
  rw [locate?, base, hw]
  exact walk_mono hd h

theorem file?_of_find (hs : store.IsSettled) (h : store.find path = .ok file) :
    store.locate? path = some (store.place path) ∧ store.file? (store.place path) = some file := by
  rw [find, fileAt?] at h
  cases hl : store.locate? path with
  | none =>
    rw [hl] at h
    contradiction
  | some location =>
    obtain rfl := place_of_locate? hs hl
    refine ⟨rfl, ?_⟩
    rw [hl, Option.bind_some] at h
    cases hf : store.file? (store.place path) with
    | none =>
      rw [hf] at h
      contradiction
    | some found =>
      rw [hf] at h
      rw [Except.ok.inj h]

theorem find_of_locate? (hl : store.locate? path = some location)
    (hf : store.file? location = some file) : store.find path = .ok file := by
  rw [find, fileAt?, hl, Option.bind_some, hf]

theorem timeOf_of_find (h : store.find path = .ok file) :
    store.timeOf path = .ok file.modified := by
  rw [find] at h
  rw [timeOf]
  split at h
  · next found hfound =>
    obtain rfl := Except.ok.inj h
    rw [hfound]
  · contradiction

theorem timeOf_of_not_present (h : store.present path = false) :
    store.timeOf path = .error (store.absence path) := by
  obtain ⟨hfile, hdirectory⟩ := Bool.or_eq_false_iff.1 h
  rw [isFile, Option.isSome_eq_false_iff, Option.isNone_iff_eq_none] at hfile
  have hnone : (store.locate? path).filter store.isDirectoryAt = none := by
    rw [isDirectory, Option.any_eq_false] at hdirectory
    rw [Option.filter_eq_none_iff]
    intro location hl hd
    rw [hdirectory location hl] at hd
    contradiction
  rw [timeOf, hfile, hnone]

theorem exists_timeOf (h : store.present path = true) : ∃ time, store.timeOf path = .ok time := by
  rw [timeOf]
  split
  · exact ⟨_, rfl⟩
  · exact ⟨_, rfl⟩
  · next hfile hdirectory =>
    rw [present, isFile, hfile, Option.isSome_none, Bool.false_or, isDirectory,
      Option.any_eq_true] at h
    obtain ⟨location, hl, hd⟩ := h
    rw [Option.filter_eq_none_iff] at hdirectory
    exact absurd hd (hdirectory location hl)

theorem exists_find_of_timeOf {time : Int} (hd : store.isDirectory path = false)
    (h : store.timeOf path = .ok time) :
    ∃ file, store.find path = .ok file ∧ file.modified = time := by
  cases hfind : store.find path with
  | ok file => exact ⟨file, rfl, Except.ok.inj ((timeOf_of_find hfind).symm.trans h)⟩
  | error e =>
    have hfile : store.isFile path = false := by
      rw [find] at hfind
      split at hfind
      · contradiction
      · next hnone => rw [isFile, hnone, Option.isSome_none]
    have hnone : store.present path = false := by rw [present, hfile, hd, Bool.or_false]
    rw [timeOf_of_not_present hnone] at h
    contradiction

theorem widens_of_makeAlong {parts : List Text} {here : Location}
    (h : makeAlong path store here parts = .ok wider) : Widens store wider := by
  induction parts generalizing store here with
  | nil =>
    cases h
    exact .refl _
  | cons part parts ih =>
    rw [makeAlong] at h
    generalize (if part = ['.', '.'] then here.dropLast else here ++ [part]) = next at h
    split at h
    · exact ih h
    · split at h
      · contradiction
      · have hadded : Widens store { store with directories := next :: store.directories } :=
          ⟨rfl, rfl, List.subset_cons_self _ _⟩
        exact hadded.trans (ih h)

theorem exists_write (hm : store.makeDirectory path.parent = .ok wider)
    (hl : wider.locate? path = some location) (hd : wider.isDirectoryAt location = false)
    (file : File) : ∃ written, store.write path file = .ok written := by
  refine ⟨{ wider with files := setEntry location file wider.files }, ?_⟩
  rw [write, hm]
  dsimp only [bind, Except.bind]
  rw [hl]
  dsimp only
  rw [hd]
  rfl

/-- Writing a file changes what is at its place and nowhere else, and its path leads there. -/
theorem written_of_write (hs : store.IsSettled) (h : store.write path file = .ok written) :
    store.Writes (store.place path) file written ∧
      written.locate? path = some (store.place path) := by
  rw [write] at h
  cases hm : store.makeDirectory path.parent with
  | error e =>
    rw [hm] at h
    contradiction
  | ok wider =>
    have hwide : Widens store wider := widens_of_makeAlong hm
    have hplace : wider.place path = store.place path := by
      rw [place, place, hwide.workingDirectory]
    have hsettled : wider.IsSettled := by
      rw [IsSettled, hwide.workingDirectory]
      exact hs
    rw [hm] at h
    dsimp only [bind, Except.bind] at h
    split at h
    · contradiction
    · next location hl =>
      obtain rfl : location = store.place path := hplace ▸ place_of_locate? hsettled hl
      split at h
      · contradiction
      · cases h
        refine ⟨⟨?_, hwide.workingDirectory, hwide.directories⟩,
          locate?_mono hl rfl (List.Subset.refl _)⟩
        intro other
        simp only [file?, lookup_setEntry, beq_iff_eq, hwide.files]

namespace Writes

theorem place_eq (h : store.Writes location file written) (path : Path) :
    written.place path = store.place path := by
  rw [place, place, h.workingDirectory]

theorem file?_self (h : store.Writes location file written) :
    written.file? location = some file := by
  rw [h.file?, if_pos rfl]

theorem file?_of_ne {other : Location} (h : store.Writes location file written)
    (hn : other ≠ location) : written.file? other = store.file? other := by
  rw [h.file?, if_neg hn]

end Writes

end Store

end ThemeMarkup
