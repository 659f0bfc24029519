import Mathlib.Logic.Relation
import ThemeMarkup.Proofs.Except
import ThemeMarkup.Proofs.Store

namespace ThemeMarkup.Store

variable {store wider written : Store} {path : Path} {here location next : Location} {file : File}
  {names parts : List Text}

/-- Stores whose files and directories form a tree. -/
structure IsTree (store : Store) : Prop where
  settled : store.IsSettled
  home : store.isDirectoryAt store.workingDirectory = true
  directories : ∀ location, store.isDirectoryAt location = true →
    store.isDirectoryAt location.dropLast = true
  nodup : (store.files.map Prod.fst).Nodup
  files : ∀ location, (store.file? location).isSome = true →
    store.isDirectoryAt location.dropLast = true ∧ store.isDirectoryAt location = false ∧
      ['.', '.'] ∉ location

theorem isTree_empty : IsTree {} where
  settled := List.not_mem_nil
  home := rfl
  directories := by
    intro location h
    simp only [isDirectoryAt, List.contains_nil, Bool.or_false, decide_eq_true_eq] at h
    subst h
    rfl
  nodup := List.nodup_nil
  files := nofun

theorem isDirectoryAt_cons (next : Location) :
    ({ store with directories := next :: store.directories } : Store).isDirectoryAt location =
      true ↔
      location = next ∨ store.isDirectoryAt location = true := by
  simp only [isDirectoryAt, List.contains_cons, Bool.or_eq_true, decide_eq_true_eq, beq_iff_eq]
  tauto

namespace IsTree

theorem addDirectory (h : store.IsTree) (hp : store.isDirectoryAt next.dropLast = true)
    (hf : (store.file? next).isSome = false) :
    IsTree { store with directories := next :: store.directories } where
  settled := h.settled
  home := (isDirectoryAt_cons next).2 (.inr h.home)
  directories := by
    intro location hl
    apply (isDirectoryAt_cons next).2
    rcases (isDirectoryAt_cons next).1 hl with rfl | hl
    · exact .inr hp
    · exact .inr (h.directories location hl)
  nodup := h.nodup
  files := by
    intro location hl
    obtain ⟨hparent, hapart, hdots⟩ := h.files location hl
    refine ⟨(isDirectoryAt_cons next).2 (.inr hparent), ?_, hdots⟩
    apply Bool.eq_false_iff.2
    intro hdir
    rcases (isDirectoryAt_cons next).1 hdir with rfl | hdir
    · exact Bool.eq_false_iff.1 hf hl
    · exact Bool.eq_false_iff.1 hapart hdir

theorem makeAlong (h : store.IsTree) (hd : store.isDirectoryAt here = true)
    (hm : Store.makeAlong path store here parts = .ok wider) : wider.IsTree := by
  induction parts generalizing store here with
  | nil =>
    cases hm
    exact h
  | cons part parts ih =>
    have hparent : store.isDirectoryAt (follow here part).dropLast = true := by
      rw [follow]
      split
      · exact h.directories _ (h.directories _ hd)
      · rw [List.dropLast_concat]
        exact hd
    rw [Store.makeAlong] at hm
    rw [follow] at hparent
    generalize (if part = ['.', '.'] then here.dropLast else here ++ [part]) = next at hm hparent
    split at hm
    · next hnext => exact ih h hnext hm
    · split at hm
      · contradiction
      · next hfile =>
        have hwider := h.addDirectory hparent (Bool.eq_false_iff.2 hfile)
        exact ih hwider ((isDirectoryAt_cons next).2 (.inl rfl)) hm

theorem isDirectoryAt_base (h : store.IsTree) (path : Path) :
    store.isDirectoryAt (store.base path) = true := by
  rw [base]
  split
  · rfl
  · exact h.home

theorem makeDirectory (h : store.IsTree) (hm : store.makeDirectory path = .ok wider) :
    wider.IsTree :=
  h.makeAlong (h.isDirectoryAt_base path) hm

theorem walk (h : store.IsTree) (hd : store.isDirectoryAt here.dropLast = true)
    (hs : ['.', '.'] ∉ here) (hw : store.walk here parts = some location) :
    store.isDirectoryAt location.dropLast = true ∧ ['.', '.'] ∉ location := by
  induction parts generalizing here with
  | nil =>
    cases hw
    exact ⟨hd, hs⟩
  | cons part parts ih =>
    rw [Store.walk] at hw
    split at hw
    · next hhere =>
      change store.walk (follow here part) parts = some location at hw
      rw [follow] at hw
      split at hw
      · exact ih (h.directories _ hd) (fun hm => hs (List.mem_of_mem_dropLast hm)) hw
      · next hpart =>
        apply ih _ _ hw
        · rw [List.dropLast_concat]
          exact hhere
        · intro hm
          rcases List.mem_append.1 hm with hm | hm
          · exact hs hm
          · exact hpart (List.mem_singleton.1 hm).symm
    · contradiction

theorem locate? (h : store.IsTree) (hl : store.locate? path = some location) :
    store.isDirectoryAt location.dropLast = true ∧ ['.', '.'] ∉ location := by
  apply h.walk (h.directories _ (h.isDirectoryAt_base path)) _ hl
  rw [base]
  split
  · exact List.not_mem_nil
  · exact h.settled

theorem write (h : store.IsTree) (hw : store.write path file = .ok written) : written.IsTree := by
  rw [Store.write] at hw
  obtain ⟨wider, hm, hw⟩ := Except.bind_eq_ok_iff.1 hw
  have hwide := h.makeDirectory hm
  split at hw
  · contradiction
  · next location hl =>
    split at hw
    · contradiction
    · next hdir =>
      cases hw
      obtain ⟨hparent, hdots⟩ := hwide.locate? hl
      refine ⟨hwide.settled, hwide.home, hwide.directories, nodup_keys_setEntry hwide.nodup, ?_⟩
      intro other ho
      rw [file?, lookup_setEntry] at ho
      split at ho
      · next he =>
        rw [eq_of_beq he]
        exact ⟨hparent, Bool.eq_false_iff.2 hdir, hdots⟩
      · exact hwide.files other ho

theorem remove (h : store.IsTree) (hr : store.remove path = .ok written) : written.IsTree := by
  rw [Store.remove] at hr
  obtain ⟨file, -, hr⟩ := Except.bind_eq_ok_iff.1 hr
  cases hr
  refine ⟨h.settled, h.home, h.directories, ?_, ?_⟩
  · exact h.nodup.sublist (List.Sublist.map _ List.filter_sublist)
  · intro location hl
    rw [file?, lookup_filter_key fun location => decide (some location ≠ store.locate? path)] at hl
    split at hl
    · exact h.files location hl
    · contradiction

theorem touch {modified : Int} (h : store.IsTree) (ht : store.touch path modified = .ok written) :
    written.IsTree := by
  rw [Store.touch] at ht
  split at ht
  · exact h.write ht
  · cases ht
    exact ⟨h.settled, h.home, h.directories, h.nodup, h.files⟩
  · contradiction

end IsTree

inductive Changes : Store → Store → Prop where
  | makeDirectory {store after : Store} {path : Path} (h : store.makeDirectory path = .ok after) :
      Changes store after
  | write {store after : Store} {path : Path} {file : File}
    (h : store.write path file = .ok after) :
      Changes store after
  | remove {store after : Store} {path : Path} (h : store.remove path = .ok after) :
    Changes store after
  | touch {store after : Store} {path : Path} {modified : Int}
      (h : store.touch path modified = .ok after) : Changes store after

theorem IsTree.changes {after : Store} (h : store.IsTree) (hc : Changes store after) :
    after.IsTree := by
  cases hc with
  | makeDirectory hm => exact h.makeDirectory hm
  | write hw => exact h.write hw
  | remove hr => exact h.remove hr
  | touch ht => exact h.touch ht

theorem IsTree.run {after : Store} (h : store.IsTree)
    (hr : Relation.ReflTransGen Changes store after) :
    after.IsTree := by
  induction hr with
  | refl => exact h
  | tail _ hc ih => exact ih.changes hc

theorem run_of_writes {entries : List (Path × File)}
    (h : entries.foldlM (fun store entry => store.write entry.1 entry.2) store = .ok written) :
    Relation.ReflTransGen Changes store written := by
  induction entries generalizing store with
  | nil =>
    cases h
    exact .refl
  | cons entry entries ih =>
    rw [List.foldlM_cons] at h
    obtain ⟨after, hw, h⟩ := Except.bind_eq_ok_iff.1 h
    exact .head (.write hw) (ih h)

theorem walk_append (here : Location) (parts names : List Text) :
    store.walk here (parts ++ names) = (store.walk here parts).bind fun location =>
      store.walk location names := by
  induction parts generalizing here with
  | nil => rfl
  | cons part parts ih =>
    rw [List.cons_append, walk, walk]
    split
    · exact ih _
    · rfl

theorem locate?_join (directory : Path) (names : List Text) :
    store.locate? (directory.join ⟨[], names⟩) = (store.locate? directory).bind fun location =>
      store.walk location names :=
  walk_append (store.base directory) directory.parts names

theorem eq_append_of_walk (hn : ['.', '.'] ∉ names) (h : store.walk here names = some location) :
    location = here ++ names := by
  rw [eq_foldl_of_walk h, foldl_follow_of_not_mem hn]

theorem isSome_file?_iff :
    (store.file? location).isSome = true ↔ location ∈ store.files.map Prod.fst := by
  simp only [file?, List.lookup_isSome_iff, List.mem_map, beq_iff_eq]
  exact exists_congr fun entry => and_congr_right fun _ => eq_comm

theorem mem_filesUnder_iff :
    names ∈ store.filesUnder location ↔ (store.file? (location ++ names)).isSome = true := by
  simp only [isSome_file?_iff, filesUnder, List.mem_filterMap, List.mem_map,
    List.isPrefixOf?_eq_some_iff_append_eq]
  exact exists_congr fun entry => and_congr_right fun _ => eq_comm

namespace IsTree

theorem isDirectoryAt_of_append (h : store.IsTree) (more : List Text)
    (hd : store.isDirectoryAt (location ++ more) = true) : store.isDirectoryAt location = true := by
  induction more using List.reverseRecOn with
  | nil => rwa [List.append_nil] at hd
  | append_singleton more name ih =>
    have hparent := h.directories _ hd
    rw [← List.append_assoc, List.dropLast_concat] at hparent
    exact ih hparent

theorem walk_eq (h : store.IsTree) (hf : (store.file? (location ++ names)).isSome = true) :
    store.walk location names = some (location ++ names) := by
  have hdots := (h.files _ hf).2.2
  induction names generalizing location with
  | nil =>
    rw [List.append_nil]
    rfl
  | cons name names ih =>
    have hname : name ≠ ['.', '.'] := by
      rintro rfl
      exact hdots (List.mem_append_right _ List.mem_cons_self)
    have hdir : store.isDirectoryAt location = true := by
      have hparent := (h.files _ hf).1
      rw [List.dropLast_append_of_ne_nil (List.cons_ne_nil _ _)] at hparent
      exact h.isDirectoryAt_of_append _ hparent
    have hsplit : location ++ name :: names = (location ++ [name]) ++ names := by
      rw [List.append_assoc, List.singleton_append]
    rw [hsplit] at hf hdots ⊢
    rw [Store.walk, if_pos hdir, if_neg hname]
    exact ih hf hdots

theorem nodup_filesUnder (h : store.IsTree) (location : Location) :
    (store.filesUnder location).Nodup := by
  have hpairs : store.files.Pairwise fun entry other => entry.1 ≠ other.1 :=
    List.pairwise_map.1 h.nodup
  apply hpairs.filterMap
  intro entry other hne names hn names' hn' he
  rw [List.isPrefixOf?_eq_some_iff_append_eq] at hn hn'
  exact hne (hn.symm.trans (he ▸ hn'))

end IsTree

end ThemeMarkup.Store
