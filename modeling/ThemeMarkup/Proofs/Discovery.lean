import Mathlib
import ThemeMarkup.Discovery
import ThemeMarkup.Proofs.Directory
import ThemeMarkup.Proofs.Path
import ThemeMarkup.Proofs.Text.Search

namespace ThemeMarkup

namespace Glob

variable {suffix name : Text} {parts : List Part}

/-- Text in which no character stands for others. -/
structure IsLiteral (suffix : Text) : Prop where
  star : '*' ∉ suffix
  mark : '?' ∉ suffix
  bracket : '[' ∉ suffix

theorem parse_of_isLiteral (h : IsLiteral suffix) : parse suffix = suffix.map .char := by
  induction suffix with
  | nil =>
    rw [parse]
    rfl
  | cons c suffix ih =>
    obtain ⟨hstar, hs⟩ := List.ne_and_not_mem_of_not_mem_cons h.star
    obtain ⟨hmark, hm⟩ := List.ne_and_not_mem_of_not_mem_cons h.mark
    obtain ⟨hbracket, hb⟩ := List.ne_and_not_mem_of_not_mem_cons h.bracket
    rw [parse, ih ⟨hs, hm, hb⟩]
    · rfl
    · exact hstar.symm
    · exact hmark.symm
    · exact hbracket.symm

theorem fits_map_char : fits (suffix.map .char) name = true ↔ name = suffix := by
  induction suffix generalizing name with
  | nil =>
    rw [List.map_nil, fits]
    exact List.isEmpty_iff
  | cons c suffix ih =>
    cases name with
    | nil =>
      rw [List.map_cons, fits]
      · simp
      · simp
    | cons d name =>
      rw [List.map_cons, fits, Bool.and_eq_true_iff, decide_eq_true_iff, ih, List.cons.injEq]

theorem fits_anyText_iff : fits (.anyText :: parts) name = true ↔
    ∃ ending, ending <:+ name ∧ fits parts ending = true := by
  induction name with
  | nil =>
    rw [fits]
    simp
  | cons c name ih =>
    rw [fits, Bool.or_eq_true_iff, ih]
    simp only [List.suffix_cons_iff]
    constructor
    · rintro (h | ⟨ending, he, h⟩)
      · exact ⟨_, .inl rfl, h⟩
      · exact ⟨ending, .inr he, h⟩
    · rintro ⟨ending, rfl | he, h⟩
      · exact .inl h
      · exact .inr ⟨ending, he, h⟩

theorem fits_parse_star_iff (h : IsLiteral suffix) :
    fits (parse ('*' :: suffix)) name = true ↔ suffix <:+ name := by
  rw [parse, parse_of_isLiteral h, fits_anyText_iff]
  simp only [fits_map_char, exists_eq_right]

end Glob

namespace Discovery

variable {suffix : Text} {names : List Text} {parts : List Glob.Part}

theorem pattern?_of_isLiteral (h : Glob.IsLiteral suffix) (hs : '/' ∉ suffix) :
    pattern? suffix = some [.anywhere, .name (Glob.parse ('*' :: suffix))] := by
  have hpath : (Path.ofText ('*' :: suffix)).parts = ['*' :: suffix] := by
    apply Path.parts_of_not_mem
    · intro hm
      exact hs ((List.mem_cons.1 hm).resolve_left (by decide))
    · exact List.cons_ne_nil _ _
    · intro he
      exact absurd (List.cons.inj he).1 (by decide)
  have hstar := h.star
  have hone : '*' :: suffix ≠ ['*', '*'] := by
    intro he
    exact hstar ((List.cons.inj he).2 ▸ List.mem_cons_self)
  have htwo : (Text.find? ['*', '*'] ('*' :: suffix)).isSome = false := by
    rw [Text.find?, Option.isSome_map, Bool.eq_false_iff]
    intro hsome
    have hcount := (Text.isSome_cut?_iff.1 hsome).sublist.count_le '*'
    rw [List.count_cons_self (l := suffix), List.count_eq_zero.2 hstar] at hcount
    exact absurd hcount (by decide)
  have hstep : Step.ofText? ('*' :: suffix) = some (.name (Glob.parse ('*' :: suffix))) := by
    rw [Step.ofText?, if_neg hone, htwo]
    rfl
  rw [pattern?, hpath, List.mapM_cons, hstep]
  rfl

theorem leadsTo_anywhere_iff : leadsTo [.anywhere, .name parts] names = true ↔
    ∃ name, names.getLast? = some name ∧ Glob.fits parts name = true := by
  induction names with
  | nil =>
    rw [leadsTo]
    simp
  | cons name names ih =>
    rw [leadsTo, Bool.or_eq_true_iff, ih, leadsTo, Bool.and_eq_true_iff]
    cases names with
    | nil =>
      simp [leadsTo]
    | cons other names =>
      simp [leadsTo, List.getLast?_cons_cons]

end Discovery

theorem Text.le_iff {text other : Text} : Text.le text other = true ↔ ¬ other < text := by
  induction text generalizing other with
  | nil =>
    rw [Text.le]
    exact iff_of_true rfl (List.not_lt_nil other)
  | cons c text ih =>
    cases other with
    | nil =>
      rw [Text.le]
      exact iff_of_false Bool.false_ne_true (not_not_intro (List.nil_lt_cons c text))
    | cons d other =>
      rw [Text.le, List.cons_lt_cons_iff]
      by_cases hc : c = d
      · rw [if_pos hc, ih, hc]
        simp
      · rw [if_neg hc, decide_eq_true_iff, or_iff_left fun h => hc h.1.symm, not_lt]
        exact (le_iff_lt_or_eq.trans (or_iff_left hc)).symm

namespace Path

theorem namesLe_iff {names others : List Text} :
    namesLe names others = true ↔ ¬ others < names := by
  induction names generalizing others with
  | nil =>
    rw [namesLe]
    exact iff_of_true rfl (List.not_lt_nil others)
  | cons name names ih =>
    cases others with
    | nil =>
      rw [namesLe]
      exact iff_of_false Bool.false_ne_true (not_not_intro (List.nil_lt_cons name names))
    | cons other others =>
      rw [namesLe, List.cons_lt_cons_iff]
      by_cases hn : name = other
      · rw [if_pos hn, ih, hn]
        simp
      · rw [if_neg hn, Text.le_iff, or_iff_left fun h => hn h.1.symm]

theorem le_iff {path other : Path} :
    path.le other = true ↔ ¬ other.root :: other.parts < path.root :: path.parts :=
  namesLe_iff

theorem pairwise_mergeSort (paths : List Path) :
    (paths.mergeSort le).Pairwise fun path other => path.le other = true := by
  apply List.pairwise_mergeSort
  · intro a b c hab hbc
    rw [le_iff, not_lt] at hab hbc ⊢
    exact le_trans hab hbc
  · intro a b
    rw [Bool.or_eq_true_iff, le_iff, le_iff, not_lt, not_lt]
    exact le_total _ _

end Path

namespace Discovery

variable {store : Store} {directory path : Path} {location : Location} {suffix : Text}
  {exclude names : List Text}

/-- The names that lead from a directory to a theme file. -/
structure IsTheme (suffix : Text) (exclude names : List Text) : Prop where
  last : ∃ name, names.getLast? = some name ∧ suffix <:+ name
  apart : ∀ name ∈ names.dropLast, name ∉ exclude

theorem isTheme_iff (h : Glob.IsLiteral suffix) :
    (leadsTo [.anywhere, .name (Glob.parse ('*' :: suffix))] names && !isExcluded exclude names) =
      true ↔
      IsTheme suffix exclude names := by
  rw [Bool.and_eq_true_iff, leadsTo_anywhere_iff, isExcluded, Bool.not_eq_true']
  simp only [Glob.fits_parse_star_iff h, List.any_eq_false, List.contains_iff_mem]
  exact ⟨fun ⟨hl, ha⟩ => ⟨hl, ha⟩, fun ⟨hl, ha⟩ => ⟨hl, ha⟩⟩

theorem isFile_join_iff (ht : store.IsTree) (hl : store.locate? directory = some location)
    (hn : ['.', '.'] ∉ names) :
    store.isFile (directory.join ⟨[], names⟩) = true ↔
      (store.file? (location ++ names)).isSome = true := by
  rw [Store.isFile, Store.fileAt?, Store.locate?_join, hl, Option.bind_some]
  constructor
  · intro h
    cases hw : store.walk location names with
    | none =>
      rw [hw] at h
      contradiction
    | some there =>
      rw [hw, Option.bind_some, Store.eq_append_of_walk hn hw] at h
      exact h
  · intro h
    rw [ht.walk_eq h]
    exact h

theorem mem_filesOf_iff (ht : store.IsTree) (h : Glob.IsLiteral suffix) :
    path ∈ filesOf store directory [.anywhere, .name (Glob.parse ('*' :: suffix))] exclude ↔
      ∃ names, ['.', '.'] ∉ names ∧ path = directory.join ⟨[], names⟩ ∧ store.isFile path = true ∧
        IsTheme suffix exclude names := by
  rw [filesOf]
  cases hl : store.locate? directory with
  | none =>
    refine iff_of_false List.not_mem_nil ?_
    rintro ⟨names, -, rfl, hfile, -⟩
    rw [Store.isFile, Store.fileAt?, Store.locate?_join, hl] at hfile
    contradiction
  | some location =>
    simp only [List.mem_mergeSort, List.mem_map, List.mem_filter, isTheme_iff h,
      Store.mem_filesUnder_iff]
    constructor
    · rintro ⟨names, ⟨hfile, htheme⟩, rfl⟩
      have hn : ['.', '.'] ∉ names := fun hm => (ht.files _ hfile).2.2 (List.mem_append_right _ hm)
      exact ⟨names, hn, rfl, (isFile_join_iff ht hl hn).2 hfile, htheme⟩
    · rintro ⟨names, hn, rfl, hfile, htheme⟩
      exact ⟨names, ⟨(isFile_join_iff ht hl hn).1 hfile, htheme⟩, rfl⟩

theorem nodup_filesOf (ht : store.IsTree) (directory : Path) (steps : List Step)
    (exclude : List Text) :
    (filesOf store directory steps exclude).Nodup := by
  rw [filesOf]
  split
  · exact List.nodup_nil
  · next location _ =>
    apply (List.mergeSort_perm _ _).nodup_iff.2
    apply ((ht.nodup_filesUnder location).filter _).map
    intro names others he
    have hroot : (⟨[], names⟩ : Path).root = (⟨[], others⟩ : Path).root := rfl
    exact (Path.join_eq_join_iff hroot).1 he

theorem root_of_mem_filesOf {steps : List Step} (h : path ∈ filesOf store directory steps exclude) :
    path.root = directory.root := by
  rw [filesOf] at h
  split at h
  · contradiction
  · obtain ⟨names, -, rfl⟩ := List.mem_map.1 (List.mem_mergeSort.1 h)
    rfl

theorem pairwise_filesOf (ht : store.IsTree) (directory : Path) (steps : List Step)
    (exclude : List Text) :
    (filesOf store directory steps exclude).Pairwise fun path other =>
      path.parts < other.parts := by
  have hle : (filesOf store directory steps exclude).Pairwise fun path other =>
      path.le other = true := by
    rw [filesOf]
    split
    · exact .nil
    · exact Path.pairwise_mergeSort _
  refine (hle.and (nodup_filesOf ht directory steps exclude)).imp_of_mem ?_
  rintro path other hp ho ⟨hle, hne⟩
  have hroot := (root_of_mem_filesOf hp).trans (root_of_mem_filesOf ho).symm
  have hparts : path.parts ≠ other.parts := by
    intro hparts
    apply hne
    rw [Path.mk.injEq]
    exact ⟨hroot, hparts⟩
  rw [Path.le_iff, hroot, List.cons_lt_cons_iff, or_iff_right (List.lt_irrefl _)] at hle
  exact lt_of_le_of_ne (not_lt.1 fun hlt => hle ⟨rfl, hlt⟩) hparts

/-- In a directory tree the theme files below a directory are found, each once and in the order of
their paths, unless a directory that leads to them from there is excluded. -/
theorem exists_files (ht : store.IsTree) (h : Glob.IsLiteral suffix) (hs : '/' ∉ suffix)
    (directory : Path) (exclude : List Text) :
    ∃ found, files store directory suffix exclude = .ok found ∧
      found.Pairwise (fun path other => path.parts < other.parts) ∧
      ∀ path, path ∈ found ↔ ∃ names, ['.', '.'] ∉ names ∧ path = directory.join ⟨[], names⟩ ∧
        store.isFile path = true ∧ IsTheme suffix exclude names := by
  have hslash : suffix.getLast? ≠ some '/' := fun he => hs (List.mem_of_getLast? he)
  refine ⟨_, ?_, pairwise_filesOf ht directory _ exclude, fun path => mem_filesOf_iff ht h⟩
  rw [files, pattern?_of_isLiteral h hs]
  exact congrArg Except.ok (if_neg hslash)

def sitePaths : List Path :=
  [.ofText "build/site/skip.html", .ofText "build/site/deep/b.html",
    .ofText "build/site/deep/build/c.html", .ofText "build/site/d.html/e.html",
    .ofText "build/site/a.html", .ofText "build/site/a.css", .ofText "build/f.html"]

def siteStore : Store where
  files := sitePaths.map fun path => (path.parts, ⟨[], 0⟩)
  directories := [["build", "site", "d.html"], ["build", "site", "deep", "build"],
    ["build", "site", "deep"], ["build", "site"], ["build"]]

theorem exists_files_site :
    siteStore.IsTree ∧ Glob.IsLiteral ".html" ∧ '/' ∉ (".html" : Text) ∧
      ∃ found, files siteStore (.ofText "build/site") ".html" ["build", "skip.html"] = .ok found ∧
        found.Pairwise (fun path other => path.parts < other.parts) ∧
        (∀ path, path ∈ found ↔ ∃ names, ['.', '.'] ∉ names ∧
          path = (Path.ofText "build/site").join ⟨[], names⟩ ∧ siteStore.isFile path = true ∧
            IsTheme ".html" ["build", "skip.html"] names) ∧
        found = [.ofText "build/site/a.html", .ofText "build/site/d.html/e.html",
          .ofText "build/site/deep/b.html", .ofText "build/site/skip.html"] := by
  have hwrites : (sitePaths.map fun path => (path, (⟨[], 0⟩ : File))).foldlM
      (fun (store : Store) entry => store.write entry.1 entry.2) {} = .ok siteStore := by cbv
  have hfiles : files siteStore (.ofText "build/site") ".html" ["build", "skip.html"] =
      .ok [.ofText "build/site/a.html", .ofText "build/site/d.html/e.html",
        .ofText "build/site/deep/b.html", .ofText "build/site/skip.html"] := by cbv
  have hrun := Store.run_of_writes hwrites
  have htree : siteStore.IsTree := Store.isTree_empty.run hrun
  have hliteral : Glob.IsLiteral ".html" := ⟨by decide, by decide, by decide⟩
  have hslash : '/' ∉ (".html" : Text) := by decide
  obtain ⟨found, hfound, hsorted, hmem⟩ :=
    exists_files htree hliteral hslash (.ofText "build/site") ["build", "skip.html"]
  exact ⟨htree, hliteral, hslash, found, hfound, hsorted, hmem,
    Except.ok.inj (hfound.symm.trans hfiles)⟩

end Discovery

end ThemeMarkup
