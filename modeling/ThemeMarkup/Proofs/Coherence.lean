import Mathlib.Logic.Relation
import Mathlib.Data.Set.Basic
import ThemeMarkup.Proofs.Cache
import ThemeMarkup.Proofs.Inclusion

namespace ThemeMarkup

namespace Engine

variable {engine : Engine} {template text out : Text} {file : Option Text}

theorem foldlM_runLocated_of_ok {passes : List Pass}
    (h : passes.foldlM (engine.runLocated template file) text = .ok out) (other : Option Text) :
    passes.foldlM (engine.runLocated template other) text = .ok out := by
  induction passes generalizing text with
  | nil => exact h
  | cons pass passes ih =>
    cases hr : engine.runPass pass text with
    | error e =>
      rw [List.foldlM_cons, runLocated, hr] at h
      contradiction
    | ok next =>
      rw [Except.foldlM_cons_of_ok (runLocated_of_ok template file hr)] at h
      rw [Except.foldlM_cons_of_ok (runLocated_of_ok template other hr)]
      exact ih h

theorem compile_of_compile (h : engine.compile template file = .ok out) (other : Option Text) :
    engine.compile template other = .ok out :=
  foldlM_runLocated_of_ok h other

end Engine

namespace View

variable {view : View} {themes : Set Location} {store after : Store} {file cache : Path}

def cacheLocation (view : View) (store : Store) (theme : Location) : Location :=
  let name := Cache.fileName { root := ['/'], parts := theme }
  store.place { view.config.cachePath with parts := view.config.cachePath.parts ++ [name] }

/-- Themes whose paths have digests of their own and that are not in the directory of cache files.
-/
structure Separate (view : View) (store : Store) (themes : Set Location) : Prop where
  settled : store.IsSettled
  digests : ∀ theme ∈ themes, ∀ other ∈ themes,
    Cache.digest theme = Cache.digest other → theme = other
  outside : ∀ theme ∈ themes, ¬ store.place view.config.cachePath <+: theme

/-- Whether a cache file holds a header and what a theme file compiles to. -/
def Holds (view : View) (source cached : File) : Prop :=
  ∃ template compiled stamp, Utf8.decode source.octets = .ok template ∧
    view.engine.compile (Text.unifyLineEnds template) = .ok compiled ∧ Text.IsLine stamp ∧
    cached.octets = Utf8.encode (Cache.headed stamp compiled)

/-- Whether the cache files of themes that are not stale hold what the themes compile to. -/
structure Coherent (view : View) (themes : Set Location) (store : Store) : Prop where
  separate : view.Separate store themes
  holds : ∀ theme ∈ themes, ∀ source cached, store.file? theme = some source →
    store.file? (view.cacheLocation store theme) = some cached →
      cached.modified < source.modified ∨ view.Holds source cached

/-- The steps of a run: a theme file is written, later than its cache file if it has one, or
compiled, at some time that can be shown on one line. -/
inductive Step (view : View) (themes : Set Location) : Store → Store → Prop where
  | write {store written : Store} {path : Path} {text : Text} {modified : Int}
      (theme : store.place path ∈ themes)
      (later : ∀ cached, store.file? (view.cacheLocation store (store.place path)) = some cached →
        cached.modified < modified)
      (writes : store.write path ⟨Utf8.encode text, modified⟩ = .ok written) :
      Step view themes store written
  | compile {store : Store} {file : Path} (clock : Int) {stamp : Text} (line : stamp.IsLine)
      (theme : store.place file ∈ themes) (isFile : store.isFile file = true) :
      Step view themes store (view.compile file { store with clock, stamp }).2

theorem cacheLocation_eq (hs : store.IsSettled) (theme : Location) :
    view.cacheLocation store theme =
      store.place view.config.cachePath ++ [Cache.fileName { root := ['/'], parts := theme }] := by
  let name := Cache.fileName { root := ['/'], parts := theme }
  have hfollow (location : Location) : Store.follow location name = location ++ [name] :=
    if_neg (Cache.fileName_ne_points _)
  rw [cacheLocation, Store.place_eq_foldl hs, Store.place_eq_foldl hs, List.foldl_append]
  exact hfollow _

theorem Separate.theme_ne (h : view.Separate store themes) {theme other : Location}
    (ht : theme ∈ themes) : theme ≠ view.cacheLocation store other := by
  rw [cacheLocation_eq h.settled]
  rintro rfl
  exact h.outside _ ht (List.prefix_append ..)

theorem Separate.cacheLocation_ne (h : view.Separate store themes) {theme other : Location}
    (ht : theme ∈ themes) (ho : other ∈ themes) (hn : theme ≠ other) :
    view.cacheLocation store theme ≠ view.cacheLocation store other := by
  rw [cacheLocation_eq h.settled, cacheLocation_eq h.settled]
  intro he
  have hname := List.head_eq_of_cons_eq (List.append_cancel_left he)
  exact hn (h.digests theme ht other ho (Cache.digest_eq_of_fileName_eq hname))

theorem Separate.of_workingDirectory (h : view.Separate store themes)
    (hw : after.workingDirectory = store.workingDirectory) : view.Separate after themes := by
  have hplace (path : Path) : after.place path = store.place path := by
    rw [Store.place, Store.place, hw]
  refine ⟨?_, h.digests, ?_⟩
  · rw [Store.IsSettled, hw]
    exact h.settled
  · rw [hplace]
    exact h.outside

theorem eq_of_compile_error {e : Error} (h : (view.compile file store).1 = .error e) :
    (view.compile file store).2 = store := by
  have houtcome := view.outcome_compile file store
  generalize view.compile file store = result at houtcome h ⊢
  cases houtcome with
  | failed e => rfl
  | fresh => contradiction
  | renewed => contradiction

theorem file?_compile (hs : store.IsSettled) (view : View) (file : Path) {location : Location}
    (hn : location ≠ store.place (view.cacheOf store file)) :
    (view.compile file store).2.file? location = store.file? location := by
  have houtcome := view.outcome_compile file store
  generalize view.compile file store = result at houtcome ⊢
  cases houtcome with
  | failed e => rfl
  | fresh => rfl
  | renewed renews =>
    obtain ⟨_, _, -, -, -, writes, rfl⟩ := Cache.renewed_eq_ok_iff.1 renews
    obtain ⟨hw, -⟩ := Store.written_of_write hs writes
    exact hw.file?_of_ne hn

theorem decode_of_read {source : File} {template : Text} (hs : store.find file = .ok source)
    (hr : store.read file = .ok template) :
    ∃ text, Utf8.decode source.octets = .ok text ∧ Text.unifyLineEnds text = template := by
  rw [Store.read, Store.readExact, hs] at hr
  simp only [bind, Except.bind] at hr
  cases hd : Utf8.decode source.octets with
  | error fault =>
    rw [hd] at hr
    contradiction
  | ok text =>
    rw [hd] at hr
    exact ⟨text, rfl, Except.ok.inj hr⟩

theorem exists_find_of_read {template : Text} (h : store.read file = .ok template) :
    ∃ source, store.find file = .ok source := by
  cases hs : store.find file with
  | ok source => exact ⟨source, rfl⟩
  | error e =>
    rw [Store.read, Store.readExact, hs] at h
    contradiction

/-- After a theme file was compiled its cache file holds what it compiles to. -/
theorem Coherent.holds_of_compile (h : view.Coherent themes store)
    (ht : store.place file ∈ themes) (hf : store.isDirectory file = false)
    (hd : store.isDirectory (view.cacheOf store file) = false) (hl : store.stamp.IsLine)
    (hc : view.compile file store = (.ok cache, after)) :
    cache = view.cacheOf store file ∧ ∃ source cached, store.find file = .ok source ∧
      after.find cache = .ok cached ∧ view.Holds source cached := by
  have hs := h.separate.settled
  have houtcome := view.outcome_compile file store
  rw [hc] at houtcome
  cases houtcome with
  | fresh caches finds later =>
    obtain ⟨cached, hcached, rfl⟩ := Store.exists_find_of_timeOf hd caches
    obtain ⟨source, hsource, rfl⟩ := Store.exists_find_of_timeOf hf finds
    refine ⟨rfl, source, cached, hsource, hcached, ?_⟩
    have hcached := (Store.file?_of_find hs hcached).2
    have hsource := (Store.file?_of_find hs hsource).2
    exact (h.holds _ ht source cached hsource hcached).resolve_left (Int.not_lt.2 later)
  | @renewed compiled _ renews =>
    obtain ⟨template, written, -, reads, compiles, writes, rfl⟩ :=
      Cache.renewed_eq_ok_iff.1 renews
    obtain ⟨hw, hlocate⟩ := Store.written_of_write hs writes
    obtain ⟨source, hsource⟩ := exists_find_of_read reads
    obtain ⟨text, hd, rfl⟩ := decode_of_read hsource reads
    have hfound : Store.find { written with clock := store.clock + 1 } (view.cacheOf store file) =
        .ok ⟨Utf8.encode (Cache.headed store.stamp compiled), store.clock⟩ :=
      Store.find_of_locate? (Store.locate?_mono hlocate rfl (List.Subset.refl _)) hw.file?_self
    exact ⟨rfl, source, _, hsource, hfound, text, compiled, store.stamp, hd,
      Engine.compile_of_compile compiles none, hl, rfl⟩

theorem Coherent.compile (h : view.Coherent themes store) (ht : store.place file ∈ themes)
    (hl : store.stamp.IsLine) : view.Coherent themes (view.compile file store).2 := by
  have houtcome := view.outcome_compile file store
  generalize view.compile file store = result at houtcome ⊢
  cases houtcome with
  | failed e => exact h
  | fresh => exact h
  | @renewed compiled _ renews =>
    obtain ⟨template, written, -, reads, compiles, writes, rfl⟩ :=
      Cache.renewed_eq_ok_iff.1 renews
    obtain ⟨hw, -⟩ := Store.written_of_write h.separate.settled writes
    have hplace (theme : Location) :
        view.cacheLocation written theme = view.cacheLocation store theme := hw.place_eq _
    refine ⟨h.separate.of_workingDirectory hw.workingDirectory, ?_⟩
    intro theme hm source cached hsource hcached
    change written.file? theme = some source at hsource
    change written.file? (view.cacheLocation written theme) = some cached at hcached
    rw [hw.file?_of_ne (h.separate.theme_ne hm)] at hsource
    rw [hplace] at hcached
    by_cases he : theme = store.place file
    · subst he
      obtain rfl := Option.some.inj (hw.file?_self.symm.trans hcached)
      obtain ⟨found, hfound⟩ := exists_find_of_read reads
      obtain ⟨text, hd, rfl⟩ := decode_of_read hfound reads
      obtain rfl := Option.some.inj
        ((Store.file?_of_find h.separate.settled hfound).2.symm.trans hsource)
      exact .inr ⟨text, compiled, store.stamp, hd, Engine.compile_of_compile compiles none, hl, rfl⟩
    · rw [hw.file?_of_ne (h.separate.cacheLocation_ne hm ht he)] at hcached
      exact h.holds theme hm source cached hsource hcached

theorem Coherent.write {written : Store} {path : Path} {new : File} (h : view.Coherent themes store)
    (ht : store.place path ∈ themes)
    (hlater : ∀ cached, store.file? (view.cacheLocation store (store.place path)) = some cached →
      cached.modified < new.modified)
    (hw : store.write path new = .ok written) : view.Coherent themes written := by
  obtain ⟨hw, -⟩ := Store.written_of_write h.separate.settled hw
  have hplace (theme : Location) :
      view.cacheLocation written theme = view.cacheLocation store theme :=
    hw.place_eq _
  refine ⟨h.separate.of_workingDirectory hw.workingDirectory, ?_⟩
  intro theme hm source cached hsource hcached
  have hne : view.cacheLocation store theme ≠ store.place path := (h.separate.theme_ne ht).symm
  rw [hplace, hw.file?_of_ne hne] at hcached
  by_cases he : theme = store.place path
  · subst he
    rw [hw.file?_self] at hsource
    cases hsource
    exact .inl (hlater cached hcached)
  · rw [hw.file?_of_ne he] at hsource
    exact h.holds theme hm source cached hsource hcached

theorem Coherent.at (h : view.Coherent themes store) (clock : Int) (stamp : Text) :
    view.Coherent themes { store with clock, stamp } where
  separate :=
    { settled := h.separate.settled
      digests := h.separate.digests
      outside := h.separate.outside }
  holds := h.holds

theorem Coherent.step (h : view.Coherent themes store) (hstep : view.Step themes store after) :
    view.Coherent themes after := by
  cases hstep with
  | write theme later writes => exact h.write theme later writes
  | @compile file clock stamp line theme isFile =>
    exact (h.at clock stamp).compile theme line

theorem coherent_of_none (h : view.Separate store themes)
    (hn : ∀ theme ∈ themes, store.file? (view.cacheLocation store theme) = none) :
    view.Coherent themes store := by
  refine ⟨h, ?_⟩
  intro theme hm source cached _ hcached
  rw [hn theme hm] at hcached
  contradiction

theorem Coherent.run (h : view.Coherent themes store)
    (hrun : Relation.ReflTransGen (view.Step themes) store after) : view.Coherent themes after := by
  induction hrun with
  | refl => exact h
  | tail _ hstep ih => exact ih.step hstep

/-- Whether a compiled theme file leaves a header and the compiled text in its cache file, and is
loaded as that text with its line ends unified, which is the text itself if it has no carriage
return. -/
structure Serves (view : View) (before after : Store) (file cache : Path) (compiled : Text) :
    Prop where
  cached : ∃ stamp, Text.IsLine stamp ∧
    after.readExact cache = .ok (Cache.headed stamp compiled)
  loaded : ∀ name, view.findToLoad before name = .ok file →
    ∃ loaded, view.load name before = (.ok loaded, after) ∧ loaded.file = file ∧
      loaded.cache = cache ∧ loaded.text = Text.unifyLineEnds compiled ∧
      ('\r' ∉ compiled → loaded.text = compiled)

theorem Coherent.serves (h : view.Coherent themes store) (ht : store.place file ∈ themes)
    (hf : store.isDirectory file = false)
    (hd : store.isDirectory (view.cacheOf store file) = false)
    (hl : store.stamp.IsLine) (hc : view.compile file store = (.ok cache, after)) :
    cache = view.cacheOf store file ∧ ∃ template compiled, store.read file = .ok template ∧
      view.engine.compile template = .ok compiled ∧
      view.Serves store after file cache compiled := by
  obtain ⟨hcache, source, cached, hsource, hcached, text, compiled, stamp, hdecode, hcompile,
    hline, ho⟩ :=
    h.holds_of_compile ht hf hd hl hc
  obtain ⟨hexact, shown, hread, hshown⟩ := Cache.read_headed hcached ho hline
  have htemplate : store.read file = .ok (Text.unifyLineEnds text) := by
    rw [Store.read, Store.readExact, hsource]
    simp only [bind, Except.bind, hdecode]
    rfl
  refine ⟨hcache, _, compiled, htemplate, hcompile, ⟨stamp, hline, hexact⟩, ?_⟩
  intro name hname
  refine ⟨_, load_of_compile hname hc hcached hread, rfl, rfl, hshown, ?_⟩
  intro hno
  exact hshown.trans (Text.unifyLineEnds_eq_self hno)

/-- In every run from a store in which the themes have no cache files, a theme file that is compiled
is served as what it compiles to, whether or not it was compiled again; compiling that fails leaves
all files as they were, and no file but the cache file is ever changed by it. -/
theorem compile_coherent {start : Store} (hseparate : view.Separate start themes)
    (hstart : ∀ theme ∈ themes, start.file? (view.cacheLocation start theme) = none)
    (hrun : Relation.ReflTransGen (view.Step themes) start store) (ht : store.place file ∈ themes)
    (clock : Int) {stamp : Text} (hl : stamp.IsLine) :
    let before := { store with clock, stamp }
    let after := (view.compile file before).2
    (before.isDirectory file = false → before.isDirectory (view.cacheOf store file) = false →
      ∀ cache, (view.compile file before).1 = .ok cache →
      cache = view.cacheOf store file ∧ ∃ template compiled, before.read file = .ok template ∧
        view.engine.compile template = .ok compiled ∧
        view.Serves before after file cache compiled) ∧
      (∀ e, (view.compile file before).1 = .error e → after.files = store.files) ∧
      ∀ location, location ≠ store.place (view.cacheOf store file) →
        after.file? location = store.file? location := by
  intro before after
  have hbefore : view.Coherent themes before :=
    ((coherent_of_none hseparate hstart).run hrun).at clock stamp
  refine ⟨?_, ?_, ?_⟩
  · intro hf hd cache hc
    exact hbefore.serves ht hf hd hl (Prod.ext hc rfl)
  · intro e he
    have hsame : after = before := eq_of_compile_error he
    rw [hsame]
  · intro location hn
    exact file?_compile hbefore.separate.settled view file hn

section

variable [Marker.Serials]

def ofSuffix (suffix : Text) : View :=
  .ofConfig { view := { suffix } }

/-- A store with a theme file that includes another one, and no cache file. -/
def page : Store where
  files := [(["t.html".toList], ⟨Utf8.encode (Inclusion.tag "a" none), 5⟩)]

theorem step_page (suffix : Text) : Step (ofSuffix suffix) {["t.html".toList]} {} page := by
  have hwrite : Store.write {} (.ofText "t.html") ⟨Utf8.encode (Inclusion.tag "a" none), 5⟩ =
      .ok page := rfl
  have htheme : Store.place {} (.ofText "t.html") ∈ ({["t.html".toList]} : Set Location) :=
    Set.mem_singleton_iff.2 rfl
  refine .write htheme ?_ hwrite
  intro cached h
  contradiction

theorem separate_page (suffix : Text) : Separate (ofSuffix suffix) {} {["t.html".toList]} where
  settled := List.not_mem_nil
  digests := by
    rintro theme rfl other rfl -
    rfl
  outside := by
    rintro theme rfl
    have houtside : ¬ Store.place {} (.ofText ".themec/cache") <+: ["t.html".toList] := by decide
    exact houtside

end

theorem exists_write_page {name : Text} (hn : name ≠ ['.', '.']) (new : File) :
    ∃ written, page.write ⟨[], [".themec".toList, "cache".toList, name]⟩ new = .ok written := by
  let wider : Store := { page with
    directories := [[".themec".toList, "cache".toList], [".themec".toList]] }
  have hmake : page.makeDirectory ⟨[], [".themec".toList, "cache".toList]⟩ = .ok wider := rfl
  have hlast (location : Location) (hd : wider.isDirectoryAt location = true) :
      wider.walk location [name] = some (location ++ [name]) := by
    rw [Store.walk, if_pos hd, if_neg hn]
    rfl
  have hlocate : wider.locate? ⟨[], [".themec".toList, "cache".toList, name]⟩ =
      some [".themec".toList, "cache".toList, name] := hlast [".themec".toList, "cache".toList] rfl
  have hdir : wider.isDirectoryAt [".themec".toList, "cache".toList, name] = false := by
    simp [Store.isDirectoryAt, wider]
  exact Store.exists_write hmake hlocate hdir new

theorem read_page : page.read (.ofText "t.html") = .ok (Inclusion.tag "a" none) := by
  have hfind : page.find (.ofText "t.html") = .ok ⟨Utf8.encode (Inclusion.tag "a" none), 5⟩ := rfl
  rw [Store.read, Store.readExact, hfind]
  simp only [bind, Except.bind, Utf8.decode_encode]
  exact congrArg Except.ok (Text.unifyLineEnds_eq_self (by decide))

section Page

variable {suffix : Text} (hs : Inclusion.IsPlain suffix)
  (hu : Text.Unmarked (Inclusion.included suffix "a" none))

include hs hu

variable [Marker.Serials]

theorem compile_page_text (file : Option Text) :
    (ofSuffix suffix).engine.compile (Inclusion.tag "a" none) file =
      .ok (Inclusion.statement (Inclusion.included suffix "a" none)) := by
  have hn : Inclusion.IsPlain "a" := by decide
  exact Inclusion.compile_tag false (by decide) hn hs (by simp) hu file

theorem exists_compile_page :
    ∃ cache after, (ofSuffix suffix).compile (.ofText "t.html") page = (.ok cache, after) := by
  let cache := (ofSuffix suffix).cacheOf page (.ofText "t.html")
  obtain ⟨written, hwritten⟩ : ∃ written, page.write cache _ = .ok written :=
    exists_write_page (Cache.fileName_ne_points _) ⟨_, page.clock⟩
  have hrenewed := Cache.renewed_eq_ok_iff.2
    ⟨_, written, rfl, read_page, compile_page_text hs hu _, hwritten, rfl⟩
  exact ⟨cache, _, compile_of_not_present rfl hrenewed⟩

end Page

attribute [local instance] Marker.Serials.sample

theorem compile_coherent_page :
    ∃ after loaded, Relation.ReflTransGen (Step (ofSuffix ".html") {["t.html".toList]}) {} page ∧
      (ofSuffix ".html").load "t.html" page = (.ok loaded, after) ∧
      loaded.text = Inclusion.statement "a.html" := by
  have hs : Inclusion.IsPlain ".html" := by decide
  have hu : Text.Unmarked (Inclusion.included ".html" "a" none) := by decide
  have hrun := Relation.ReflTransGen.single (step_page ".html")
  have ht : page.place (.ofText "t.html") ∈ ({["t.html".toList]} : Set Location) :=
    Set.mem_singleton_iff.2 rfl
  obtain ⟨cache, after, hc⟩ := exists_compile_page hs hu
  obtain ⟨hserves, -, -⟩ := compile_coherent (separate_page ".html") (fun _ _ => rfl) hrun ht
    page.clock (show Text.IsLine page.stamp by decide)
  obtain ⟨-, template, compiled, hread, hcompile, hserve⟩ :=
    hserves rfl rfl cache (congrArg Prod.fst hc)
  obtain rfl := Except.ok.inj (read_page.symm.trans hread)
  obtain rfl := Except.ok.inj ((compile_page_text hs hu none).symm.trans hcompile)
  obtain ⟨loaded, hload, -, -, -, htext⟩ := hserve.loaded "t.html" rfl
  exact ⟨_, loaded, hrun, hload, htext (by decide)⟩

/-- A carriage return in what a page compiles to is not what is loaded. -/
theorem load_page_lineEnd :
    ∃ compiled after loaded,
      Relation.ReflTransGen (Step (ofSuffix "\rx") {["t.html".toList]}) {} page ∧
      (ofSuffix "\rx").engine.compile (Inclusion.tag "a" none) = .ok compiled ∧
      (ofSuffix "\rx").load "t.html" page = (.ok loaded, after) ∧ loaded.text ≠ compiled := by
  have hs : Inclusion.IsPlain "\rx" := by decide
  have hu : Text.Unmarked (Inclusion.included "\rx" "a" none) := by decide
  have hstep := step_page "\rx"
  have ht : page.place (.ofText "t.html") ∈ ({["t.html".toList]} : Set Location) :=
    Set.mem_singleton_iff.2 rfl
  have hstart : Coherent (ofSuffix "\rx") {["t.html".toList]} {} :=
    coherent_of_none (separate_page "\rx") fun _ _ => rfl
  obtain ⟨cache, after, hc⟩ := exists_compile_page hs hu
  obtain ⟨-, template, compiled, hread, hcompile, hserve⟩ :=
    (hstart.step hstep).serves ht rfl rfl (by decide) hc
  obtain rfl := Except.ok.inj (read_page.symm.trans hread)
  obtain rfl := Except.ok.inj ((compile_page_text hs hu none).symm.trans hcompile)
  obtain ⟨loaded, hload, -, -, htext, -⟩ := hserve.loaded "t.html" rfl
  exact ⟨_, _, loaded, .single hstep, hcompile, hload, htext ▸ by decide⟩

end View

end ThemeMarkup
