import Mathlib
import ThemeMarkup.Proofs.Cache
import ThemeMarkup.Proofs.Display
import ThemeMarkup.Proofs.Table

namespace ThemeMarkup

theorem Store.mem_of_absence {store : Store} {path : Path} (h : store.present path = false) :
    store.absence path ∈ [Error.missingFile path.toText, .notDirectory path.toText] := by
  obtain ⟨-, hd⟩ := Bool.or_eq_false_iff.1 h
  rw [absence, if_neg (by simp [hd])]
  split
  · exact List.mem_cons_of_mem _ List.mem_cons_self
  · exact List.mem_cons_self

theorem Cache.isStale_of_present {store : Store} {file cache : Path}
    (hf : store.present file = false) (hc : store.present cache = true) :
    isStale store file cache = .error (store.absence file) := by
  obtain ⟨time, htime⟩ := Store.exists_timeOf hc
  rw [isStale, hc, htime, Store.timeOf_of_not_present hf]
  rfl

namespace View

variable {templates : Templates} {view : View} {store : Store}
  {session after : Session templates} {name other : Text} {file : Path}

theorem find_eq_ok {ending : Option Text} (h : view.find store name ending = .ok file) :
    store.isFile file = true ∧ (file = .ofText name ∨ view.pathOf name ending = .ok file) := by
  rw [find] at h
  split at h
  · next hf =>
    obtain rfl := Except.ok.inj h
    exact ⟨hf, .inl rfl⟩
  · obtain ⟨path, hp, h⟩ := Except.bind_eq_ok_iff.1 h
    split at h
    · next hf =>
      obtain rfl := Except.ok.inj h
      exact ⟨hf, .inr hp⟩
    · contradiction

theorem find_of_not_ok {ending : Option Text} (h : ∀ path, view.find store name ending ≠ .ok path) :
    view.find store name ending =
      view.pathOf name ending >>= fun path => .error (.missingSource path.toText) := by
  rw [find] at h ⊢
  split at h
  · exact absurd rfl (h _)
  · next hf =>
    rw [if_neg hf]
    cases hp : view.pathOf name ending with
    | error e => rfl
    | ok path =>
      rw [hp] at h
      dsimp only [bind, Except.bind] at h ⊢
      split at h
      · exact absurd rfl (h _)
      · next hf' =>
        rw [if_neg hf']
        rfl

theorem eq_noThemePath_of_pathOf {ending : Option Text} {e : Error}
    (h : view.pathOf name ending = .error e) : e = .config .noThemePath := by
  rw [pathOf] at h
  dsimp only at h
  split at h
  · split at h
    · exact (Except.error.inj h).symm
    · contradiction
  · split at h <;> contradiction

theorem findToLoad_of_not_ok (h : ∀ path, view.find store name ≠ .ok path) :
    view.findToLoad store name = .error (.missingTheme name) := by
  rw [findToLoad, find_of_not_ok h]
  cases hp : view.pathOf name none with
  | ok path => rfl
  | error e =>
    obtain rfl := eq_noThemePath_of_pathOf hp
    rfl

theorem load_of_not_ok (h : ∀ path, view.find store name ≠ .ok path) :
    view.load name store = (.error (.missingTheme name), store) := by
  simp only [load, Operation.bind_apply, Operation.get_apply, Operation.lift_apply,
    findToLoad_of_not_ok h]

theorem file_of_load {loaded : Loaded} (h : (view.load name store).1 = .ok loaded) :
    loaded.file = .ofText name ∨ view.pathOf name = .ok loaded.file := by
  obtain ⟨here, _, hhere, h⟩ := Operation.exists_of_bind h
  obtain ⟨file, _, hfile, h⟩ := Operation.exists_of_bind h
  obtain ⟨cache, _, -, h⟩ := Operation.exists_of_bind h
  obtain ⟨now, _, -, h⟩ := Operation.exists_of_bind h
  obtain ⟨cached, _, -, h⟩ := Operation.exists_of_bind h
  obtain ⟨text, _, -, h⟩ := Operation.exists_of_bind h
  rw [Operation.lift_apply] at hfile
  have hfound : view.findToLoad here name = .ok file := congrArg Prod.fst hfile
  rw [findToLoad] at hfound
  split at hfound
  · next hfind =>
    obtain rfl := Except.ok.inj hfound
    rw [← Except.ok.inj h]
    exact (find_eq_ok hfind).2
  all_goals contradiction

theorem compile_of_not_isFile (hf : store.isFile file = false)
    (hc : store.present (view.cacheOf store file) = false) :
    view.compile file store = (.error (.missingSource file.toText), store) := by
  have hrenewed : Cache.renewed view.engine file (view.cacheOf store file) store =
      .error (.missingSource file.toText) := by
    rw [Cache.renewed, Cache.templateOf, hf]
    rfl
  simp only [compile, Operation.bind_apply, Operation.get_apply, Operation.lift_apply,
    Cache.isStale_of_not_present hc, ↓reduceIte, Cache.compileFile_apply, hrenewed]

theorem compile_of_cache_left (hf : store.present file = false)
    (hc : store.present (view.cacheOf store file) = true) :
    view.compile file store = (.error (store.absence file), store) := by
  simp only [compile, Operation.bind_apply, Operation.get_apply, Operation.lift_apply,
    Cache.isStale_of_present hf hc]

/-- Whether every theme that is remembered came from a file that its name stands for. -/
def Loads (view : View) (session : Session templates) : Prop :=
  ∀ name loaded, templates.kept session.memory name = some loaded →
    loaded.file = .ofText name ∨ view.pathOf name = .ok loaded.file

theorem keeps_template (h : templates.Laws) (view : View) (name : Text) :
    Display.Keeps (@Loads templates view) (view.template name) := by
  intro session hs other loaded hkept
  rcases h.kept_of_get view.loader name session.memory session.store other loaded hkept with
    hbefore | ⟨rfl, hload⟩
  · exact hs other loaded hbefore
  · exact file_of_load hload

theorem template_of_missing (h : templates.Laws)
    (hmissing : ∀ path, view.find session.store name ≠ .ok path)
    (hno : ∀ loaded, templates.kept session.memory name = some loaded →
      session.store.present loaded.cache = false) :
    ∃ memory, view.template name session =
      (.error (.missingTheme name), { session with memory }) := by
  have hcurrent : ∀ loaded, templates.kept session.memory name = some loaded →
      view.loader.isCurrent loaded session.store = .ok false := by
    intro loaded hkept
    change loaded.isCurrent session.store = .ok false
    rw [Loaded.isCurrent, Cache.isStale_of_not_present (hno loaded hkept)]
    rfl
  obtain ⟨memory, hget⟩ := h.get_of_load view.loader name session.memory session.store
    session.store _ hcurrent (load_of_not_ok hmissing)
  refine ⟨memory, ?_⟩
  rw [template, hget]

theorem template_of_cache_left (h : templates.Laws) {loaded : Loaded}
    (hkept : templates.kept session.memory name = some loaded)
    (hf : session.store.present loaded.file = false)
    (hc : session.store.present loaded.cache = true) :
    ∃ memory, view.template name session =
      (.error (session.store.absence loaded.file), { session with memory }) := by
  have hcurrent : view.loader.isCurrent loaded session.store =
      .error (session.store.absence loaded.file) := by
    change loaded.isCurrent session.store = _
    rw [Loaded.isCurrent, Cache.isStale_of_present hf hc]
    rfl
  obtain ⟨memory, hget⟩ := h.get_of_isCurrent view.loader name session.memory session.store loaded
    _ hkept hcurrent
  refine ⟨memory, ?_⟩
  rw [template, hget]

/-- What happens in a session: files are written and removed, time passes, variables change, and a
view compiles files and displays themes. -/
inductive Act (view : View) : Session templates → Session templates → Prop where
  | write {session : Session templates} {path : Path} {file : File} {written : Store}
      (writes : session.store.write path file = .ok written) :
      Act view session { session with store := written }
  | remove {session : Session templates} {path : Path} {rest : Store}
      (removes : session.store.remove path = .ok rest) :
      Act view session { session with store := rest }
  | tick {session : Session templates} (clock : Int) (stamp : Text)
      (directoryTimes : Location → Int) :
      Act view session
        { session with store := { session.store with clock, stamp, directoryTimes } }
  | vary {session : Session templates} (bindings : Table Data) :
      Act view session { session with bindings }
  | compile {session : Session templates} (file : Path) :
      Act view session (Session.onStore (view.compile file) session).2
  | display {session : Session templates} (name : Text) (given : Table Data)
      (ending : Option Text) :
      Act view session (view.display name given ending session).2

theorem Loads.act (hlaws : templates.Laws) (h : view.Loads session)
    (ha : view.Act session after) : view.Loads after := by
  cases ha with
  | write _ => exact h
  | remove _ => exact h
  | tick _ _ _ => exact h
  | vary _ => exact h
  | compile _ => exact h
  | display name given ending =>
    exact keeps_display (view.keeps_template hlaws) (fun _ _ hs => hs) name given ending session h

theorem Loads.run (hlaws : templates.Laws) {start : Session templates} (h : view.Loads start)
    (hrun : Relation.ReflTransGen view.Act start session) : view.Loads session := by
  induction hrun with
  | refl => exact h
  | tail _ ha ih => exact ih.act hlaws ha

theorem loads_fresh (hlaws : templates.Laws) (store : Store) (bindings : Table Data) :
    view.Loads ({ store, bindings } : Session templates) := by
  intro name loaded hkept
  rw [hlaws.kept_fresh] at hkept
  contradiction

/-- After whatever happened in a session, compiling a file that is not there reports it, and so does
rendering an inclusion of it, unless its cache file is left; displaying it reports it in any case.
-/
theorem missing_themes (hlaws : templates.Laws) (view : View) (store : Store)
    (bindings : Table Data) {session : Session templates}
    (hrun : Relation.ReflTransGen view.Act { store, bindings } session) :
    (∀ file, session.store.isFile file = false →
      (session.store.present (view.cacheOf session.store file) = false →
        view.compile file session.store = (.error (.missingSource file.toText), session.store)) ∧
      (session.store.present (view.cacheOf session.store file) = true →
        session.store.present file = false →
        ∃ e ∈ [Error.missingFile file.toText, .notDirectory file.toText],
          view.compile file session.store = (.error e, session.store))) ∧
    ∀ name given ending,
      let before := session.setVariables given
      ((∀ path, view.find session.store name ending ≠ .ok path) →
        view.display name given ending session =
          (view.pathOf name ending >>= fun path => .error (.missingSource path.toText), before)) ∧
      ∀ file loaded between other after, view.find session.store name ending = .ok file →
        view.template file.toText before = (.ok loaded, between) →
        (templates.render loaded between.bindings).Comes view.template between other after →
        (∀ path, view.find after.store other ≠ .ok path) →
        ((∀ loaded, templates.kept after.memory other = some loaded →
            after.store.present loaded.cache = false) →
          ∃ memory, view.display name given ending session =
            (.error (.missingTheme other), { after with memory })) ∧
        ∀ loaded, templates.kept after.memory other = some loaded →
          (loaded.file = .ofText other ∨ view.pathOf other = .ok loaded.file) ∧
          (after.store.present loaded.cache = true → after.store.present loaded.file = false →
            ∃ e ∈ [Error.missingFile loaded.file.toText, .notDirectory loaded.file.toText],
              ∃ memory, view.display name given ending session =
                (.error e, { after with memory })) := by
  have hloads : view.Loads session := (loads_fresh hlaws store bindings).run hlaws hrun
  constructor
  · intro file hf
    refine ⟨compile_of_not_isFile hf, fun hc hp => ?_⟩
    exact ⟨_, Store.mem_of_absence hp, compile_of_cache_left hp hc⟩
  · intro name given ending before
    refine ⟨fun hnone => ?_, fun file loaded between other after hfile hgot hcomes hmissing => ?_⟩
    · rw [display_apply, find_of_not_ok hnone]
      cases view.pathOf name ending <;> rfl
    · have hdisplay {e : Error} {memory : templates.Memory}
          (he : view.template other after = (.error e, { after with memory })) :
          view.display name given ending session = (.error e, { after with memory }) := by
        rw [display_apply, hfile]
        dsimp only
        rw [hgot]
        have hrun := hcomes.run_eq (congrArg Prod.fst he)
        rwa [he] at hrun
      have hbefore : view.Loads before := hloads
      have hbetween := view.keeps_template hlaws file.toText before hbefore
      rw [hgot] at hbetween
      have hafter : view.Loads after := hcomes.keeps (view.keeps_template hlaws) hbetween
      constructor
      · intro hno
        obtain ⟨memory, hreport⟩ := template_of_missing hlaws hmissing hno
        exact ⟨memory, hdisplay hreport⟩
      · intro loaded hkept
        refine ⟨hafter other loaded hkept, fun hc hp => ?_⟩
        obtain ⟨memory, hreport⟩ := template_of_cache_left hlaws hkept hp hc
        exact ⟨_, Store.mem_of_absence hp, memory, hdisplay hreport⟩

def pageName : Text := "t.html"

def writtenPage : Store :=
  { files := [([pageName], ⟨Utf8.encode "x", 0⟩)] }

attribute [local instance] Marker.Serials.sample

def compiledPage : Store :=
  ((ofConfig {}).compile (.ofText pageName) writtenPage).2

/-- A theme file can be removed after it was compiled, and its cache file is left. -/
theorem exists_leftCache (templates : Templates) :
    ∃ rest, Relation.ReflTransGen (ofConfig {}).Act ({} : Session templates) { store := rest } ∧
      rest.present (.ofText pageName) = false ∧
      rest.present ((ofConfig {}).cacheOf rest (.ofText pageName)) = true ∧
      ((ofConfig {}).compile (.ofText pageName) rest).1 = .error (.missingFile pageName) := by
  have hremoved : (compiledPage.remove (.ofText pageName)).map (fun rest =>
      (rest.present (.ofText pageName),
        rest.present ((ofConfig {}).cacheOf rest (.ofText pageName)),
        ((ofConfig {}).compile (.ofText pageName) rest).1)) =
      .ok (false, true, .error (.missingFile pageName)) := by cbv
  cases hrest : compiledPage.remove (.ofText pageName) with
  | error e =>
    rw [hrest] at hremoved
    contradiction
  | ok rest =>
    rw [hrest] at hremoved
    have hall := Except.ok.inj hremoved
    refine ⟨rest, ?_, congrArg (·.1) hall, congrArg (·.2.1) hall, congrArg (·.2.2) hall⟩
    have hwrite : Store.write {} (.ofText pageName) ⟨Utf8.encode "x", 0⟩ = .ok writtenPage := rfl
    have hwritten : (ofConfig {}).Act ({} : Session templates) { store := writtenPage } :=
      .write hwrite
    have hcompiled : (ofConfig {}).Act ({ store := writtenPage } : Session templates)
        { store := compiledPage } := .compile (.ofText pageName)
    have hgone : (ofConfig {}).Act ({ store := compiledPage } : Session templates)
        { store := rest } := .remove hrest
    exact ((Relation.ReflTransGen.single hwritten).tail hcompiled).tail hgone

def absentName : Text := "u.html"

/-- A store with a theme file that includes one that was never there. -/
def includingPage : Store :=
  { files := [([pageName], ⟨Utf8.encode "\x7b% include file=u.html %\x7d", 0⟩)] }

def includingGot : Except Error Loaded × Session .single :=
  (ofConfig {}).template pageName { store := includingPage }

/-- The page is got, and asks for the theme that is not there. -/
theorem exists_including :
    ∃ loaded between, (ofConfig {}).template pageName
        ({ store := includingPage } : Session .single) = (.ok loaded, between) ∧
      (Templates.single.render loaded between.bindings).Comes (ofConfig {}).template between
        absentName between ∧
      (∀ path, (ofConfig {}).find between.store absentName ≠ .ok path) ∧
      Templates.single.kept between.memory absentName = none := by
  have hall : (includingGot.1.map fun loaded => Templates.includedName? loaded.text,
      (ofConfig {}).find includingGot.2.store absentName,
      Templates.single.kept includingGot.2.memory absentName) =
      (.ok (some absentName), .error (.missingSource absentName), none) := by cbv
  obtain ⟨hname, hrest⟩ := Prod.mk.inj hall
  obtain ⟨hfind, hkept⟩ := Prod.mk.inj hrest
  cases hgot : includingGot.1 with
  | error e =>
    rw [hgot] at hname
    contradiction
  | ok loaded =>
    rw [hgot] at hname
    have hname : Templates.includedName? loaded.text = some absentName := Except.ok.inj hname
    refine ⟨loaded, includingGot.2, Prod.ext hgot rfl, ?_, fun path h => ?_, hkept⟩
    · simp only [Templates.single, hname]
      exact .here fun e => rfl
    · rw [hfind] at h
      contradiction

theorem missing_themes_page :
    Templates.single.Laws ∧
    (∃ session : Session .single, Relation.ReflTransGen (ofConfig {}).Act {} session ∧
      session.store.present (.ofText pageName) = false ∧
      session.store.present ((ofConfig {}).cacheOf session.store (.ofText pageName)) = true ∧
      ((ofConfig {}).display pageName ∅ none session).1 = .error (.missingSource pageName)) ∧
    ∃ session : Session .single, Relation.ReflTransGen (ofConfig {}).Act {} session ∧
      ((ofConfig {}).display pageName ∅ none session).1 = .error (.missingTheme absentName) := by
  refine ⟨Templates.laws_single, ?_, ?_⟩
  · obtain ⟨rest, hrun, hpresent, hcache, -⟩ := exists_leftCache .single
    refine ⟨_, hrun, hpresent, hcache, ?_⟩
    have hf : rest.isFile (.ofText pageName) = false := (Bool.or_eq_false_iff.1 hpresent).1
    have hpath : (ofConfig {}).pathOf pageName none = .ok (.ofText pageName) := rfl
    have hnone : ∀ path, (ofConfig {}).find rest pageName ≠ .ok path := by
      intro path hfind
      obtain ⟨hp, rfl | hof⟩ := find_eq_ok hfind
      · rw [hf] at hp
        contradiction
      · obtain rfl := Except.ok.inj (hpath.symm.trans hof)
        rw [hf] at hp
        contradiction
    have hdisplay :=
      ((missing_themes Templates.laws_single (ofConfig {}) {} ∅ hrun).2 pageName ∅ none).1 hnone
    rw [hdisplay, hpath]
    rfl
  · have hwrite : Store.write {} (.ofText pageName) _ = .ok includingPage := rfl
    have hwritten : (ofConfig {}).Act ({} : Session .single) { store := includingPage } :=
      .write hwrite
    have hrun := Relation.ReflTransGen.single hwritten
    refine ⟨_, hrun, ?_⟩
    have hfile : (ofConfig {}).find includingPage pageName none = .ok (.ofText pageName) := rfl
    obtain ⟨loaded, between, hgot, hcomes, hmissing, hkept⟩ := exists_including
    have hset : Session.setVariables ∅ ({ store := includingPage } : Session .single) =
        { store := includingPage } := by
      rw [Session.setVariables, Table.union_empty]
    rw [← hset] at hgot
    have hinclusion :=
      ((missing_themes Templates.laws_single (ofConfig {}) {} ∅ hrun).2 pageName ∅ none).2
        (.ofText pageName) loaded between absentName between hfile hgot hcomes hmissing
    obtain ⟨memory, hdisplay⟩ := hinclusion.1 fun loaded h => nomatch hkept.symm.trans h
    rw [hdisplay]

/-- Compiling it fails in another way. -/
theorem compile_leftCache :
    ∃ session : Session .single, Relation.ReflTransGen (ofConfig {}).Act {} session ∧
      session.store.present (.ofText pageName) = false ∧
      ((ofConfig {}).compile (.ofText pageName) session.store).1 ≠
      .error (.missingSource pageName) := by
  obtain ⟨rest, hrun, hpresent, -, hcompile⟩ := exists_leftCache .single
  refine ⟨_, hrun, hpresent, ?_⟩
  rw [hcompile]
  simp

end View

end ThemeMarkup
