import ThemeMarkup.Proofs.Path
import ThemeMarkup.Proofs.TagFree
import ThemeMarkup.View

namespace ThemeMarkup

open Standard (lastPart withSuffix)

namespace Inclusion

def attributes (name : Text) (ending : Option Text) : List (Text × Option Text) :=
  [("file", some name), ("ext", ending)]

/-- The tag that includes a theme by its name, with an ending if one is given. -/
def tag (name : Text) (ending : Option Text) : Text :=
  Tag.written .head "include" (Attribute.argument (attributes name ending))

/-- Names and endings that need no quoting. -/
def IsPlain (text : Text) : Prop :=
  text.Avoids "\"'\\$(\x7b\x7d%"

instance (text : Text) : Decidable (IsPlain text) :=
  inferInstanceAs (Decidable (Text.Avoids _ _))

/-- The statement that includes a theme by its name. -/
def statement (name : Text) : Text :=
  Target.statement ("include \"" ++ name ++ "\"")

variable {name suffix : Text} {ending : Option Text}

theorem IsPlain.append {before after : Text} (hb : IsPlain before) (ha : IsPlain after) :
    IsPlain (before ++ after) :=
  List.forall_mem_append.2 ⟨hb, ha⟩

theorem IsPlain.strip (h : IsPlain name) : IsPlain (Text.strip name) :=
  fun c hc => h c ((Text.strip_infix name).subset hc)

theorem IsPlain.not_mem {c : Char} (h : IsPlain name) (hc : c ∈ "\"'\\$(\x7b\x7d%".toList) :
    c ∉ name :=
  fun hm => h c hm hc

theorem IsPlain.isSafe {c : Char} (h : IsPlain name) (hc : c ∈ name) : IsSafe c := by
  refine ⟨?_, ?_, ?_⟩ <;>
    rintro rfl <;> exact h _ hc (by decide)

theorem IsPlain.startsExpression (h : IsPlain name) : Expression.startsExpression name = false := by
  cases name with
  | nil => rfl
  | cons c name =>
    simp only [Expression.startsExpression, Bool.or_eq_false_iff, decide_eq_false_iff_not]
    refine ⟨⟨?_, ?_⟩, ?_⟩ <;>
      rintro rfl <;> exact h _ List.mem_cons_self (by decide)

theorem areSafe (hn : IsPlain name) (he : ∀ e ∈ ending, IsPlain e) :
    Attribute.AreSafe (attributes name ending) := by
  have hone {key value : Text} (hk : Attribute.IsName key) (hv : IsPlain value) :
      Attribute.IsName key ∧ '"' ∉ value ∧ ∀ c ∈ value, IsSafe c :=
    ⟨hk, hv.not_mem (by decide), fun _ => hv.isSafe⟩
  have hfile : Attribute.IsName "file" := by decide
  have hext : Attribute.IsName "ext" := by decide
  cases ending with
  | none => exact List.forall_mem_singleton.2 (hone hfile hn)
  | some e =>
    refine List.forall_mem_cons.2 ⟨hone hfile hn, ?_⟩
    exact List.forall_mem_singleton.2 (hone hext (he e rfl))

/-- The ending that is put to a name: the one given unless it is empty, else that of theme files. -/
def endingOf (suffix : Text) (ending : Option Text) : Text :=
  (ending.filter (· ≠ [])).getD suffix

theorem quote_eq (h : IsPlain name) : Expression.quote name = "\"" ++ Text.strip name ++ "\"" := by
  have hs := h.strip
  have hparen : (Text.strip name).contains '(' = false := by
    simpa using hs.not_mem (c := '(') (by decide)
  have hescape : (Text.strip name).flatMap (fun c => if c = '"' then ['\\', '"'] else [c]) =
      Text.strip name := by
    refine Eq.trans (List.flatMap_congr fun c hc => ?_) (List.flatMap_singleton' _)
    apply if_neg
    rintro rfl
    exact hs.not_mem (by decide) hc
  simp only [Expression.quote, hs.startsExpression, hparen, hescape, Bool.or_self,
    Bool.false_eq_true, ↓reduceIte]

theorem allows (hf : name ≠ []) (hn : IsPlain name) (he : ∀ e ∈ ending, IsPlain e) :
    Standard.Allows "include" (attributes name ending) := by
  have hdistinct : ["file".toList, "ext".toList].Nodup := by decide
  refine ⟨rfl, hdistinct, (areSafe hn he).areLegible, ?_⟩
  exact List.forall_mem_singleton.2 ⟨name, hf, List.mem_cons_self⟩

theorem includeNode_eq {node : Node}
    (h : node.givenAttributes.Hold (attributes name ending)) :
    Standard.includeNode suffix node = .ok (Target.statement
      ("include " ++ Expression.quote
        (withSuffix (Text.strip name) (endingOf suffix ending)))) := by
  have hfile : Standard.need node.givenAttributes "file" = .ok name := by
    rw [Standard.need, h "file" _ List.mem_cons_self]
    rfl
  have hext : Standard.given node.givenAttributes "ext" suffix = endingOf suffix ending := by
    rw [Standard.given, h "ext" _ (List.mem_cons_of_mem _ List.mem_cons_self)]
    rcases ending with _ | _ | ⟨c, e⟩ <;> rfl
  rw [Standard.includeNode, hfile]
  dsimp only [bind, Except.bind]
  rw [hext]
  rfl

theorem isWritten (hn : IsPlain name) (he : ∀ e ∈ ending, IsPlain e) :
    Tag.IsWritten (Attribute.argument (attributes name ending)) :=
  (areSafe hn he).isWritten

theorem name_mem : "include".toList ∈ Standard.names :=
  Standard.mem_names_iff.2 (by decide)

/-- The tag of an inclusion as it is found in it. -/
def head (name : Text) (ending : Option Text) : Tag :=
  Tag.located (tag name ending) 0 .head "include" (Attribute.argument (attributes name ending))

theorem withSuffix_isPlain {ending : Text} (hn : IsPlain name) (he : IsPlain ending) :
    IsPlain (withSuffix name ending) := by
  rw [withSuffix]
  split
  · exact hn
  · exact hn.append he

theorem endingOf_isPlain (hs : IsPlain suffix) (he : ∀ e ∈ ending, IsPlain e) :
    IsPlain (endingOf suffix ending) := by
  rcases ending with _ | _ | ⟨c, e⟩
  · exact hs
  · exact hs
  · exact he _ rfl

section

variable [Marker.Serials]

theorem scan_tag (suffix : Text) (hn : IsPlain name) (he : ∀ e ∈ ending, IsPlain e) :
    Tag.scan (Compiler.standard suffix).registry .usual (tag name ending) =
      .ok [head name ending] := by
  have hscanned : Tag.Scanned (tag name ending) 0 (tag name ending ++ []) [head name ending] :=
    (Tag.scanned_nil ..).cons name_mem (isWritten hn he)
  rw [List.append_nil] at hscanned
  exact hscanned.scan_eq suffix

theorem runPass_node (suffix : Text) (strict : Bool) (hf : name ≠ []) (hn : IsPlain name)
    (he : ∀ e ∈ ending, IsPlain e) :
    (Engine.standard suffix strict).runPass .node (tag name ending) = .ok (Target.statement
      ("include " ++ Expression.quote
        (withSuffix (Text.strip name) (endingOf suffix ending)))) := by
  let engine := Engine.standard suffix strict
  let text := tag name ending
  let head := head name ending
  have hscan : Tag.scan engine.compiler.registry engine.delimiters.node text = .ok [head] :=
    scan_tag suffix hn he
  have hgrow : Forest.grow engine.compiler.registry engine.strict [head] =
      .ok (.lone head .nil) := rfl
  have hnode : (Pairing.loneNode text head).compileContent (.standard suffix) = _ :=
    (allows hf hn he).compileContent_loneNode rfl rfl ((Compiler.get?_standard ..).trans rfl)
      fun _ => includeNode_eq
  have hcut : Text.cut? (Pairing.loneNode text head).source text = some ([], []) := by
    have h := Text.cut?_append text []
    rwa [List.append_nil] at h
  have hsubstituted := Node.substituted_cons_of_ok hcut hnode (Node.substituted_nil _ [])
  rw [List.append_nil, List.nil_append] at hsubstituted
  rw [Engine.runPass_node_of_scan (Engine.isProper_standard suffix strict) hscan, hgrow]
  exact hsubstituted

theorem nodes_tag (suffix : Text) (strict : Bool) (hn : IsPlain name)
    (he : ∀ e ∈ ending, IsPlain e) :
    ∀ pass ∈ [Pass.hideLiterals, .code],
      (Engine.standard suffix strict).nodes pass (tag name ending) = .ok [] := by
  have hliterals := Template.silent_literal_written name_mem (isWritten hn he) .head []
  have hcodes := Template.silent_code_written name_mem (isWritten hn he) .head Standard.codeNames []
  rw [List.append_nil] at hliterals hcodes
  have hl : Found.scan (Literal.read? .usual) (tag name ending) = [] :=
    (Found.Scans.done hliterals).scanFrom_eq
  have hc : Found.scan (Code.read? ({} : DelimiterSet).code Standard.codeNames) (tag name ending) =
      [] := (Found.Scans.done hcodes).scanFrom_eq
  intro pass hp
  simp only [List.mem_cons, List.not_mem_nil, or_false] at hp
  rcases hp with rfl | rfl
  · change Except.ok (Literal.nodes .usual (tag name ending)) = .ok []
    rw [Literal.nodes, hl]
    rfl
  · change Code.nodes _ ({} : DelimiterSet).code (tag name ending) = .ok []
    rw [Code.nodes]
    exact (congrArg (List.mapM _) hc).trans rfl

theorem nodes_statement (suffix : Text) (strict : Bool) (h : Text.Unmarked name) :
    ∀ pass ∈ [Pass.showCode, .showLiterals],
      (Engine.standard suffix strict).nodes pass (statement name) = .ok [] := by
  have hinner : Text.Unmarked ("include \"" ++ name ++ "\"") := by
    apply Text.Unmarked.append (Text.Unmarked.append (by decide) h (.inl (by decide))) (by decide)
    exact .inr (by decide)
  have hnone (kind : Marker) : Marker.nodes kind (statement name) = [] := by
    apply Marker.nodes_of_silent
    have hsilent :
        Found.Silent (Marker.read? kind) (statement name).length (statement name ++ []) :=
      Marker.silent_of_isSealed (Marker.isSealed_statement hinner) []
    rwa [List.append_nil] at hsilent
  intro pass hp
  simp only [List.mem_cons, List.not_mem_nil, or_false] at hp
  rcases hp with rfl | rfl
  · exact congrArg Except.ok (hnone .code)
  · exact congrArg Except.ok (hnone .literal)

/-- The name that the statement of an inclusion has. -/
def included (suffix name : Text) (ending : Option Text) : Text :=
  Text.strip (withSuffix (Text.strip name) (endingOf suffix ending))

theorem runPass_node_eq (strict : Bool) (hf : name ≠ []) (hn : IsPlain name) (hs : IsPlain suffix)
    (he : ∀ e ∈ ending, IsPlain e) :
    (Engine.standard suffix strict).runPass .node (tag name ending) =
      .ok (statement (included suffix name ending)) := by
  have hplain := withSuffix_isPlain hn.strip (endingOf_isPlain hs he)
  rw [runPass_node suffix strict hf hn he, quote_eq hplain]
  rfl

theorem compile_tag (strict : Bool) (hf : name ≠ []) (hn : IsPlain name)
    (hs : IsPlain suffix) (he : ∀ e ∈ ending, IsPlain e)
    (hu : Text.Unmarked (included suffix name ending)) (file : Option Text) :
    (Engine.standard suffix strict).compile (tag name ending) file =
      .ok (statement (included suffix name ending)) := by
  let engine := Engine.standard suffix strict
  let run := engine.runLocated (tag name ending) file
  have hnode : run (tag name ending) .node = .ok (statement (included suffix name ending)) :=
    Engine.runLocated_of_ok _ _ (runPass_node_eq strict hf hn hs he)
  have hfirst := Engine.foldlM_runLocated_append (nodes_tag suffix strict hn he) (tag name ending)
    file [.node, .showCode, .showLiterals]
  refine hfirst.trans ?_
  rw [Except.foldlM_cons_of_ok hnode]
  exact Engine.foldlM_runLocated_append (nodes_statement suffix strict hu) (tag name ending) file []

end

/-- Endings of theme files that need no quoting. -/
structure IsEnding (ending : Text) : Prop extends Path.IsEnding ending where
  plain : IsPlain ending
  blank : ∀ c ∈ ending.getLast?, Text.isBlank c = false

/-- Whether both rules for endings lead to one path. -/
def RulesAgree (suffix name ending : Text) : Prop :=
  ('.' ∈ lastPart name → (Path.ofText name).suffix ≠ [] ∨ ending = suffix) ∧
    ('.' ∉ lastPart name →
      lastPart name ≠ [] ∨ (Path.ofText ending).suffix ≠ [] ∧ (Path.ofText name).suffix = [])

instance (suffix name ending : Text) : Decidable (RulesAgree suffix name ending) :=
  inferInstanceAs (Decidable ((_ → _) ∧ (_ → _)))

/-- The text of the path that a name stands for, with an ending if it has no suffix. -/
def resolved (ending name : Text) : Text :=
  if (Path.ofText name).suffix = [] then name ++ ending else name

theorem exists_lastPart (name : Text) :
    ∃ before, Path.Opens before ∧ name = before ++ lastPart name ∧ '/' ∉ lastPart name := by
  let before := (name.reverse.dropWhile (· ≠ '/')).reverse
  have hsplit : name = before ++ lastPart name := by
    have h := congrArg List.reverse
      (List.takeWhile_append_dropWhile (p := fun c => decide (c ≠ '/')) (l := name.reverse))
    rw [List.reverse_append, List.reverse_reverse] at h
    exact h.symm
  have hlast : '/' ∉ lastPart name := by
    intro hm
    have h := List.all_eq_true.1 List.all_takeWhile _ (List.mem_reverse.1 hm)
    contradiction
  refine ⟨before, ?_, hsplit, hlast⟩
  cases hd : name.reverse.dropWhile (· ≠ '/') with
  | nil => exact .inl (congrArg List.reverse hd)
  | cons c rest =>
    have hc := List.head?_dropWhile_not (fun c => decide (c ≠ '/')) name.reverse
    rw [hd] at hc
    obtain rfl : c = '/' := by simpa using hc
    refine .inr ⟨rest.reverse, ?_⟩
    rw [← List.reverse_cons]
    exact congrArg List.reverse hd

section Parts

variable {before last : Text}

theorem IsEnding.isName_append (h : IsEnding suffix) (hl : '/' ∉ last) :
    '/' ∉ last ++ suffix ∧ last ++ suffix ≠ [] ∧ last ++ suffix ≠ ['.'] := by
  obtain ⟨c, rest, rfl⟩ := h.exists_cons
  refine ⟨List.not_mem_append hl h.slash, by simp, ?_⟩
  intro he
  have hlength := congrArg List.length he
  simp only [List.length_append, List.length_cons, List.length_nil] at hlength
  omega

theorem IsEnding.parts_append (h : IsEnding suffix) (hb : Path.Opens before) (hl : '/' ∉ last) :
    (Path.ofText (before ++ (last ++ suffix))).parts =
      (Path.ofText before).parts ++ [last ++ suffix] := by
  obtain ⟨hs, hn, hd⟩ := h.isName_append hl
  exact Path.parts_append hb hs hn hd

theorem IsEnding.suffix_append (h : IsEnding suffix) (hb : Path.Opens before) (hl : '/' ∉ last) :
    (Path.ofText (before ++ (last ++ suffix))).suffix = (Path.splitName (last ++ suffix)).2 := by
  obtain ⟨hs, hn, hd⟩ := h.isName_append hl
  rw [Path.suffix, Path.name_append hb hs hn hd]

theorem suffix_of_not_mem (hb : Path.Opens before) (hl : '/' ∉ last) (hn : last ≠ [])
    (hp : '.' ∉ last) : (Path.ofText (before ++ last)).suffix = [] := by
  have hd : last ≠ ['.'] := by
    rintro rfl
    exact hp List.mem_cons_self
  rw [Path.suffix, Path.name_append hb hl hn hd]
  exact Path.splitName_of_not_mem hp

theorem IsEnding.root_append (h : IsEnding suffix) (name : Text) :
    (Path.ofText (name ++ suffix)).root = (Path.ofText name).root := by
  apply Path.root_append
  rw [h.point]
  decide

theorem root_resolved (h : IsEnding suffix) (name : Text) :
    (Path.ofText (resolved suffix name)).root = (Path.ofText name).root := by
  rw [resolved]
  split
  · exact h.root_append name
  · rfl

end Parts

theorem parts_resolved {ending : Text} (hs : IsEnding suffix) (he : IsEnding ending) (name : Text) :
    (Path.ofText (resolved suffix name)).parts = (Path.ofText (resolved ending name)).parts ↔
      (Path.ofText name).suffix ≠ [] ∨ ending = suffix := by
  obtain ⟨before, hb, hname, hl⟩ := exists_lastPart name
  by_cases hx : (Path.ofText name).suffix = []
  · have happ {e : Text} (h : IsEnding e) : (Path.ofText (name ++ e)).parts =
        (Path.ofText before).parts ++ [lastPart name ++ e] := by
      rw [← h.parts_append hb hl, ← List.append_assoc, ← hname]
    rw [resolved, if_pos hx, resolved, if_pos hx, happ hs, happ he]
    simp [hx, eq_comm]
  · simp [resolved, hx]

/-- A name that ends with a slash gets the ending as a name of its own. -/
theorem parts_resolved_slash {ending : Text} (hs : IsEnding suffix) (he : IsEnding ending)
    (hn : Path.Opens name) :
    (Path.ofText (resolved suffix (name ++ ending))).parts =
        (Path.ofText (resolved ending name)).parts ↔
      (Path.ofText ending).suffix ≠ [] ∧ (Path.ofText name).suffix = [] := by
  have hparts {e : Text} (last : Text) (h : IsEnding e) (hl : '/' ∉ last) :
      (Path.ofText (name ++ (last ++ e))).parts = (Path.ofText name).parts ++ [last ++ e] :=
    h.parts_append hn hl
  have hended := hparts [] he List.not_mem_nil
  have htwice := hparts ending hs he.slash
  have hsuffix : (Path.ofText (name ++ ending)).suffix = (Path.ofText ending).suffix :=
    (he.suffix_append hn List.not_mem_nil).trans
      (he.suffix_append (.inl rfl) List.not_mem_nil).symm
  obtain ⟨c, rest, hc⟩ := hs.exists_cons
  rw [List.nil_append] at hended
  rw [resolved, resolved, hsuffix]
  split
  · next hx =>
    have hne : ending ++ suffix ≠ ending := by
      simp [hc]
    rw [List.append_assoc, htwice]
    split
    · rw [hended]
      simp [hx, hne]
    · simp [hx]
  · next hx =>
    rw [hended]
    split
    · next hy => simp [hx, hy, hended]
    · next hy => simp [hy]

theorem parts_resolved_append {ending : Text} (hs : IsEnding suffix) (he : IsEnding ending)
    (hp : '.' ∉ lastPart name) :
    (Path.ofText (resolved suffix (name ++ ending))).parts =
        (Path.ofText (resolved ending name)).parts ↔
      lastPart name ≠ [] ∨ (Path.ofText ending).suffix ≠ [] ∧ (Path.ofText name).suffix = [] := by
  by_cases hn : lastPart name = []
  · obtain ⟨before, hb, hname, -⟩ := exists_lastPart name
    rw [hn, List.append_nil] at hname
    have hopens : Path.Opens name := hname ▸ hb
    simpa [hn] using parts_resolved_slash hs he hopens
  · obtain ⟨before, hb, hname, hl⟩ := exists_lastPart name
    have hkept : (Path.ofText (name ++ ending)).suffix ≠ [] := by
      rw [hname, List.append_assoc, he.suffix_append hb hl]
      exact Path.splitName_ending_ne_nil hn he.toIsEnding
    have hnone : (Path.ofText name).suffix = [] := by
      rw [hname]
      exact suffix_of_not_mem hb hl hn hp
    rw [resolved, if_neg hkept, resolved, if_pos hnone]
    simp [hn]

theorem included_eq (hf : name.IsFilled) (hn : IsPlain name)
    (he : IsEnding (endingOf suffix ending)) :
    included suffix name ending =
      if '.' ∈ lastPart (Text.strip name) then Text.strip name
      else Text.strip name ++ endingOf suffix ending := by
  have hstart := hn.strip.startsExpression
  rw [included, withSuffix, hstart, Bool.false_or, List.contains_eq_mem]
  simp only [decide_eq_true_eq]
  split
  · exact Text.strip_strip name
  · apply Text.strip_eq_self
    · rw [List.head?_append_of_ne_nil _ (Text.strip_ne_nil hf)]
      exact fun _ => Text.isBlank_of_mem_head?_strip
    · obtain ⟨c, rest, hc⟩ := he.exists_cons
      rw [List.getLast?_append_of_ne_nil _ (by simp [hc])]
      exact he.blank

end Inclusion

namespace View

open Inclusion

variable {view : View} {themes : Path}

theorem pathOf_eq (ht : view.config.themePath = some themes) (name : Text) (ending : Option Text) :
    view.pathOf name ending =
      .ok (themes.join (.ofText
        (resolved (endingOf view.config.suffix ending) (Text.strip name)))) := by
  rw [pathOf, ht, resolved]
  dsimp only
  split <;> rfl

section

variable [Marker.Serials]

/-- In every view with a path of themes, an inclusion compiles to the statement that includes the
theme by its name with the ending, and this name leads to the path of the theme's name just if both
rules for endings agree on it. -/
theorem pathOf_included_iff (config : Config) (hd : config.delimiters = {})
    (ht : config.view.themePath = some themes) {name : Text} {ending : Option Text}
    (hf : name.IsFilled) (hn : IsPlain name) (hs : IsEnding config.view.suffix)
    (he : ∀ e ∈ ending, e = [] ∨ IsEnding e)
    (hu : Text.Unmarked (included config.view.suffix name ending)) (file : Option Text) :
    let view := View.ofConfig config
    let included := included config.view.suffix name ending
    view.engine.compile (tag name ending) file = .ok (statement included) ∧
      (view.pathOf included = view.pathOf name ending ↔
        RulesAgree config.view.suffix (Text.strip name) (endingOf config.view.suffix ending)) := by
  intro view m
  let ext := endingOf config.view.suffix ending
  have hext : IsEnding ext := by
    rcases ending with _ | _ | ⟨c, e⟩
    · exact hs
    · exact hs
    · exact (he _ rfl).resolve_left (List.cons_ne_nil c e)
  have hplain : ∀ e ∈ ending, IsPlain e := by
    intro e hm
    rcases he e hm with rfl | h
    · exact List.forall_mem_nil _
    · exact h.plain
  have hne : name ≠ [] := by
    rintro rfl
    obtain ⟨c, hc, -⟩ := hf
    contradiction
  have hengine : view.engine = Engine.standard config.view.suffix config.strictPairing := by
    simp only [view, View.ofConfig, Config.engine, hd]
    rfl
  refine ⟨hengine ▸ compile_tag config.strictPairing hne hn hs.plain hplain hu file, ?_⟩
  have hm : Text.strip m = m := Text.strip_strip _
  have hincluded : m = _ := included_eq hf hn hext
  have hroot : (Path.ofText (resolved config.view.suffix m)).root =
      (Path.ofText (resolved ext (Text.strip name))).root := by
    rw [root_resolved hs, root_resolved hext, hincluded]
    split
    · rfl
    · exact hext.root_append _
  rw [pathOf_eq ht, pathOf_eq ht, hm, Except.ok.injEq]
  refine (Path.join_eq_join_iff hroot).trans ?_
  rw [hincluded, RulesAgree]
  by_cases hp : '.' ∈ lastPart (Text.strip name)
  · simpa [hp] using parts_resolved hs hext (Text.strip name)
  · simpa [hp] using parts_resolved_append hs hext hp

end

attribute [local instance] Marker.Serials.sample

theorem pathOf_included_iff_profile :
    let config : Config := { view := { themePath := some (.ofText "themes") } }
    let view := View.ofConfig config
    view.engine.compile (tag "user/profile" none) none = .ok (statement "user/profile.html") ∧
      view.pathOf "user/profile.html" = view.pathOf "user/profile" := by
  let config : Config := { view := { themePath := some (.ofText "themes") } }
  have hf : Text.IsFilled "user/profile" := by decide
  have hn : IsPlain "user/profile" := by decide
  have hlast : ∀ c ∈ (".html" : Text).getLast?, Text.isBlank c = false := by
    rintro c ⟨⟩
    decide
  have hs : IsEnding ".html" := ⟨⟨by decide, by decide, by decide⟩, by decide, hlast⟩
  have he : ∀ e ∈ (none : Option Text), e = [] ∨ IsEnding e := nofun
  obtain ⟨hcompile, hpath⟩ := pathOf_included_iff config rfl rfl hf hn hs he (by decide) none
  exact ⟨hcompile, hpath.2 (by decide)⟩

/-- A suffix without a point is put to the name by the inclusion and once more by the lookup. -/
theorem pathOf_included_pointless :
    let config : Config := { view := { themePath := some (.ofText "themes"), suffix := "html" } }
    let view := View.ofConfig config
    view.engine.compile (tag "a" none) none = .ok (statement "ahtml") ∧
      view.pathOf "ahtml" ≠ view.pathOf "a" := by
  have hn : IsPlain "a" := by decide
  have hs : IsPlain "html" := by decide
  have he : ∀ e ∈ (none : Option Text), IsPlain e := nofun
  exact ⟨compile_tag false (by decide) hn hs he (by decide) none, by decide⟩

end View

end ThemeMarkup
