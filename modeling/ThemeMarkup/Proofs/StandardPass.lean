import ThemeMarkup.Config.Engine
import ThemeMarkup.Proofs.Edits
import ThemeMarkup.Proofs.Table
import ThemeMarkup.Proofs.Template.Source

namespace ThemeMarkup

open Marker (encode)

variable {suffix text out : Text} {strict : Bool}

variable [Marker.Serials]

theorem Compiler.get?_standard (suffix key : Text) :
    (standard suffix).routines.get? key = ((Standard.routines suffix).get? key).or
      ((baseRoutines Standard.knownAttributes Standard.requiredAttributes).get? key) :=
  Table.get?_union ..

theorem codeRoutine_name (sigil : Sigil) (suffix : Text) :
    ∃ identifier content, (Compiler.standard suffix).registry.codeRoutine sigil.name =
      .ok identifier ∧
      (Compiler.standard suffix).routines.get? identifier = some (Compiler.writing content) ∧
      ∀ node payload, node.content = Text.strip payload →
        content node = .ok (encode .code (sigil.meaning payload)) := by
  have hget := Compiler.get?_standard suffix
  cases sigil with
  | value =>
    refine ⟨"variableCode", fun node => return Standard.outputCode node, rfl,
    (hget _).trans rfl, ?_⟩
    intro node payload h
    simp only [Standard.outputCode, h]
    rfl
  | echo =>
    refine ⟨"echoCode", fun node => return Standard.outputCode node, rfl, (hget _).trans rfl, ?_⟩
    intro node payload h
    simp only [Standard.outputCode, h]
    rfl
  | note =>
    refine ⟨"noteCode", fun node => return Standard.noteCode node, rfl, (hget _).trans rfl, ?_⟩
    intro node payload h
    simp only [Standard.noteCode, h]
    rfl
  | statement =>
    refine ⟨"statementCode", fun node => return Standard.statementCode node, rfl,
    (hget _).trans rfl, ?_⟩
    intro node payload h
    simp only [Standard.statementCode, h]
    rfl

namespace Engine

/-- The first pass makes of a literal span the marker of its interior. -/
def HidesLiteral (interior new : Text) : Prop :=
  new = encode .literal (Text.strip interior)

/-- The second pass makes of a code tag, given by its name and payload, the marker of its output. -/
def ProtectsCode (tag : Text × Text) (new : Text) : Prop :=
  ∃ sigil : Sigil, tag.1 = sigil.name ∧ new = encode .code (sigil.meaning tag.2)

def ShowsCode (payload new : Text) : Prop :=
  Marker.decode payload = .ok new

/-- The last pass makes of a marker what it holds, between statements that keep it as it is. -/
def ShowsLiteral (payload new : Text) : Prop :=
  ∃ content, Marker.decode payload = .ok content ∧
    new = Target.statement "raw" ++ content ++ Target.statement "endraw"

theorem standard_left (suffix : Text) (strict : Bool) :
    (standard suffix strict).delimiters.code.left ≠ [] := by
  change ({} : DelimiterSet).code.left ≠ []
  decide

theorem replaces_hideLiterals (suffix : Text) (strict : Bool) :
    (standard suffix strict).Replaces .hideLiterals (Literal.read? .usual)
      HidesLiteral := by
  intro text
  let leaf (found : Found Text) : Node :=
    { source := found.source
      content := Text.strip found.value
      routine := some "global"
      span := found.span text }
  refine ⟨fun found => .ok (leaf found), ?_, ?_⟩
  · exact (List.mapM_pure (m := Except Error) (f := leaf)).symm
  · rintro found new rfl
    have hroutine : (Compiler.standard suffix).routines.get? "global" =
        some (Compiler.writing fun node => return encode .literal node.content) :=
      (Compiler.get?_standard ..).trans rfl
    exact ⟨leaf found, rfl, rfl, Node.compileContent_of_leaf rfl rfl hroutine⟩

theorem replaces_code (suffix : Text) (strict : Bool) :
    (standard suffix strict).Replaces .code (Code.read? ({} : DelimiterSet).code Standard.codeNames)
      ProtectsCode := by
  intro text
  let leaf (found : Found (Text × Text)) : Except Error Node := do
    let name := Text.strip found.value.1
    let routine ← (Compiler.standard suffix).registry.codeRoutine name
    return { source := found.source
             content := Text.strip found.value.2
             routine := some routine
             name := some name
             span := found.span text }
  refine ⟨leaf, rfl, ?_⟩
  rintro found new ⟨sigil, hname, rfl⟩
  obtain ⟨identifier, content, hcode, hroutine, hcontent⟩ := codeRoutine_name sigil suffix
  have hstrip : Text.strip sigil.name = sigil.name := by
    cases sigil <;> decide
  have hleaf : leaf found = .ok
      { source := found.source
        content := Text.strip found.value.2
        routine := some identifier
        name := some sigil.name
        span := found.span text } := by
    simp only [leaf, hname, hstrip, hcode]
    rfl
  refine ⟨_, hleaf, rfl, ?_⟩
  exact (Node.compileContent_of_leaf rfl rfl hroutine).trans (hcontent _ _ rfl)

theorem replaces_showCode (suffix : Text) (strict : Bool) :
    (standard suffix strict).Replaces .showCode (Marker.read? .code) ShowsCode := by
  intro text
  let leaf (found : Found Text) : Node :=
    { source := found.source
      content := found.value
      routine := some "revert"
      span := found.span text }
  refine ⟨fun found => .ok (leaf found), ?_, ?_⟩
  · exact (List.mapM_pure (m := Except Error) (f := leaf)).symm
  · intro found new hnew
    have hroutine : (Compiler.standard suffix).routines.get? "revert" =
        some (Compiler.writing fun node => Marker.decode node.content) :=
      (Compiler.get?_standard ..).trans rfl
    exact ⟨leaf found, rfl, rfl, (Node.compileContent_of_leaf rfl rfl hroutine).trans hnew⟩

theorem compileContent_showLiteral (suffix : Text) {node : Node} (hc : node.children = [])
    (hr : node.routine = some "globalrevert") :
    node.compileContent (.standard suffix) = (do
      return Target.statement "raw" ++ (← Marker.decode node.content) ++
        Target.statement "endraw") := by
  have hroutine : (Compiler.standard suffix).routines.get? "globalrevert" =
      some (Compiler.writing fun node => do
        return Target.statement "raw" ++ (← Marker.decode node.content) ++
          Target.statement "endraw") := (Compiler.get?_standard ..).trans rfl
  exact Node.compileContent_of_leaf hc hr hroutine

theorem replaces_showLiterals (suffix : Text) (strict : Bool) :
    (standard suffix strict).Replaces .showLiterals (Marker.read? .literal) ShowsLiteral := by
  intro text
  let leaf (found : Found Text) : Node :=
    { source := found.source
      content := found.value
      routine := some "globalrevert"
      span := found.span text }
  refine ⟨fun found => .ok (leaf found), ?_, ?_⟩
  · exact (List.mapM_pure (m := Except Error) (f := leaf)).symm
  · rintro found new ⟨content, hdecode, rfl⟩
    refine ⟨leaf found, rfl, rfl, (compileContent_showLiteral suffix rfl rfl).trans ?_⟩
    simp only [leaf, hdecode]
    rfl

theorem Replaces.runPass_standard {α : Type} {pass : Pass} {read : Text → Option (α × Text)}
    {Makes : α → Text → Prop} (h : (standard suffix strict).Replaces pass read Makes)
    (hp : pass ≠ .node) (he : Found.Edits read Makes text out) :
    (standard suffix strict).runPass pass text = .ok out :=
  h.runPass_eq (standard_left suffix strict) hp he

/-- Where the last pass succeeds every payload that it reads can be decoded. -/
theorem exists_decode_of_runPass_showLiterals
    (h : (standard suffix strict).runPass .showLiterals text = .ok out) :
    ∀ found ∈ Found.scan (Marker.read? .literal) text,
      ∃ content, Marker.decode found.value = .ok content := by
  have hnodes : (standard suffix strict).nodes .showLiterals text =
      .ok (Marker.nodes .literal text) := rfl
  rw [runPass_eq_splicePass (standard_left suffix strict) (by decide), splicePass, hnodes] at h
  simp only [bind, Except.bind] at h
  cases hc : (Marker.nodes .literal text).mapM
      (Node.compileContent (standard suffix strict).compiler) with
  | error e =>
    rw [hc] at h
    contradiction
  | ok contents =>
    have hall := List.forall₂_map_left_iff.1 (Except.mapM_eq_ok_iff.1 hc)
    intro found hf
    obtain ⟨content, -, hcontent⟩ := exists_of_mem_right hall.flip hf
    have hshow := (compileContent_showLiteral suffix rfl rfl).symm.trans hcontent
    dsimp only at hshow
    cases hd : Marker.decode found.value with
    | ok content => exact ⟨content, rfl⟩
    | error e =>
      rw [hd] at hshow
      contradiction

end Engine

end ThemeMarkup
