import ThemeMarkup.Proofs.Splice
import ThemeMarkup.Proofs.Template.Compile

namespace ThemeMarkup.Engine

variable {engine : Engine} {pass : Pass} {text : Text}

theorem runPass_of_nodes_nil (h : engine.nodes pass text = .ok []) :
    engine.runPass pass text = .ok text := by
  have hroot : (root text).compileContent engine.compiler = .ok text := by
    rw [Node.compileContent_of_routine rfl]
    exact Node.substituted_nil engine.compiler text
  rw [runPass, tree, h]
  exact hroot

theorem foldlM_runLocated_append {passes : List Pass}
    (h : ∀ pass ∈ passes, engine.nodes pass text = .ok []) (template : Text) (file : Option Text)
    (after : List Pass) :
    (passes ++ after).foldlM (engine.runLocated template file) text =
      after.foldlM (engine.runLocated template file) text := by
  induction passes with
  | nil => rfl
  | cons pass passes ih =>
    obtain ⟨hpass, hrest⟩ := List.forall_mem_cons.1 h
    have hkept := runLocated_of_ok template file (runPass_of_nodes_nil hpass)
    rw [List.cons_append, Except.foldlM_cons_of_ok hkept]
    exact ih hrest

/-- A text in which no literal span, no registered code tag and no registered node tag is found. -/
structure TagFree (engine : Engine) (text : Text) : Prop where
  literals : Literal.nodes engine.delimiters.literal text = []
  codes : Code.nodes engine.compiler.registry engine.delimiters.code text = .ok []
  tags : Tag.scan engine.compiler.registry engine.delimiters.node text = .ok []

theorem TagFree.nodes_eq (h : engine.TagFree text) :
    ∀ pass ∈ [Pass.hideLiterals, .code, .node], engine.nodes pass text = .ok [] := by
  intro pass hp
  simp only [List.mem_cons, List.not_mem_nil, or_false] at hp
  rcases hp with rfl | rfl | rfl
  · exact congrArg Except.ok h.literals
  · exact h.codes
  · rw [nodes, h.tags]
    rfl

/-- Only the last two passes do anything to text without tags, and nothing if they find no markers
in it. -/
theorem TagFree.compile_eq (h : engine.TagFree text) (file : Option Text) :
    engine.compile text file =
        [.showCode, .showLiterals].foldlM (engine.runLocated text file) text ∧
      ((∀ kind, Marker.nodes kind text = []) → engine.compile text file = .ok text) := by
  have hcompile := foldlM_runLocated_append h.nodes_eq text file [.showCode, .showLiterals]
  refine ⟨hcompile, ?_⟩
  intro hm
  have hlast : ∀ pass ∈ [Pass.showCode, .showLiterals], engine.nodes pass text = .ok [] := by
    intro pass hp
    simp only [List.mem_cons, List.not_mem_nil, or_false] at hp
    rcases hp with rfl | rfl
    · exact congrArg Except.ok (hm .code)
    · exact congrArg Except.ok (hm .literal)
  exact hcompile.trans (foldlM_runLocated_append hlast text file [])

section

variable [Marker.Serials]

theorem tagFree_of_not_mem (suffix : Text) (strict : Bool) (h : '\x7b' ∉ text) :
    (standard suffix strict).TagFree text := by
  have hscan {α : Type} {c : Char} {read : Text → Option (α × Text)}
      (hb : Found.Begins ['\x7b', c] read) : Found.scan read text = [] := by
    have hs := hb.silent_of_not_mem h []
    rw [List.append_nil] at hs
    exact (Found.Scans.done hs).scanFrom_eq
  have htags : Tag.Scanned text 0 (text ++ []) [] := (Tag.scanned_nil ..).skip h
  rw [List.append_nil] at htags
  have hbegins :
      Found.Begins ['\x7b', '\x7b'] (Code.read? ({} : DelimiterSet).code Standard.codeNames) :=
    Code.begins_read? ({} : DelimiterSet).code _
  have hliterals : Found.scan (Literal.read? .usual) text = [] := hscan Literal.begins_read?
  have hcodes := hscan hbegins
  constructor
  · exact congrArg (List.map _) hliterals
  · exact (congrArg (List.mapM _) hcodes).trans rfl
  · exact htags.scan_eq suffix

end

/-- Braces, a tag that is not registered and what markers begin with. -/
def braces : Text :=
  "\x7b\x7b a \x7d\x7d\x7b% b %\x7d __##"

attribute [local instance] Marker.Serials.sample

theorem TagFree.compile_eq_braces :
    (standard ".html" true).TagFree braces ∧ (∀ kind, Marker.nodes kind braces = []) ∧
      (standard ".html" true).compile braces none = .ok braces := by
  have htext : (standard ".html" true).TagFree braces := by
    constructor <;> cbv
  have hmarkers : ∀ kind, Marker.nodes kind braces = [] := by
    intro kind
    apply Marker.nodes_eq_nil
    cases kind <;> decide
  exact ⟨htext, hmarkers, (htext.compile_eq none).2 hmarkers⟩

def alike : Text :=
  "__##revert##START##1@eA==##END##revert##__"

/-- Text without tags that looks like a marker gives its place to what the marker would hold. -/
theorem compile_alike :
    (standard ".html" true).TagFree alike ∧
      (standard ".html" true).compile alike none = .ok ['x'] ∧ alike ≠ ['x'] := by
  have htext : (standard ".html" true).TagFree alike := tagFree_of_not_mem ".html" true (by decide)
  have hread : Marker.read? .code alike = some ("eA==".toList, []) := by decide
  have hdecode : Marker.decode "eA==" = .ok ['x'] := by decide
  have hshow : (standard ".html" true).runPass .showCode alike = .ok ['x'] :=
    (replaces_showCode ".html" true).runPass_standard (by decide)
      (.whole (by decide) hread hdecode)
  have hmarkers : Marker.nodes .literal ['x'] = [] := Marker.nodes_eq_nil (by decide)
  have hkept : (standard ".html" true).runPass .showLiterals ['x'] = .ok ['x'] :=
    runPass_of_nodes_nil (congrArg Except.ok hmarkers)
  refine ⟨htext, ?_, by decide⟩
  have hcompile := foldlM_runLocated_append htext.nodes_eq alike none [.showCode, .showLiterals]
  refine hcompile.trans ?_
  rw [Except.foldlM_cons_of_ok (runLocated_of_ok alike none hshow),
    Except.foldlM_cons_of_ok (runLocated_of_ok alike none hkept)]
  rfl

end ThemeMarkup.Engine
