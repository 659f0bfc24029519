import ThemeMarkup.Proofs.Marked.Routine
import ThemeMarkup.Proofs.StandardPass

namespace ThemeMarkup

open Found (Edits Scans Silent)
open Marker (Marked IsForeign encode)
open Text (Unmarked)

theorem Sigil.isBraced_meaning (sigil : Sigil) (payload : Text) :
    (sigil.meaning payload).IsBraced := by
  cases sigil with
  | value => exact Target.isBraced_output _
  | echo => exact Target.isBraced_output _
  | note => exact Target.isBraced_comment _
  | statement => exact Target.isBraced_statement _

theorem Sigil.exists_name {name : Text} (h : name ∈ Standard.codeNames) :
    ∃ sigil : Sigil, name = sigil.name := by
  have hmem := Standard.mem_codeNames_iff.1 h
  simp only [List.map_cons, List.map_nil, List.mem_cons, List.not_mem_nil, or_false] at hmem
  rcases hmem with rfl | rfl | rfl | rfl
  · exact ⟨.value, rfl⟩
  · exact ⟨.echo, rfl⟩
  · exact ⟨.note, rfl⟩
  · exact ⟨.statement, rfl⟩

variable [Marker.Serials]

namespace Marker

/-- Markers that hold literals whose interiors are among the given ones. -/
def LiteralOnly (Interior : Text → Prop) : Marker → Text → Prop
  | .literal, content => Interior content
  | .code, _ => False

/-- Markers that hold literals or the output of code tags, in which literals may be held. -/
def Protected (Interior : Text → Prop) : Marker → Text → Prop
  | .literal, content => Interior content
  | .code, content => Marked .start (LiteralOnly Interior) content ∧ content.IsBraced

end Marker

open Marker (LiteralOnly Protected)

variable {Interior : Text → Prop} {suffix text payload : Text} {strict : Bool}

/-- The interiors of the literal spans of a text, without outer blanks. -/
def Literal.IsInterior (text content : Text) : Prop :=
  ∃ node ∈ Literal.nodes .usual text, node.content = content

theorem Engine.exists_hidden (suffix : Text) (strict : Bool) (h : Unmarked text) :
    ∃ out, (standard suffix strict).runPass .hideLiterals text = .ok out ∧
      Marked .hashes (LiteralOnly (Literal.IsInterior text)) out := by
  obtain ⟨out, hedits, hout⟩ : ∃ out,
      Edits (Literal.read? .usual) HidesLiteral text out ∧
        Marked .hashes (LiteralOnly (Literal.IsInterior text)) out := by
    apply ((Literal.steady_read? .usual).scans_scanFrom 0 text).exists_edits h
    · intro text h _
      exact .plain h
    · rintro gap source rest _ ⟨found, hf, rfl⟩ hin - -
      refine ⟨_, rfl, hin.of_infix ?_, ?_⟩
      · exact ((List.suffix_append source rest).trans (List.suffix_append gap _)).isInfix
      · intro out hout
        have hinterior : Literal.IsInterior text (Text.strip found.value) :=
          ⟨_, List.mem_map_of_mem hf, rfl⟩
        exact .marker (hin.of_infix (List.prefix_append ..).isInfix) hinterior hout
  exact ⟨out, (replaces_hideLiterals suffix strict).runPass_standard (by decide) hedits, hout⟩

theorem Sigil.marked_meaning {Holds : Marker → Text → Prop} (sigil : Sigil)
    (h : Marked .hashes Holds payload) : Marked .start Holds (sigil.meaning payload) := by
  have hstrip := h.strip
  have hweak : Marked .start Holds (Text.strip payload) :=
    hstrip.mono (by decide) fun _ _ holds => holds
  cases sigil with
  | value => exact (Standard.marked_toTarget hstrip).output
  | echo => exact (Standard.marked_toTarget hstrip).output
  | note => exact hweak.comment
  | statement => exact hweak.statement

/-- The payload of a code tag and what follows the tag hold whole markers only. -/
theorem Code.marked_of_read? {Holds : Marker → Text → Prop} {gap rest name payload : Text}
    (h : Marked .hashes Holds (gap ++ text))
    (hr : Code.read? ({} : DelimiterSet).code Standard.codeNames text =
      some ((name, payload), rest)) :
    Marked .hashes Holds gap ∧ Marked .hashes Holds payload ∧ Marked .hashes Holds rest := by
  obtain ⟨blanks, hb, hn, rfl⟩ := Code.spells_of_read? hr
  have hlead : ∀ c ∈ ("\x7b\x7b" ++ blanks).getLast?, IsForeign c := by
    intro c hc
    rcases List.mem_append.1 (List.mem_of_getLast? hc) with hc | hc
    · have hall : ∀ c ∈ ("\x7b\x7b" : Text), IsForeign c := by decide
      exact hall c hc
    · exact Marker.isForeign_of_isBlank (hb c hc)
  have hname : ¬ ("_#" : Text) <:+: name ∧ name.getLast? ≠ some '_' := by
    obtain ⟨sigil, rfl⟩ := Sigil.exists_name hn
    cases sigil <;> decide
  have hsplit : gap ++ ("\x7b\x7b" ++ blanks ++ name ++ payload ++ "\x7d\x7d" ++ rest) =
      gap ++ (("\x7b\x7b" ++ blanks) ++ (name ++ (payload ++ ("\x7d\x7d" ++ rest)))) := by
    simp only [List.append_assoc]
  obtain ⟨hgap, htag⟩ := (hsplit ▸ h).of_append (Marker.seam_of_head _ (by rintro c ⟨⟩; decide))
  have hpayload := (htag.of_append (Marker.seam_of_last hlead _)).2.of_lead hname.1 hname.2
  obtain ⟨hpayload, hclose⟩ := hpayload.of_append (Marker.seam_of_head _ (by rintro c ⟨⟩; decide))
  exact ⟨hgap, hpayload, (hclose.of_append (Marker.seam_of_last (by decide) _)).2⟩

/-- The second pass protects the output of code tags. -/
theorem Engine.exists_guarded_of_hidden (suffix : Text) (strict : Bool)
    (h : Marked .hashes (LiteralOnly Interior) text) :
    ∃ out, (standard suffix strict).runPass .code text = .ok out ∧
      Marked .hashes (Protected Interior) out := by
  have hmono {text : Text} (h : Marked .hashes (LiteralOnly Interior) text) :
      Marked .hashes (Protected Interior) text := by
    apply h.mono List.infix_rfl
    intro kind content holds
    cases kind with
    | code => contradiction
    | literal => exact holds
  obtain ⟨out, hedits, hout⟩ : ∃ out,
      Edits (Code.read? ({} : DelimiterSet).code Standard.codeNames) ProtectsCode text out ∧
        Marked .hashes (Protected Interior) out := by
    have hd : ({} : DelimiterSet).code.left ≠ [] := by decide
    apply ((Code.steady_read? hd Standard.codeNames).scans_scanFrom 0 text).exists_edits h
    · intro text h _
      exact hmono h
    · rintro gap source rest ⟨name, payload⟩ - hin - hr
      obtain ⟨hgap, hpayload, hrest⟩ := Code.marked_of_read? hin hr
      obtain ⟨sigil, hsigil⟩ := Sigil.exists_name (Code.spells_of_read? hr).choose_spec.2.1
      refine ⟨_, ⟨sigil, hsigil, rfl⟩, hrest, ?_⟩
      intro out hout
      exact (hmono hgap).append_encode ⟨sigil.marked_meaning hpayload,
        sigil.isBraced_meaning _⟩ hout
  exact ⟨out, (replaces_code suffix strict).runPass_standard (by decide) hedits, hout⟩

end ThemeMarkup
