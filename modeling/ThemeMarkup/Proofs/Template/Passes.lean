import ThemeMarkup.Proofs.Template.Stages

namespace ThemeMarkup.Template

variable {t : Template} {suffix : Text}

variable [Marker.Serials]

theorem runPass_hideLiterals (suffix : Text) (strict : Bool) (h : t.IsProper) :
    (Engine.standard suffix strict).runPass .hideLiterals (t.write .source) =
      .ok (t.write .hidden) := by
  apply (Engine.replaces_hideLiterals suffix strict).runPass_standard (by decide)
  exact edits_write apart_source (fun _ rest hp _ => step_hide hp rest) h

theorem runPass_code (suffix : Text) (strict : Bool) (h : t.IsProper) :
    (Engine.standard suffix strict).runPass .code (t.write .hidden) = .ok (t.write .guarded) := by
  apply (Engine.replaces_code suffix strict).runPass_standard (by decide)
  exact edits_write apart_hidden (fun _ rest hp _ => step_guard hp rest) h

theorem runPass_showCode (strict : Bool) (hs : '#' ∉ suffix) (h : t.IsProper) :
    (Engine.standard suffix strict).runPass .showCode (t.write (.compiled suffix)) =
      .ok (t.write (.shown suffix)) := by
  apply (Engine.replaces_showCode suffix strict).runPass_standard (by decide)
  exact edits_write (apart_compiled suffix) (fun _ _ hp hc => step_show hs hp hc) h

theorem runPass_showLiterals (strict : Bool) (hs : '#' ∉ suffix) (h : t.IsProper) :
    (Engine.standard suffix strict).runPass .showLiterals (t.write (.shown suffix)) =
      .ok (t.write (.target suffix)) := by
  apply (Engine.replaces_showLiterals suffix strict).runPass_standard (by decide)
  exact edits_write (apart_shown suffix) (fun _ _ hp hc => step_reveal hs hp hc) h

end ThemeMarkup.Template
