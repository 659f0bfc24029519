import ThemeMarkup.Proofs.Except
import ThemeMarkup.Proofs.Template.Nesting
import ThemeMarkup.Proofs.Template.Passes

namespace ThemeMarkup

theorem Engine.runLocated_of_ok {engine : Engine} {pass : Pass} {text out : Text} (template : Text)
    (file : Option Text) (h : engine.runPass pass text = .ok out) :
    engine.runLocated template file text pass = .ok out := by
  rw [runLocated, h]

namespace Template

variable {t : Template}

section

variable [Marker.Serials]

/-- The five passes take the writers of a template one to the next. -/
theorem compile_print_of_suffix {suffix : Text} (hs : '#' ∉ suffix) (strict : Bool) (h : t.IsProper)
    (file : Option Text) :
    (Engine.standard suffix strict).compile t.print file = .ok (t.translate suffix) := by
  let run := (Engine.standard suffix strict).runLocated t.print file
  have hhide : run (t.write .source) .hideLiterals = .ok (t.write .hidden) :=
    Engine.runLocated_of_ok _ _ (runPass_hideLiterals suffix strict h)
  have hcode : run (t.write .hidden) .code = .ok (t.write .guarded) :=
    Engine.runLocated_of_ok _ _ (runPass_code suffix strict h)
  have hnode : run (t.write .guarded) .node = .ok (t.write (.compiled suffix)) :=
    Engine.runLocated_of_ok _ _ (runPass_node suffix strict h)
  have hshow : run (t.write (.compiled suffix)) .showCode = .ok (t.write (.shown suffix)) :=
    Engine.runLocated_of_ok _ _ (runPass_showCode strict hs h)
  have hreveal : run (t.write (.shown suffix)) .showLiterals = .ok (t.write (.target suffix)) :=
    Engine.runLocated_of_ok _ _ (runPass_showLiterals strict hs h)
  calc Pass.all.foldlM run (t.write .source)
      = [.code, .node, .showCode, .showLiterals].foldlM run (t.write .hidden) :=
        Except.foldlM_cons_of_ok hhide _
    _ = [.node, .showCode, .showLiterals].foldlM run (t.write .guarded) :=
        Except.foldlM_cons_of_ok hcode _
    _ = [.showCode, .showLiterals].foldlM run (t.write (.compiled suffix)) :=
        Except.foldlM_cons_of_ok hnode _
    _ = [.showLiterals].foldlM run (t.write (.shown suffix)) := Except.foldlM_cons_of_ok hshow _
    _ = [].foldlM run (t.write (.target suffix)) := Except.foldlM_cons_of_ok hreveal _
    _ = .ok (t.translate suffix) := rfl

/-- The standard engine compiles the source text of every proper template, whatever its pieces and
however deep they are nested, and what comes out is what the template means. -/
theorem compile_print (strict : Bool) (h : t.IsProper) (file : Option Text) :
    (Engine.standard ".html" strict).compile t.print file = .ok (t.translate ".html") :=
  compile_print_of_suffix (by decide) strict h file

end

/-- A list of items in a loop, each a link or, where there is none, literal text. -/
def itemList : Template :=
  .text "<ul>" <|
  .block (.loop ⟨"$items", by decide, by decide⟩ none (some ⟨"$item", by decide, by decide⟩) none)
    (.block (.condition ⟨"$item->url", by decide, by decide⟩)
      (.code .value "item->url" <|
      .single .otherwise <|
      .literal " \x7b\x7b $url \x7d\x7d " .nil)
      (.text "<br>" .nil)) <|
  .text "</ul>" .nil

attribute [local instance] Marker.Serials.sample

theorem compile_print_itemList :
    itemList.IsProper ∧
      itemList.print =
        "<ul>\x7b% list for=\"$items\" value=\"$item\" %\x7d" ++
          "\x7b% if condition=\"$item->url\" %\x7d\x7b\x7b $item->url \x7d\x7d" ++
          "\x7b% else %\x7d\x7b% tagself %\x7d \x7b\x7b $url \x7d\x7d \x7b% :tagself %\x7d" ++
          "\x7b% :if %\x7d<br>\x7b% :list %\x7d</ul>" ∧
      (Engine.standard ".html" true).compile itemList.print none = .ok
        ("<ul>\x7b% for item in items %\x7d\x7b% if item.url %\x7d\x7b\x7b item.url \x7d\x7d" ++
          "\x7b% else %\x7d\x7b% raw %\x7d\x7b\x7b $url \x7d\x7d\x7b% endraw %\x7d" ++
          "\x7b% endif %\x7d<br>\x7b% endfor %\x7d</ul>") := by
  have hproper : itemList.IsProper := by decide
  refine ⟨hproper, by decide +kernel, ?_⟩
  exact (compile_print true hproper none).trans (congrArg Except.ok (by decide))

end Template

end ThemeMarkup
