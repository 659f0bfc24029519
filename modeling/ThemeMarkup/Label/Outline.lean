import ThemeMarkup.Label.Markup
import ThemeMarkup.Node.Basic

namespace ThemeMarkup

inductive Outline where
  | item (label : Text) (children : List Outline)

def Piece.kindLabel (markup : Markup) (piece : Piece) : Text :=
  if piece.isBody then "[dim]body[/dim]"
  else if piece.isAttribute then
    "[magenta]attribute[/magenta] " ++ Text.quoted (markup.escape piece.content)
  else
    match piece.routine with
    | some (c :: routine) => "[cyan]" ++ markup.escape (c :: routine) ++ "[/cyan]"
    | _ => "[bold]root[/bold]"

/-- The label of a node: what it is and, if it is located, where. -/
def Piece.label (markup : Markup) (piece : Piece) : Text :=
  let s := piece.span
  if s.isLocated then
    piece.kindLabel markup ++ " [dim]" ++ Text.ofInt s.firstLine ++ ":" ++
      Text.ofInt s.firstColumn ++ " [" ++ Text.ofInt s.first ++ ", " ++ Text.ofInt s.last ++
      "][/dim]"
  else piece.kindLabel markup

mutual

def Node.outline (markup : Markup) : Node → Outline
  | ⟨piece, children⟩ => .item (piece.label markup) (Node.outlines markup children)

def Node.outlines (markup : Markup) : List Node → List Outline
  | [] => []
  | node :: nodes => node.outline markup :: Node.outlines markup nodes

end

mutual

/-- The lines of an outline: its label after `lead`, then what is below it after `indent`. -/
def Outline.lines (markup : Markup) (lead indent : Text) : Outline → Except Error (List Text)
  | .item label children => do
    let shown ← markup.render label
    let below ← Outline.linesOfAll markup indent children
    return (lead ++ shown) :: below

/-- The lines of outlines below one label, each branching off a line that ends at the last. -/
def Outline.linesOfAll (markup : Markup) (indent : Text) :
    List Outline → Except Error (List Text)
  | [] => .ok []
  | [last] => last.lines markup (indent ++ "└── ") (indent ++ "    ")
  | outline :: outlines => do
    let first ← outline.lines markup (indent ++ "├── ") (indent ++ "│   ")
    let rest ← Outline.linesOfAll markup indent outlines
    return first ++ rest

end

end ThemeMarkup
