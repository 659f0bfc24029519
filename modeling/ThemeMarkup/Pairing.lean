import ThemeMarkup.Tag.Node

namespace ThemeMarkup

/-- Whether a tail name closes a head name: in lower case it begins the head name, or is the whole
head name if pairing is strict. -/
def nameCloses (strict : Bool) (head tail : Text) : Bool :=
  if strict then Text.lower head == Text.lower tail
  else (Text.lower tail).isPrefixOf (Text.lower head)

/-- A head tag with the tail tag that closes it, if there is one. -/
structure Pairing where
  head : Tag
  tail : Option Tag
  deriving DecidableEq, Repr

namespace Pairing

/-- The pairings of a list of tags in the order of their heads, and the tails that close nothing. -/
def match? (registry : Registry) (strict : Bool) :
    List Tag → Except Error (List Pairing × List Tag)
  | [] => .ok ([], [])
  | tag :: tags => do
    let (pairings, tails) ← match? registry strict tags
    match tag.kind, tails with
    | .tail, _ => return (pairings, tag :: tails)
    | .head, [] =>
      if registry.isSingle tag.name then return (⟨tag, none⟩ :: pairings, [])
      else throw (.tag { fault := .unpaired tag.name, span := tag.span })
    | .head, tail :: rest =>
      -- the nearest tail decides, also if one further off would close the head
      if nameCloses strict tag.name tail.name then return (⟨tag, some tail⟩ :: pairings, rest)
      else if registry.isSingle tag.name then return (⟨tag, none⟩ :: pairings, tail :: rest)
      else throw (.tag { fault := .unpaired tag.name, span := tag.span })

def attributeNode (head : Tag) : Node :=
  { source := head.source
    content := head.argument
    routine := some "attributeNode"
    span := head.span
    isAttribute := true
    parentName := some head.name }

/-- The node of the text between a head and a tail tag, if there is any. -/
def bodyNodes (text : Text) (head tail : Tag) : List Node :=
  match text.slice (head.span.last + 1) tail.span.first with
  | [] => []
  | body =>
    [{ source := body
       content := body
       span := Span.ofRange text (head.span.last + 1).toNat body.length
       isBody := true }]

/-- The node of a pairing: from the head tag to the tail tag, or the head tag alone. -/
def toNode (text : Text) (pairing : Pairing) : Node :=
  let head := pairing.head
  match pairing.tail with
  | none =>
    { source := head.source
      content := head.argument
      routine := some (Registry.nodeRoutine head.name)
      span := head.span
      name := some head.name
      children := [attributeNode head] }
  | some tail =>
    let source := text.slice head.span.first (tail.span.last + 1)
    { source
      content := source
      routine := some (Registry.nodeRoutine head.name)
      span := Span.ofRange text head.span.first.toNat source.length
      name := some head.name
      children := attributeNode head :: bodyNodes text head tail }

/-- The nodes that tags of a text form, the last head's first. -/
def nodes (registry : Registry) (strict : Bool) (text : Text) (tags : List Tag) :
    Except Error (List Node) := do
  let (pairings, _) ← match? registry strict tags
  return pairings.reverse.map (toNode text)

end Pairing

end ThemeMarkup
