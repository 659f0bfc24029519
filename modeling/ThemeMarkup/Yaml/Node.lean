import ThemeMarkup.Yaml.Token
import ThemeMarkup.Yaml.Word

namespace ThemeMarkup.Yaml

inductive NodeTag where
  | scalar (kind : Kind)
  | list
  | map
  | foreign
  deriving DecidableEq, Repr

def standardTags : Text := "tag:yaml.org,2002:"

def tagEnds : List (String × NodeTag) :=
  [("null", .scalar .null), ("bool", .scalar .truth), ("int", .scalar .whole),
    ("float", .scalar .decimal), ("timestamp", .scalar .moment), ("str", .scalar .text),
    ("merge", .scalar .merge), ("value", .scalar .default), ("seq", .list), ("map", .map)]

def NodeTag.ofName (name : Text) : NodeTag :=
  ((tagEnds.find? fun (tag, _) => standardTags ++ tag.toList = name).map (·.2)).getD .foreign

inductive Node where
  | scalar (tag : NodeTag) (text : Text)
  | list (tag : NodeTag) (items : List Node)
  | map (tag : NodeTag) (entries : List (Node × Node))

def Node.empty : Node :=
  .scalar (.scalar .null) []

abbrev Anchors := List (Text × Node)

abbrev Handles := List (Text × Text)

def standardHandles : Handles :=
  [(['!'], ['!']), (['!', '!'], standardTags)]

/-- Tokens that are left of some tokens, at least one having been taken. -/
abbrev Fewer (tokens : List Token) := { rest : List Token // rest.length < tokens.length }

abbrev Left (tokens : List Token) := { rest : List Token // rest.length ≤ tokens.length }

theorem length_lt_of_cons {left rest tokens : List Token} {token : Token}
    (h : left.length ≤ tokens.length) (hr : left = token :: rest) :
    rest.length < tokens.length := by
  subst hr
  exact h

/-- What is wrong with tokens among which the first one must not be. -/
def unexpected : List Token → Fault
  | .broken fault :: _ => fault
  | _ => .malformed

/-- What stands before a node: an anchor and a tag, in any order. -/
structure Properties where
  anchor : Option Text := none
  tag : Option WrittenTag := none

/-- The properties at the beginning of some tokens. -/
def Properties.read (tokens : List Token) : Properties × Left tokens :=
  match tokens with
  | .anchor anchor :: .tag tag :: rest => (⟨anchor, tag⟩, ⟨rest, by simp; omega⟩)
  | .tag tag :: .anchor anchor :: rest => (⟨anchor, tag⟩, ⟨rest, by simp; omega⟩)
  | .anchor anchor :: rest => (⟨anchor, none⟩, ⟨rest, by simp⟩)
  | .tag tag :: rest => (⟨none, tag⟩, ⟨rest, by simp⟩)
  | rest => ({}, ⟨rest, Nat.le_refl _⟩)

/-- The name of a tag; none if there is no tag or a bare mark, which leaves the kind of the node
open. -/
def tagName? (handles : Handles) : Option WrittenTag → Except Fault (Option Text)
  | none => .ok none
  | some ⟨none, suffix⟩ => .ok (if suffix = ['!'] then none else some suffix)
  | some ⟨some handle, suffix⟩ =>
    match handles.lookup handle with
    | some beginning => .ok (some (beginning ++ suffix))
    | none => .error .malformed

def WrittenTag.isBare (tag : WrittenTag) : Bool :=
  tag = ⟨none, ['!']⟩

/-- The tag of a scalar: that of its name, or else that of the word, if it is plain or has a bare
mark. -/
def scalarTag (name : Option Text) (isWord : Bool) (text : Text) : NodeTag :=
  match name with
  | some name => .ofName name
  | none => .scalar (if isWord then .ofWord text else .text)

def Anchors.set (anchors : Anchors) (anchor : Option Text) (node : Node) : Anchors :=
  match anchor with
  | some name => (name, node) :: anchors
  | none => anchors

/-- The collections that a node may be besides those in brackets and braces. -/
inductive Place where
  | flow
  | block
  | entry
  deriving DecidableEq

def endsFlowItem : Token → Bool
  | .comma | .listClose => true
  | _ => false

/-- The tokens that may end the value of an entry in braces. -/
def endsFlowEntry : Token → Bool
  | .comma | .mapClose => true
  | _ => false

def endsItem : Token → Bool
  | .item | .blockEnd => true
  | _ => false

/-- The tokens that may end the name or the value of an entry of an indented mapping. -/
def endsEntry : Token → Bool
  | .key | .value | .blockEnd => true
  | _ => false

/-- The tokens that may end a name besides those that end its entry. -/
def endsName (ends : Token → Bool) : Token → Bool
  | .value => true
  | token => ends token

/-- A reading of nodes: what was read, the anchors then known, and the tokens that are left. -/
abbrev Reading (α : Type) (left : Type) := α × Anchors × left

mutual

/-- The node at the beginning of some tokens. -/
def readNode (handles : Handles) (place : Place) (anchors : Anchors) (tokens : List Token) :
    Except Fault (Reading Node (Fewer tokens)) :=
  match tokens with
  | .alias name :: rest =>
    match anchors.lookup name with
    | some node => .ok (node, anchors, ⟨rest, by simp⟩)
    | none => .error .malformed
  | tokens => do
    let (properties, ⟨left, hl⟩) := Properties.read tokens
    let name ← tagName? handles properties.tag
    let anchor := properties.anchor
    if anchor.any fun name => (anchors.lookup name).isSome then throw .malformed
    let list := Node.list ((name.map NodeTag.ofName).getD .list)
    let map := Node.map ((name.map NodeTag.ofName).getD .map)
    match hr : left, place with
    | .scalar text plain :: rest, _ =>
      have := length_lt_of_cons hl hr
      let isWord := plain && properties.tag.isNone || properties.tag.any (·.isBare)
      let node := .scalar (scalarTag name isWord text) text
      return (node, anchors.set anchor node, ⟨rest, by omega⟩)
    | .listOpen :: rest, _ =>
      have := length_lt_of_cons hl hr
      let (items, anchors, ⟨rest, _⟩) ←
        readFlowItems handles true (anchors.set anchor (list [])) rest
      return (list items, anchors.set anchor (list items), ⟨rest, by omega⟩)
    | .mapOpen :: rest, _ =>
      have := length_lt_of_cons hl hr
      let (entries, anchors, ⟨rest, _⟩) ←
        readFlowEntries handles true (anchors.set anchor (map [])) rest
      return (map entries, anchors.set anchor (map entries), ⟨rest, by omega⟩)
    | .blockList :: rest, .block | .blockList :: rest, .entry =>
      have := length_lt_of_cons hl hr
      let (items, anchors, ⟨rest, _⟩) ← readItems handles (anchors.set anchor (list [])) rest
      return (list items, anchors.set anchor (list items), ⟨rest, by omega⟩)
    | .blockMap :: rest, .block | .blockMap :: rest, .entry =>
      have := length_lt_of_cons hl hr
      let (entries, anchors, ⟨rest, _⟩) ← readEntries handles (anchors.set anchor (map [])) rest
      return (map entries, anchors.set anchor (map entries), ⟨rest, by omega⟩)
    | .item :: rest, .entry =>
      have := length_lt_of_cons hl hr
      let (items, anchors, ⟨rest, _⟩) ← readBareItems handles (anchors.set anchor (list [])) rest
      return (list items, anchors.set anchor (list items), ⟨rest, by omega⟩)
    | rest, _ =>
      if h : rest.length < tokens.length then
        let node := .scalar (scalarTag name true []) []
        return (node, anchors.set anchor node, ⟨rest, h⟩)
      else throw (unexpected rest)
termination_by (tokens.length, 0)

/-- A node that is empty if a token of a kind comes instead. -/
def readOptional (handles : Handles) (place : Place) (ends : Token → Bool) (anchors : Anchors)
    (tokens : List Token) : Except Fault (Reading Node (Left tokens)) := do
  if tokens.head?.any ends then return (.empty, anchors, ⟨tokens, Nat.le_refl _⟩)
  let (node, anchors, ⟨rest, h⟩) ← readNode handles place anchors tokens
  return (node, anchors, ⟨rest, Nat.le_of_lt h⟩)
termination_by (tokens.length, 1)

/-- An entry of a mapping, the mark of its name passed. Both its sides may be missing. -/
def readEntry (handles : Handles) (place : Place) (ends : Token → Bool) (anchors : Anchors)
    (tokens : List Token) : Except Fault (Reading (Node × Node) (Left tokens)) := do
  let (name, anchors, ⟨rest, hn⟩) ← readOptional handles place (endsName ends) anchors tokens
  match hr : rest with
  | .value :: rest => do
    have := length_lt_of_cons hn hr
    let (value, anchors, ⟨rest, _⟩) ← readOptional handles place ends anchors rest
    return ((name, value), anchors, ⟨rest, by omega⟩)
  | rest => return ((name, .empty), anchors, ⟨rest, hr ▸ hn⟩)
termination_by (tokens.length, 2)

/-- The items up to a closing bracket. -/
def readFlowItems (handles : Handles) (isFirst : Bool) (anchors : Anchors) (tokens : List Token) :
    Except Fault (Reading (List Node) (Left tokens)) :=
  match tokens, isFirst with
  | .listClose :: rest, _ => .ok ([], anchors, ⟨rest, by simp⟩)
  | .comma :: .listClose :: rest, false => .ok ([], anchors, ⟨rest, by simp; omega⟩)
  | .comma :: rest, false => do
    let (items, anchors, ⟨rest, _⟩) ← readFlowItems handles true anchors rest
    return (items, anchors, ⟨rest, by simp; omega⟩)
  | tokens, false => .error (unexpected tokens)
  | .key :: rest, true => do
    let (entry, anchors, ⟨rest, _⟩) ← readEntry handles .flow endsFlowItem anchors rest
    let (items, anchors, ⟨rest, _⟩) ← readFlowItems handles false anchors rest
    return (.map .map [entry] :: items, anchors, ⟨rest, by simp; omega⟩)
  | tokens, true => do
    let (item, anchors, ⟨rest, _⟩) ← readNode handles .flow anchors tokens
    let (items, anchors, ⟨rest, _⟩) ← readFlowItems handles false anchors rest
    return (item :: items, anchors, ⟨rest, by omega⟩)
termination_by (tokens.length, 3)

/-- The entries up to a closing brace. -/
def readFlowEntries (handles : Handles) (isFirst : Bool) (anchors : Anchors)
    (tokens : List Token) : Except Fault (Reading (List (Node × Node)) (Left tokens)) :=
  match tokens, isFirst with
  | .mapClose :: rest, _ => .ok ([], anchors, ⟨rest, by simp⟩)
  | .comma :: .mapClose :: rest, false => .ok ([], anchors, ⟨rest, by simp; omega⟩)
  | .comma :: rest, false => do
    let (entries, anchors, ⟨rest, _⟩) ← readFlowEntries handles true anchors rest
    return (entries, anchors, ⟨rest, by simp; omega⟩)
  | tokens, false => .error (unexpected tokens)
  | .key :: rest, true => do
    let (entry, anchors, ⟨rest, _⟩) ← readEntry handles .flow endsFlowEntry anchors rest
    let (entries, anchors, ⟨rest, _⟩) ← readFlowEntries handles false anchors rest
    return (entry :: entries, anchors, ⟨rest, by simp; omega⟩)
  | tokens, true => do
    let (name, anchors, ⟨rest, _⟩) ← readNode handles .flow anchors tokens
    let (entries, anchors, ⟨rest, _⟩) ← readFlowEntries handles false anchors rest
    return ((name, .empty) :: entries, anchors, ⟨rest, by omega⟩)
termination_by (tokens.length, 3)

def readItems (handles : Handles) (anchors : Anchors) (tokens : List Token) :
    Except Fault (Reading (List Node) (Left tokens)) :=
  match tokens with
  | .item :: rest => do
    let (item, anchors, ⟨rest, _⟩) ← readOptional handles .block endsItem anchors rest
    let (items, anchors, ⟨rest, _⟩) ← readItems handles anchors rest
    return (item :: items, anchors, ⟨rest, by simp; omega⟩)
  | .blockEnd :: rest => .ok ([], anchors, ⟨rest, by simp⟩)
  | tokens => .error (unexpected tokens)
termination_by (tokens.length, 3)

/-- The items of a list in the column of its name, the mark of the first item passed. -/
def readBareItems (handles : Handles) (anchors : Anchors) (tokens : List Token) :
    Except Fault (Reading (List Node) (Left tokens)) := do
  let ends (token : Token) : Bool := endsItem token || endsEntry token
  let (item, anchors, ⟨rest, hi⟩) ← readOptional handles .block ends anchors tokens
  match hr : rest with
  | .item :: rest => do
    have := length_lt_of_cons hi hr
    let (items, anchors, ⟨rest, _⟩) ← readBareItems handles anchors rest
    return (item :: items, anchors, ⟨rest, by omega⟩)
  | rest => return ([item], anchors, ⟨rest, hr ▸ hi⟩)
termination_by (tokens.length, 3)

def readEntries (handles : Handles) (anchors : Anchors) (tokens : List Token) :
    Except Fault (Reading (List (Node × Node)) (Left tokens)) :=
  match tokens with
  | .key :: rest => do
    let (entry, anchors, ⟨rest, _⟩) ← readEntry handles .entry endsEntry anchors rest
    let (entries, anchors, ⟨rest, _⟩) ← readEntries handles anchors rest
    return (entry :: entries, anchors, ⟨rest, by simp; omega⟩)
  | .blockEnd :: rest => .ok ([], anchors, ⟨rest, by simp⟩)
  | tokens => .error (unexpected tokens)
termination_by (tokens.length, 3)

end

/-- What the directives at the head of a document say, and the tokens after them. -/
def readHead (hasVersion : Bool) (handles : Handles) :
    List Token → Except Fault (Handles × List Token)
  | .directive (.version major) :: rest =>
    if hasVersion || major ≠ 1 then .error .malformed else readHead true handles rest
  | .directive (.handle name beginning) :: rest =>
    if (handles.lookup name).isSome then .error .malformed
    else readHead hasVersion ((name, beginning) :: handles) rest
  | .directive .unknown :: rest => readHead hasVersion handles rest
  | .documentStart :: rest => .ok (handles, rest)
  | rest => .error (unexpected rest)

/-- Whether a token may follow the head of a document that holds nothing. -/
def endsDocument : Token → Bool
  | .directive _ | .documentStart | .documentEnd => true
  | _ => false

/-- The node that the only document among some tokens holds; none if there is no document. -/
def Node.ofTokens? (tokens : List Token) : Except Fault (Option Node) := do
  let (node, rest) ←
    match tokens with
    | [] => return none
    | .directive _ :: _ | .documentStart :: _ => do
      let (handles, rest) ← readHead false [] tokens
      if rest = [] then pure (Node.empty, rest)
      else
        let (node, _, ⟨rest, _⟩) ←
          readOptional (handles ++ standardHandles) .block endsDocument [] rest
        pure (node, rest)
    | tokens => do
      let (node, _, ⟨rest, _⟩) ← readNode standardHandles .block [] tokens
      pure (node, rest)
  match rest.dropWhile (· matches .documentEnd) with
  | [] => return node
  | rest => throw (unexpected rest)

end ThemeMarkup.Yaml
