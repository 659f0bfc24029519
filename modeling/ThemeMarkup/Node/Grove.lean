import ThemeMarkup.Node.Insert

namespace ThemeMarkup

/-- Nodes by number, each with the numbers of its children. -/
structure Grove where
  nodes : Array (Piece × List Nat) := #[]

namespace Grove

/-- Why an insertion stops. -/
inductive Obstacle where
  | crossing (spans : Node.Crossing)
  | endless
  deriving DecidableEq, Repr

/-- A change of a grove, part of which is left if it fails. -/
abbrev Change := ExceptT Obstacle (StateM Grove)

def span (grove : Grove) (i : Nat) : Span :=
  match grove.nodes[i]? with
  | some (piece, _) => piece.span
  | none => .nowhere

def children (grove : Grove) (i : Nat) : List Nat :=
  match grove.nodes[i]? with
  | some (_, children) => children
  | none => []

def setChildren (grove : Grove) (i : Nat) (children : List Nat) : Grove :=
  ⟨grove.nodes.modify i fun (piece, _) => (piece, children)⟩

mutual

/-- Adds a tree; the number of its root is given. -/
def plant : Node → StateM Grove Nat
  | ⟨piece, children⟩ => do
    let children ← plantAll children
    modifyGet fun grove => (grove.nodes.size, ⟨grove.nodes.push (piece, children)⟩)

def plantAll : List Node → StateM Grove (List Nat)
  | [] => return []
  | node :: nodes => return (← plant node) :: (← plantAll nodes)

end

/-- The tree of a node down to a depth; none if it goes deeper. -/
def treeTo? (grove : Grove) : Nat → Nat → Option Node
  | 0, _ => none
  | depth + 1, i =>
    match grove.nodes[i]? with
    | some (piece, children) => (Node.mk piece ·) <$> children.mapM (grove.treeTo? depth)
    | none => none

/-- The tree of a node; none if it has no end. A path with more nodes than there are in the grove
passes one of them again. -/
def tree? (grove : Grove) (i : Nat) : Option Node :=
  grove.treeTo? (grove.nodes.size + 1) i

/-- Finds the place of a node among siblings; `nest` puts a node among the children of another. -/
def placeAmong (nest : Nat → Nat → Change Unit) (node : Nat) : List Nat → Change (List Nat)
  | [] => return [node]
  | sibling :: rest => do
    let grove ← get
    match (grove.span node).relation (grove.span sibling) with
    | .before => return node :: sibling :: rest
    | .after => return sibling :: (← placeAmong nest node rest)
    | .inside =>
      nest sibling node
      return sibling :: rest
    | .around =>
      -- if the rest fails, the sibling has two parents
      nest node sibling
      placeAmong nest node rest
    | .crossing => throw (.crossing (grove.span node, grove.span sibling))

/-- Inserts a node among the children of another, going down to a depth. -/
def insertTo : Nat → Nat → Nat → Change Unit
  | 0, _, _ => throw .endless
  | depth + 1, top, node => do
    let siblings ← placeAmong (insertTo depth) node ((← get).children top)
    modify fun grove => grove.setChildren top siblings

/-- Inserts a node among the children of another. Each step down leaves a node for one of its
children, on one of two sides, so that twice the number of nodes are steps enough. -/
def insertChild (top node : Nat) : Change Unit := do
  insertTo (2 * (← get).nodes.size + 1) top node

end Grove

end ThemeMarkup
