import ThemeMarkup.Span.Basic
import ThemeMarkup.Table

namespace ThemeMarkup

/-- Whether a tag opens or closes a node. -/
inductive TagKind where
  | head
  | tail
  deriving DecidableEq, Repr

/-- The attributes of a head tag. One may be given without text. -/
abbrev Attributes := Table (Option Text)

/-- What a node is apart from its children. The source is the text that the node was cut from; the
content is its payload at first and what it compiles to in the end. -/
structure Piece where
  source : Text := []
  content : Text := []
  /-- The identifier of the routine that compiles the node; none for mere structure. -/
  routine : Option Text := none
  span : Span := .nowhere
  name : Option Text := none
  kind : Option TagKind := none
  argument : Text := []
  isBody : Bool := false
  isAttribute : Bool := false
  /-- The name of the node that an attribute node belongs to. -/
  parentName : Option Text := none
  attributes : Attributes := ∅

/-- A piece with its children in order. -/
structure Node extends Piece where
  children : List Node := []

namespace Node

/-- The body among the children of a node. -/
def body? (node : Node) : Option Node :=
  node.children.find? (·.isBody)

/-- The content of a node's body, empty if it has none. -/
def bodyContent (node : Node) : Text :=
  match node.body? with
  | some body => body.content
  | none => []

/-- The attributes of a node, as the attribute node among its children holds them. -/
def givenAttributes (node : Node) : Attributes :=
  match node.children.find? (·.isAttribute) with
  | some child => child.attributes
  | none => ∅

mutual

def weight : Node → Nat
  | ⟨_, children⟩ => weights children + 1

def weights : List Node → Nat
  | [] => 0
  | node :: nodes => node.weight + weights nodes

end

@[simp] theorem weight_mk (piece : Piece) (children : List Node) :
    weight ⟨piece, children⟩ = weights children + 1 := rfl

@[simp] theorem weights_nil : weights [] = 0 := rfl

@[simp] theorem weights_cons (node : Node) (nodes : List Node) :
    weights (node :: nodes) = node.weight + weights nodes := rfl

theorem weight_eq (node : Node) : node.weight = weights node.children + 1 := by
  cases node; rfl

end Node

end ThemeMarkup
