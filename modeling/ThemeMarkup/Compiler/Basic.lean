import ThemeMarkup.Attribute
import ThemeMarkup.Marker
import ThemeMarkup.Registry
import ThemeMarkup.Target

namespace ThemeMarkup

/-- What a node becomes once its children are compiled, apart from these. -/
structure Routine where
  run : Node → Except Error Piece
  source_eq : ∀ {node piece}, run node = .ok piece → piece.source = node.source

structure Compiler where
  registry : Registry
  routines : Table Routine

namespace Compiler

def writing (content : Node → Except Error Text) : Routine where
  run node := (content node).map fun content => { node.toPiece with content }
  source_eq := by
    intro node piece h
    cases hc : content node <;> simp only [hc, Except.map, reduceCtorEq, Except.ok.injEq] at h
    rw [← h]

def isMissing (attributes : Table Text) (key : Text) : Bool :=
  match attributes.get? key with
  | some (_ :: _) => false
  | _ => true

/-- The attributes that an argument gives to a node for which `allowed` names are known: bare text
goes to the first of them, and those not given are empty. -/
def readAttributes (allowed : List Text) (argument : Text) : Table Text :=
  allowed.foldl
    (fun attributes key =>
      if (attributes.get? key).isSome then attributes else attributes.insert key [])
    (Attribute.parse argument allowed.head?)

/-- The routine of attribute nodes, given the attribute names and the required ones by node name. -/
def attributeRoutine (known required : Table (List Text)) : Routine where
  run node :=
    let name := node.parentName.getD []
    let attributes := readAttributes ((known.get? name).getD []) node.content
    match ((required.get? name).getD []).find? (isMissing attributes) with
    | some key => .error (.tag { fault := .missingAttribute name key, span := node.span })
    | none => .ok { node.toPiece with attributes := attributes.map some }
  source_eq := by
    intro node piece h
    dsimp only at h
    split at h
    · contradiction
    · rw [← Except.ok.inj h]

variable [Marker.Serials]

def baseRoutines (known required : Table (List Text)) : Table Routine where
  entries := [
    ("global", writing fun node => return Marker.encode .literal node.content),
    ("revert", writing fun node => Marker.decode node.content),
    ("globalrevert", writing fun node => Marker.decode node.content),
    ("attributeNode", attributeRoutine known required)]

/-- The compiler of some tags, attributes and routines; routines of its own replace those that every
compiler has. -/
def ofTags (code : Table Text) (node : Table NodeTag) (known required : Table (List Text))
    (routines : Table Routine) : Compiler where
  registry := .ofTags code node
  routines := (baseRoutines known required).union routines

/-- Applies the routine that a node names, if it names one. -/
def apply (compiler : Compiler) (node : Node) : Except Error Piece :=
  match node.routine with
  | none => .ok node.toPiece
  | some identifier =>
    match compiler.routines.get? identifier with
    | none => .error (.unknownRoutine identifier)
    | some routine => routine.run node

def cacheHeader (stamp : Text) : Text :=
  Target.comment stamp

end Compiler

/-- A node as compiling leaves it, and the error that stopped it if there was one. -/
structure Compiled where
  node : Node
  error : Option Error := none

/-- The children of a node as compiling leaves them, the content with their sources replaced as far
as that went, and the error that stopped it if there was one. -/
structure Substituted where
  children : List Node
  content : Text
  error : Option Error := none

namespace Node

mutual

/-- Compiles a node: its children, the substitution of these in its content, and then itself. -/
def compile (compiler : Compiler) : Node → Compiled
  | ⟨piece, children⟩ =>
    let s := compileChildren compiler piece.content children
    let node : Node := ⟨{ piece with content := s.content }, s.children⟩
    match s.error with
    | some e => ⟨node, some e⟩
    | none =>
      match compiler.apply node with
      | .ok piece => ⟨⟨piece, node.children⟩, none⟩
      | .error e => ⟨node, some e⟩

/-- Compiles children one after the other and replaces the source of each, at its first occurrence
in what is left of the content, by its compiled content. -/
def compileChildren (compiler : Compiler) (content : Text) : List Node → Substituted
  | [] => ⟨[], content, none⟩
  | child :: children =>
    let c := child.compile compiler
    match c.error with
    | some e => ⟨c.node :: children, content, some e⟩
    | none =>
      match Text.cut? c.node.source content with
      | none =>
        let s := compileChildren compiler content children
        ⟨c.node :: s.children, s.content, s.error⟩
      | some (before, rest) =>
        -- what a child compiled to is not searched again
        let s := compileChildren compiler rest children
        ⟨c.node :: s.children, before ++ c.node.content ++ s.content, s.error⟩

end

def compileContent (compiler : Compiler) (node : Node) : Except Error Text :=
  let c := node.compile compiler
  match c.error with
  | some e => .error e
  | none => .ok c.node.content

end Node

end ThemeMarkup
