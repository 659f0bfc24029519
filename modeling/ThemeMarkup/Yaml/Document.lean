import ThemeMarkup.Yaml.Node

namespace ThemeMarkup.Yaml

/-- Faults in the order in which they were met, each with its depth. -/
abbrev Faults := List (Nat × Fault)

def Faults.first? : Faults → Option (Nat × Fault)
  | [] => none
  | fault :: faults =>
    match Faults.first? faults with
    | some other => some (if other.1 < fault.1 then other else fault)
    | none => some fault

/-- The entries of a mapping: those merged into it and its own. -/
structure Entries where
  merged : List (Data × Data) := []
  own : List (Data × Data) := []
  mergedFaults : Faults := []
  ownFaults : Faults := []
  isBroken : Bool := false

namespace Entries

def all (entries : Entries) : List (Data × Data) :=
  entries.merged ++ entries.own

def faults (depth : Nat) (entries : Entries) : Faults :=
  if entries.isBroken then [(depth, .malformed)] else entries.mergedFaults ++ entries.ownFaults

/-- The entries with those of a mapping put before them, to be merged. -/
def merge (entries other : Entries) : Entries :=
  { entries with
    merged := other.all ++ entries.merged
    mergedFaults := other.mergedFaults ++ other.ownFaults ++ entries.mergedFaults
    isBroken := entries.isBroken || other.isBroken }

def add (entries : Entries) (depth : Nat) (name value : Data × Faults) : Entries :=
  let hash := if name.1.isName then [] else [(depth, .malformed)]
  { entries with
    own := (name.1, value.1) :: entries.own
    ownFaults := name.2 ++ hash ++ value.2 ++ entries.ownFaults }

end Entries

def readScalar (depth : Nat) (tag : NodeTag) (text : Text) : Data × Faults :=
  match tag with
  | .scalar kind =>
    match kind.read text with
    | .ok data => (data, [])
    | .error fault => (.null, [(depth, fault)])
  | _ => (.null, [(depth, .malformed)])

mutual

/-- The datum of a node at a depth, and the faults in it. -/
def Node.read (depth : Nat) : Node → Data × Faults
  | .scalar tag text => readScalar depth tag text
  | .list tag items =>
    if tag = .list then
      let (data, faults) := readItemData (depth + 1) items
      (.list data, faults)
    else (.list [], [(depth, .malformed)])
  | .map tag entries =>
    if tag = .map then
      let entries := readEntryData (depth + 1) entries
      (.ofEntries entries.all, entries.faults (depth + 1))
    else (.map [], [(depth, .malformed)])

def readItemData (depth : Nat) : List Node → List Data × Faults
  | [] => ([], [])
  | node :: nodes =>
    let (data, faults) := node.read depth
    let (more, others) := readItemData depth nodes
    (data :: more, faults ++ others)

/-- The data of the entries of a mapping. -/
def readEntryData (depth : Nat) : List (Node × Node) → Entries
  | [] => {}
  | (.scalar (.scalar .merge) _, .map _ entries) :: rest =>
    (readEntryData depth rest).merge (readEntryData depth entries)
  | (.scalar (.scalar .merge) _, .list _ items) :: rest =>
    (readEntryData depth rest).merge (readMerged depth items)
  | (.scalar (.scalar .merge) _, _) :: rest => { readEntryData depth rest with isBroken := true }
  | (.scalar (.scalar .default) name, value) :: rest =>
    (readEntryData depth rest).add depth (.text name, []) (value.read depth)
  | (name, value) :: rest =>
    (readEntryData depth rest).add depth (name.read depth) (value.read depth)

/-- The data of the entries of mappings that are merged, the last mapping first. -/
def readMerged (depth : Nat) : List Node → Entries
  | [] => {}
  | .map _ entries :: rest =>
    (readEntryData depth entries).merge (readMerged depth rest)
  | _ :: _ => { isBroken := true }

end

def parse (text : Text) : Except Fault Data :=
  if text.all isAllowed then do
    match ← Node.ofTokens? (Token.ofText text) with
    | none => return .null
    | some node =>
      let (data, faults) := node.read 0
      match faults.first? with
      | some (_, fault) => throw fault
      | none => return data
  else throw .malformed

end ThemeMarkup.Yaml
