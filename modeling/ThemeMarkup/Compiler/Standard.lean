import ThemeMarkup.Compiler.Basic

namespace ThemeMarkup

namespace Expression

/-- Drops every dollar sign that stands before a letter or an underscore. -/
def dropSigils : Text → Text
  | '$' :: c :: text =>
    if Attribute.isNameStart c then dropSigils (c :: text) else '$' :: dropSigils (c :: text)
  | c :: text => c :: dropSigils text
  | [] => []

theorem dropSigils_cons {c : Char} (h : c ≠ '$') (text : Text) :
    dropSigils (c :: text) = c :: dropSigils text := by
  rw [dropSigils]
  intro d rest hc
  exact absurd hc h

theorem mem_dropSigils {c : Char} {text : Text} (h : c ∈ dropSigils text) : c ∈ text := by
  induction text using dropSigils.induct with
  | case1 d text hd ih =>
    rw [dropSigils, if_pos hd] at h
    exact List.mem_cons_of_mem _ (ih h)
  | case2 d text hd ih =>
    rw [dropSigils, if_neg hd] at h
    exact List.mem_cons.2 ((List.mem_cons.1 h).imp_right ih)
  | case3 d text hd ih =>
    rw [dropSigils] at h
    · exact List.mem_cons.2 ((List.mem_cons.1 h).imp_right ih)
    · exact hd
  | case4 => exact h

def pointArrows : Text → Text
  | '-' :: '>' :: text => '.' :: pointArrows text
  | c :: text => c :: pointArrows text
  | [] => []

theorem pointArrows_cons {c : Char} (h : c ≠ '-') (text : Text) :
    pointArrows (c :: text) = c :: pointArrows text := by
  rw [pointArrows]
  intro rest hc
  exact absurd hc h

theorem mem_pointArrows {c : Char} {text : Text} (h : c ∈ pointArrows text) :
    c ∈ text ∨ c = '.' := by
  induction text using pointArrows.induct with
  | case1 text ih =>
    rw [pointArrows] at h
    cases List.mem_cons.1 h with
    | inl he => exact .inr he
    | inr hm => exact (ih hm).imp_left fun hm => List.mem_cons_of_mem _ (List.mem_cons_of_mem _ hm)
  | case2 d text hd ih =>
    rw [pointArrows] at h
    · cases List.mem_cons.1 h with
      | inl he => exact .inl (he ▸ List.mem_cons_self)
      | inr hm => exact (ih hm).imp_left fun hm => List.mem_cons_of_mem _ hm
    · exact hd
  | case3 => exact .inl h

def toTarget (source : Text) : Text :=
  pointArrows (dropSigils (Text.strip source))

/-- Whether a value is an expression by its first character: a quote or a dollar sign. -/
def startsExpression : Text → Bool
  | c :: _ => c = '\'' || c = '"' || c = '$'
  | [] => false

/-- A value as a literal of the target in double quotes, unless it is an expression already. -/
def quote (value : Text) : Text :=
  let value := Text.strip value
  if startsExpression value || value.contains '(' then toTarget value
  else "\"" ++ value.flatMap (fun c => if c = '"' then ['\\', '"'] else [c]) ++ "\""

end Expression

namespace Standard

open Expression

def need (attributes : Attributes) (key : Text) : Except Error Text :=
  match attributes.get? key with
  | none => .error (.noEntry key)
  | some none => .error .noText
  | some (some value) => .ok value

/-- The text of an attribute, or another text if it is absent or empty. -/
def given (attributes : Attributes) (key otherwise : Text) : Text :=
  match attributes.get? key with
  | some (some (c :: value)) => c :: value
  | _ => otherwise

variable [Marker.Serials]

def outputCode (node : Node) : Text :=
  Marker.encode .code (Target.output (toTarget node.content))

def noteCode (node : Node) : Text :=
  Marker.encode .code (Target.comment node.content)

def statementCode (node : Node) : Text :=
  Marker.encode .code (Target.statement node.content)

def ifNode (node : Node) : Except Error Text := do
  let condition ← need node.givenAttributes "condition"
  return Target.statement ("if " ++ toTarget condition) ++ node.bodyContent ++
    Target.statement "endif"

def elseifNode (node : Node) : Except Error Text := do
  let condition ← need node.givenAttributes "condition"
  return Target.statement ("elif " ++ toTarget condition)

def listNode (node : Node) : Except Error Text := do
  let attributes := node.givenAttributes
  let iterable := toTarget (← need attributes "for")
  let key := toTarget (given attributes "key" [])
  let value := toTarget (given attributes "value" "value")
  let index := toTarget (given attributes "index" [])
  let head : Text :=
    if key = [] then "for " ++ value ++ " in " ++ iterable
    else "for " ++ key ++ ", " ++ value ++ " in " ++ iterable ++ ".items()"
  let counter : Text :=
    if index = [] then [] else Target.statement ("set " ++ index ++ " = loop.index0")
  return Target.statement head ++ counter ++ node.bodyContent ++ Target.statement "endfor"

/-- The last part of a file name, after the last slash. -/
def lastPart (name : Text) : Text :=
  (name.reverse.takeWhile (· ≠ '/')).reverse

/-- A file name with a suffix, unless it is an expression or its last part has a point. -/
def withSuffix (name suffix : Text) : Text :=
  if startsExpression name || (lastPart name).contains '.' then name else name ++ suffix

def includeNode (suffix : Text) (node : Node) : Except Error Text := do
  let attributes := node.givenAttributes
  let name := Text.strip (← need attributes "file")
  let file := withSuffix name (given attributes "ext" suffix)
  return Target.statement ("include " ++ quote file)

def assignNode (node : Node) : Except Error Text := do
  let attributes := node.givenAttributes
  let name := toTarget (← need attributes "name")
  let value := toTarget (given attributes "value" "none")
  return Target.statement ("set " ++ name ++ " = " ++ value)

def codeTags : Table Text :=
  Table.ofList [("$", "variable"), (":", "echo"), ("#", "note"), ("~", "statement")]

def nodeTags : Table NodeTag :=
  Table.ofList [("if", ⟨"if", false⟩), ("elseif", ⟨"elseif", true⟩), ("else", ⟨"else", true⟩),
    ("list", ⟨"list", false⟩), ("include", ⟨"include", true⟩), ("assign", ⟨"assign", true⟩),
    ("break", ⟨"break", true⟩), ("continue", ⟨"continue", true⟩)]

/-- The attributes of nodes; bare text is taken for the first. -/
def knownAttributes : Table (List Text) :=
  Table.ofList [("if", ["condition"]), ("elseif", ["condition"]),
    ("list", ["for", "key", "value", "index"]), ("include", ["file", "ext"]),
    ("assign", ["name", "value"])]

def requiredAttributes : Table (List Text) :=
  Table.ofList [("if", ["condition"]), ("elseif", ["condition"]), ("list", ["for"]),
    ("include", ["file"]), ("assign", ["name"])]

def routines (suffix : Text) : Table Routine where
  entries := [
    ("variableCode", Compiler.writing fun node => return outputCode node),
    ("echoCode", Compiler.writing fun node => return outputCode node),
    ("noteCode", Compiler.writing fun node => return noteCode node),
    ("statementCode", Compiler.writing fun node => return statementCode node),
    ("ifNode", Compiler.writing ifNode),
    ("elseifNode", Compiler.writing elseifNode),
    ("elseNode", Compiler.writing fun _ => return Target.statement "else"),
    ("listNode", Compiler.writing listNode),
    ("includeNode", Compiler.writing (includeNode suffix)),
    ("assignNode", Compiler.writing assignNode),
    ("breakNode", Compiler.writing fun _ => return Target.statement "break"),
    ("continueNode", Compiler.writing fun _ => return Target.statement "continue"),
    ("globalrevert", Compiler.writing fun node => do
      return Target.statement "raw" ++ (← Marker.decode node.content) ++ Target.statement "endraw")]

end Standard

def Compiler.standard [Marker.Serials] (suffix : Text) : Compiler :=
  .ofTags Standard.codeTags Standard.nodeTags Standard.knownAttributes
    Standard.requiredAttributes (Standard.routines suffix)

end ThemeMarkup
