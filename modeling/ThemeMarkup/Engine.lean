import ThemeMarkup.Compiler.Basic
import ThemeMarkup.Node.Insert
import ThemeMarkup.Pairing
import ThemeMarkup.Span.Location
import ThemeMarkup.Tag.Code
import ThemeMarkup.Tag.Literal

namespace ThemeMarkup

/-- A pass over a template. -/
inductive Pass where
  | hideLiterals
  | code
  | node
  | showCode
  | showLiterals
  deriving DecidableEq, Repr

namespace Pass

def all : List Pass :=
  [.hideLiterals, .code, .node, .showCode, .showLiterals]

def name : Pass → Text
  | .hideLiterals => "global"
  | .code => "code"
  | .node => "node"
  | .showCode => "revert"
  | .showLiterals => "globalrevert"

def ofName? (name : Text) : Option Pass :=
  all.find? fun pass => pass.name = name

end Pass

/-- A compiler with the delimiters of tags and the way in which tags are paired. -/
structure Engine where
  compiler : Compiler
  delimiters : DelimiterSet := {}
  strict : Bool := false

namespace Engine

/-- The nodes that a pass finds in a text, in the order in which it inserts them. -/
def nodes (engine : Engine) (pass : Pass) (text : Text) : Except Error (List Node) :=
  let registry := engine.compiler.registry
  match pass with
  | .hideLiterals => .ok (Literal.nodes engine.delimiters.literal text)
  | .code => Code.nodes registry engine.delimiters.code text
  | .node => do
    let tags ← Tag.scan registry engine.delimiters.node text
    Pairing.nodes registry engine.strict text tags
  | .showCode => .ok (Marker.nodes .code text)
  | .showLiterals => .ok (Marker.nodes .literal text)

/-- A tree with a node inserted; spans that cross are an error. -/
def insert (root node : Node) : Except Error Node :=
  match root.insertChild node with
  | .ok root => .ok root
  | .error (span, other) => .error (.tag { fault := .crossing span other, span })

def root (text : Text) : Node :=
  { source := text, content := text, span := Span.locate text text 0 }

def tree (engine : Engine) (pass : Pass) (text : Text) : Except Error Node := do
  let nodes ← engine.nodes pass text
  nodes.foldlM insert (root text)

def runPass (engine : Engine) (pass : Pass) (text : Text) : Except Error Text := do
  let tree ← engine.tree pass text
  tree.compileContent engine.compiler

/-- An error of a pass with its place attached: in the template as given if the tag is found there
again, else in the text that the pass went over. -/
def locate (error : Error) (passText template : Text) (file : Option Text) : Error :=
  match error with
  | .tag e =>
    let located :=
      match if passText = template then none else e.span.relocate? passText template with
      | some span => { e with span }.locateIn template file
      | none => e.locateIn passText file
    match located with
    | .ok e => .tag e
    | .error e => e
  | e => e

/-- A pass over a text that stems from a template, errors showing their place. -/
def runLocated (engine : Engine) (template : Text) (file : Option Text) (text : Text)
    (pass : Pass) : Except Error Text :=
  match engine.runPass pass text with
  | .ok text => .ok text
  | .error e => .error (locate e text template file)

/-- Compiles a template, which may come from a file, through every pass. -/
def compile (engine : Engine) (template : Text) (file : Option Text := none) :
    Except Error Text :=
  Pass.all.foldlM (engine.runLocated template file) template

/-- The outcomes of passes over a text, each on what the one before it made, up to the first that
fails. -/
def outcomes (engine : Engine) : List Pass → Text → List (Except Error Text)
  | [], _ => []
  | pass :: passes, text =>
    match engine.runPass pass text with
    | .ok text => .ok text :: engine.outcomes passes text
    | .error e => [.error e]

/-- The tree of the pass of a name over a text, errors showing their place. -/
def inspect (engine : Engine) (passName text : Text) : Except Error Node :=
  match Pass.ofName? passName with
  | none => .error (.unknownPass passName)
  | some pass =>
    match engine.tree pass text with
    | .ok node => .ok node
    | .error e => .error (locate e text text none)

end Engine

end ThemeMarkup
