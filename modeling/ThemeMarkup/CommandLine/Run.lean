import ThemeMarkup.Cache
import ThemeMarkup.CommandLine.Arguments
import ThemeMarkup.Config.Engine
import ThemeMarkup.Config.File
import ThemeMarkup.Discovery
import ThemeMarkup.Label.Outline

namespace ThemeMarkup

inductive Outcome where
  | done (shown : Text)
  | failed (shown report : Text)
  | crashed (error : Error)
  | helped
  | misused
  deriving DecidableEq, Repr

def Outcome.exitCode : Outcome → Nat
  | .done _ => 0
  | .failed .. => 1
  | .crashed _ => 1
  | .helped => 0
  | .misused => 2

namespace Command

def versionText : Text := "themec 0.1.0"

def line (text : Text) : Text :=
  text ++ ['\n']

/-- Whether an error is a matter of themes and configurations, and not of what they are stored in.
-/
def isExpected : Error → Bool
  | .tag _ => true
  | .unknownRoutine _ => true
  | .missingSource _ => true
  | .config _ => true
  | _ => false

def report (error : Error) : Text :=
  line ((if isExpected error then "Error: " else "Unexpected error: ") ++ error.message)

variable [Marker.Serials]

def compileFile (file : Path) (output config : Option Path) : Action Text := do
  let config ← Config.get (← get) config
  let compiled ← Cache.compileFile config.engine file output
  match output with
  | some path => return line ("Wrote compiled theme to " ++ path.toText)
  | none => return compiled

structure Console where
  store : Store
  shown : Text := []

abbrev Showing := ExceptT Error (StateM Console)

namespace Console

def onStore {α : Type} (action : Action α) : Showing α := fun console =>
  let (outcome, store) := action console.store
  (outcome, { console with store })

def showLine (markup : Markup) (label : Text) : Showing Unit := do
  let text ← markup.render label
  modify fun console => { console with shown := console.shown ++ line text }

end Console

def cacheDirectory (markup : Markup) (config : Config) (directory : Path) : Showing Unit := do
  let view := config.view
  let files ← Discovery.files (← get).store directory view.suffix view.exclude
  if files = [] then
    Console.showLine markup ("[yellow]Compile files not found in path `" ++ directory.toText ++
      "` and skipped.[/yellow]")
  else
    Console.showLine markup ("[green]Start to compile path `" ++ directory.toText ++ "`[/green]")
    for file in files do
      let cache := Cache.pathFor (← get).store.workingDirectory file view.cachePath
      let _ ← Console.onStore (Cache.compileFile config.engine file (some cache))

def cacheDirectories (markup : Markup) (given : List Path) (config : Option Path) :
    Showing Unit := do
  let config ← Config.get (← get).store config
  let directories ← Discovery.directories (← get).store config.view given
  Console.showLine markup "Start to cache view."
  for directory in directories do
    cacheDirectory markup config directory
  Console.showLine markup "[green]View files cache succeed.[/green]"

def treeOf (store : Store) (file : Path) (pass : Text) (config : Option Path) :
    Except Error Node := do
  if !store.isFile file then throw (.missingSource file.toText)
  let config ← Config.get store config
  let text ← store.read file
  config.engine.inspect pass text

/-- A tree as it is shown, under the name of its file and its pass. -/
def treeText (markup : Markup) (file : Path) (pass : Text) (root : Node) : Except Error Text := do
  let title := "[bold]" ++ markup.escape file.toText ++ "[/bold] (" ++ pass ++ ")"
  let lines ← (Outline.item title (Node.outlines markup root.children)).lines markup [] []
  return lines.flatMap line

def run (markup : Markup) : Command → StateM Store Outcome
  | .compile file output config => fun store =>
    match compileFile file output config store with
    | (.ok shown, store) => (.done shown, store)
    | (.error e, store) => (.failed [] (report e), store)
  | .cache directories config => fun store =>
    match cacheDirectories markup directories config { store } with
    | (.ok (), console) => (.done console.shown, console.store)
    | (.error e, console) => (.failed console.shown (report e), console.store)
  | .tree file pass config => fun store =>
    match treeOf store file pass config with
    | .error e => (.failed [] (report e), store)
    | .ok root =>
      match treeText markup file pass root with
      | .ok shown => (.done shown, store)
      | .error e => (.crashed e, store)

end Command

def Request.run [Marker.Serials] (markup : Markup) : Request → StateM Store Outcome
  | .command task => task.run markup
  | .version => return .done (Command.line Command.versionText)
  | .help => return .helped
  | .misuse => return .misused

end ThemeMarkup
