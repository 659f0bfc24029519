import ThemeMarkup.CommandLine.Run
import ThemeMarkup.CommandLine.Stamp

namespace ThemeMarkup.Program

def usage : String :=
  "Usage: themec [--version] [-v] compile FILE [-o PATH] [-c PATH]\n" ++
  "       themec [--version] [-v] cache [DIRECTORY ...] [-c PATH]\n" ++
  "       themec [--version] [-v] tree FILE [-p PASS] [-c PATH]"

def timeOf (metadata : IO.FS.Metadata) : Int :=
  metadata.modified.sec * 1000000000 + metadata.modified.nsec.toNat

/-- A store with the file at an entry of a directory, or with the directory that it is; if `deep`,
with all that is under that directory. -/
partial def takeUp (deep : Bool) (location : Location) (entry : IO.FS.DirEntry) (store : Store) :
    IO Store := do
  if ← entry.path.isDir then
    let modified := timeOf (← entry.path.metadata)
    let mut store := { store with
      directories := location :: store.directories
      directoryTimes := fun other =>
        if other = location then modified else store.directoryTimes other }
    if deep then
      for inner in ← entry.path.readDir do
        if (← inner.path.symlinkMetadata).type != .symlink then
          store ← takeUp true (location ++ [inner.fileName.toList]) inner store
    return store
  else if ← entry.path.pathExists then
    let octets := (← IO.FS.readBinFile entry.path).toList
    let file : File := ⟨octets, timeOf (← entry.path.metadata)⟩
    return { store with files := setEntry location file store.files }
  else return store

/-- A store with what a path leads to and with the directories on the way. -/
def takeUpPath (deep : Bool) (store : Store) (path : Path) : IO Store := do
  let here ← IO.currentDir
  let full := (Config.here store).join path
  let mut store := store
  for way in full.withParents.reverse do
    let entry : IO.FS.DirEntry := { root := here, fileName := String.ofList way.toText }
    store ← takeUp (deep && way = full) (Path.collapse way.parts) entry store
  return store

def pathsOf : Command → List Path
  | .compile file output config => file :: output.toList ++ config.toList
  | .cache directories config => directories ++ config.toList
  | .tree file _ config => file :: config.toList

def directoriesOf (store : Store) : Command → List Path
  | .cache directories config =>
    match Config.get store config with
    | .ok config => if directories = [] then Discovery.configured config.view else directories
    | .error _ => directories
  | _ => []

def storeFor (request : Request) : IO Store := do
  let seconds ← IO.FS.withTempFile fun _ path => return (← path.metadata).modified.sec
  let here := Path.ofText (← IO.currentDir).toString.toList
  let mut store : Store :=
    { workingDirectory := here.parts, clock := seconds, stamp := Stamp.ofSeconds seconds }
  match request with
  | .command task =>
    let configs := here.withParents.map fun place => place.join ⟨[], [Config.fileName]⟩
    for path in configs ++ pathsOf task do
      store ← takeUpPath false store path
    for path in directoriesOf store task do
      store ← takeUpPath true store path
    return store
  | _ => return store

def writeChanges (before after : Store) : IO Unit := do
  let here ← IO.currentDir
  for (location, file) in after.files do
    if (before.file? location).map File.octets ≠ some file.octets then
      let path := here / String.ofList (Path.toText ⟨['/'], location⟩)
      if let some parent := path.parent then IO.FS.createDirAll parent
      IO.FS.writeBinFile path ⟨file.octets.toArray⟩

def report : Outcome → IO Unit
  | .done shown => IO.print (String.ofList shown)
  | .failed shown text => do
    IO.print (String.ofList shown)
    IO.eprint (String.ofList text)
  | .crashed e => IO.eprintln (String.ofList e.message)
  | .helped => IO.println usage
  | .misused => IO.eprintln usage

end ThemeMarkup.Program

open ThemeMarkup in
def main (arguments : List String) : IO UInt32 := do
  let request := Request.ofArguments (arguments.map String.toList)
  let number ← IO.rand 1000000 9999999
  let _ : Marker.Serials := ⟨fun _ _ => number⟩
  let before ← Program.storeFor request
  let (outcome, after) := request.run .unstyled before
  Program.writeChanges before after
  Program.report outcome
  return outcome.exitCode.toUInt32
