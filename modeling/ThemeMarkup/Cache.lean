import ThemeMarkup.Engine
import ThemeMarkup.Store
import ThemeMarkup.Text.Digest

namespace ThemeMarkup.Cache

def suffix : Text := ".j2"

/-- The name of the cache file of a template, given by an absolute path. -/
def fileName (source : Path) : Text :=
  Digest.ofOctets (Utf8.encode source.toText) ++ ['.'] ++ source.stem ++ suffix

/-- The cache file in a directory for a template, whose path is taken from a working directory. -/
def pathFor (workingDirectory : Location) (file directory : Path) : Path :=
  let source := Path.resolve { root := ['/'], parts := workingDirectory } file
  { directory with parts := directory.parts ++ [fileName source] }

/-- Whether a cache file is missing or older than its template, which must be there if the cache is.
-/
def isStale (store : Store) (file cache : Path) : Except Error Bool :=
  if !store.present cache then .ok true
  else do
    let cached ← store.timeOf cache
    let source ← store.timeOf file
    return cached < source

/-- Writes compiled text under a header as a cache file, which takes its time from the clock. -/
def write (path : Path) (compiled header : Text) : Action Path := do
  let store ← get
  let octets := Utf8.encode (header ++ ['\n'] ++ compiled)
  match store.write path ⟨octets, store.clock⟩ with
  | .error e => throw e
  | .ok written =>
    set { written with clock := store.clock + 1 }
    return path

/-- Compiles a template file, and writes what it compiles to as a cache file if one is named. -/
def compileFile (engine : Engine) (file : Path) (cache : Option Path) : Action Text := do
  let store ← get
  if !store.isFile file then throw (.missingSource file.toText)
  let template ← store.read file
  let compiled ← engine.compile template (some file.toText)
  match cache with
  | none => return compiled
  | some path =>
    let _ ← write path compiled (Compiler.cacheHeader store.stamp)
    return compiled

end ThemeMarkup.Cache
