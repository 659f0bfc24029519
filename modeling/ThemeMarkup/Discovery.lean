import ThemeMarkup.Config.Basic
import ThemeMarkup.Store
import ThemeMarkup.Text.Glob

namespace ThemeMarkup.Discovery

/-- A step of a pattern of paths: any number of directories, or a name of a pattern. -/
inductive Step where
  | anywhere
  | name (parts : List Glob.Part)
  deriving DecidableEq, Repr

/-- The step that a part of a pattern stands for. Two stars must stand alone. -/
def Step.ofText? (part : Text) : Option Step :=
  if part = ['*', '*'] then some .anywhere
  else if (Text.find? ['*', '*'] part).isSome then none
  else some (.name (Glob.parse part))

/-- The pattern of the files, in any directory, whose names end with a suffix. -/
def pattern? (suffix : Text) : Option (List Step) :=
  ((Path.ofText ('*' :: suffix)).parts.mapM Step.ofText?).map (.anywhere :: ·)

def leadsTo : List Step → List Text → Bool
  | [], names => names.isEmpty
  | _ :: _, [] => false
  | .anywhere :: steps, name :: names =>
    leadsTo steps (name :: names) || leadsTo (.anywhere :: steps) names
  | .name parts :: steps, name :: names => Glob.fits parts name && leadsTo steps names
termination_by steps names => (names.length, steps.length)

def isExcluded (exclude : List Text) (names : List Text) : Bool :=
  names.dropLast.any fun name => exclude.contains name

/-- The files under a directory that a pattern leads to, without those in excluded directories, in
the order of their paths. -/
def filesOf (store : Store) (directory : Path) (steps : List Step) (exclude : List Text) :
    List Path :=
  match store.locate? directory with
  | none => []
  | some location =>
    let found := (store.filesUnder location).filter fun names =>
      leadsTo steps names && !isExcluded exclude names
    (found.map fun names => directory.join ⟨[], names⟩).mergeSort Path.le

/-- The files under a directory whose names end with a suffix, without those in excluded
directories, in the order of their paths. -/
def files (store : Store) (directory : Path) (suffix : Text) (exclude : List Text) :
    Except Error (List Path) :=
  match pattern? suffix with
  | none => .error .badPattern
  | some steps =>
    .ok (if suffix.getLast? = some '/' then [] else filesOf store directory steps exclude)

def configured (view : ViewConfig) : List Path :=
  view.themePath.toList ++ view.paths

/-- The directories in which themes are sought: those given, or else those configured. There must be
one, and each must exist. -/
def directories (store : Store) (view : ViewConfig) (given : List Path) :
    Except Error (List Path) :=
  let sought := if given = [] then configured view else given
  if sought = [] then .error (.config .noDirectory)
  else
    match sought.find? fun directory => !store.isDirectory directory with
    | some missing => .error (.config (.missingDirectory missing.toText))
    | none => .ok sought

end ThemeMarkup.Discovery
