import ThemeMarkup.Path
import ThemeMarkup.Registry

namespace ThemeMarkup

structure ViewConfig where
  themePath : Option Path := none
  cachePath : Path := .ofText ".themec/cache"
  suffix : Text := ".html"
  paths : List Path := []
  exclude : List Text := ["vendor", "node_modules"]
  deriving DecidableEq, Repr

structure Config where
  delimiters : DelimiterSet := {}
  strictPairing : Bool := false
  view : ViewConfig := {}
  deriving DecidableEq, Repr

def Config.fileName : Text := "themec.yaml"

/-- The view configuration with its relative paths taken from a directory. -/
def ViewConfig.resolve (view : ViewConfig) (base : Path) : ViewConfig :=
  { view with
    themePath := view.themePath.map base.join
    cachePath := base.join view.cachePath
    paths := view.paths.map base.join }

def Config.resolve (config : Config) (base : Path) : Config :=
  { config with view := config.view.resolve base }

end ThemeMarkup
