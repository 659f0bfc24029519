import ThemeMarkup.Compiler.Standard
import ThemeMarkup.Config.Basic
import ThemeMarkup.Engine

namespace ThemeMarkup

variable [Marker.Serials]

def Engine.standard (suffix : Text) (strict : Bool) : Engine where
  compiler := .standard suffix
  strict := strict

def Config.engine (config : Config) : Engine where
  compiler := .standard config.view.suffix
  delimiters := config.delimiters
  strict := config.strictPairing

end ThemeMarkup
