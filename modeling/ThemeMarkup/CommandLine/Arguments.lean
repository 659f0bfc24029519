import ThemeMarkup.Path

namespace ThemeMarkup

inductive Setting where
  | output
  | config
  | pass
  | verbose
  | version
  | help
  deriving DecidableEq, Repr

/-- An option: how it is spelt, and whether a value belongs to it. -/
structure OptionForm where
  setting : Setting
  word : Text
  letter : Option Char := none
  takesValue : Bool := false
  deriving DecidableEq, Repr

structure Arguments where
  options : List (Setting × Text) := []
  operands : List Text := []
  deriving DecidableEq, Repr

/-- What one argument sets, and the setting whose value must follow it if there is one. -/
structure OptionUse where
  options : List (Setting × Text) := []
  pending : Option Setting := none
  deriving DecidableEq, Repr

namespace OptionUse

/-- The use of an option written as a word, with the value that is attached to it. -/
def ofWord? (forms : List OptionForm) (word : Text) (value : Option Text) : Option OptionUse :=
  match forms.find? fun form => form.word = word with
  | none => none
  | some form =>
    match form.takesValue, value with
    | true, some value => some { options := [(form.setting, value)] }
    | true, none => some { pending := some form.setting }
    | false, none => some { options := [(form.setting, [])] }
    | false, some _ => none

/-- The use of options written as letters; what follows the letter of an option with a value is the
value. -/
def ofLetters? (forms : List OptionForm) : Text → Option OptionUse
  | [] => some {}
  | letter :: letters =>
    match forms.find? fun form => form.letter = some letter with
    | none => none
    | some form =>
      if form.takesValue then
        if letters = [] then some { pending := some form.setting }
        else some { options := [(form.setting, letters)] }
      else
        (ofLetters? forms letters).map fun rest =>
          { rest with options := (form.setting, []) :: rest.options }

/-- The use of options that an argument makes which begins with a minus sign. -/
def ofText? (forms : List OptionForm) (text : Text) : Option OptionUse :=
  match text with
  | '-' :: '-' :: _ =>
    match Text.cut? ['='] text with
    | some (word, value) => ofWord? forms word (some value)
    | none => ofWord? forms text none
  | _ => ofLetters? forms text.tail

end OptionUse

namespace Arguments

def isOption (text : Text) : Bool :=
  text.head? = some '-' && text ≠ ['-']

/-- Reads arguments, of which the options may have the given forms. -/
def read? (forms : List OptionForm) (mixed : Bool) : List Text → Option Arguments
  | [] => some {}
  | text :: texts =>
    if text = ['-', '-'] then some { operands := texts }
    else if isOption text then
      match OptionUse.ofText? forms text with
      | none => none
      | some use =>
        match use.pending, texts with
        | none, texts =>
          (read? forms mixed texts).map fun rest =>
            { rest with options := use.options ++ rest.options }
        | some setting, value :: texts =>
          (read? forms mixed texts).map fun rest =>
            { rest with options := use.options ++ (setting, value) :: rest.options }
        | some _, [] => none
    else if mixed then
      (read? forms mixed texts).map fun rest => { rest with operands := text :: rest.operands }
    else some { operands := text :: texts }

def value? (arguments : Arguments) (setting : Setting) : Option Text :=
  (arguments.options.reverse.find? fun (given, _) => given = setting).map Prod.snd

def path? (arguments : Arguments) (setting : Setting) : Option Path :=
  (arguments.value? setting).map .ofText

/-- The setting, of those that take effect before all others, that was given first. -/
def eager? (arguments : Arguments) : Option Setting :=
  (arguments.options.map Prod.fst).find? fun setting => setting = .version || setting = .help

end Arguments

inductive Command where
  | compile (file : Path) (output config : Option Path)
  | cache (directories : List Path) (config : Option Path)
  | tree (file : Path) (pass : Text) (config : Option Path)
  deriving DecidableEq, Repr

inductive Request where
  | command (command : Command)
  | version
  | help
  | misuse
  deriving DecidableEq, Repr

namespace Request

def helpForm : OptionForm := ⟨.help, "--help", none, false⟩

def configForm : OptionForm := ⟨.config, "--config", some 'c', true⟩

def generalForms : List OptionForm :=
  [⟨.version, "--version", none, false⟩, ⟨.verbose, "--verbose", some 'v', false⟩, helpForm]

/-- The options of a command, and what its arguments ask for. -/
def commandForms (name : Text) : Option (List OptionForm × (Arguments → Option Command)) :=
  if name = "compile".toList then
    some ([⟨.output, "--output", some 'o', true⟩, configForm, helpForm], fun arguments =>
      match arguments.operands with
      | [file] =>
        some (.compile (.ofText file) (arguments.path? .output) (arguments.path? .config))
      | _ => none)
  else if name = "cache".toList then
    some ([configForm, helpForm], fun arguments =>
      some (.cache (arguments.operands.map .ofText) (arguments.path? .config)))
  else if name = "tree".toList then
    some ([⟨.pass, "--pass", some 'p', true⟩, configForm, helpForm], fun arguments =>
      match arguments.operands with
      | [file] =>
        some (.tree (.ofText file) ((arguments.value? .pass).getD "node".toList)
          (arguments.path? .config))
      | _ => none)
  else none

def ofCommand (name : Text) (texts : List Text) : Request :=
  match commandForms name with
  | none => .misuse
  | some (forms, toCommand?) =>
    match Arguments.read? forms true texts with
    | none => .misuse
    | some arguments =>
      if arguments.eager? = none then
        match toCommand? arguments with
        | some task => .command task
        | none => .misuse
      else .help

def ofArguments (texts : List Text) : Request :=
  match Arguments.read? generalForms false texts with
  | none => .misuse
  | some arguments =>
    match arguments.eager?, arguments.operands with
    | some .version, _ => .version
    | some _, _ => .help
    | none, [] => .misuse
    | none, name :: texts => ofCommand name texts

end Request

end ThemeMarkup
