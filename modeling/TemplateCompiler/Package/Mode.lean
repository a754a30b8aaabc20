import TemplateCompiler.Text.Case

namespace TemplateCompiler.Package

/-- Where the packaged function ends up: in a variable, in a property of the window, or in the
    exports of one of three kinds of module. -/
inductive OutputMode where
  | assigned
  | browser
  | esModule
  | commonModule
  | asyncModule
deriving DecidableEq, Repr

namespace OutputMode

/-- All modes. -/
def all : List OutputMode := [assigned, browser, esModule, commonModule, asyncModule]

/-- The name of a mode. -/
def name : OutputMode → String
  | assigned => "default"
  | browser => "browser"
  | esModule => "es6"
  | commonModule => "cjs"
  | asyncModule => "amd"

/-- The mode of that very name. -/
def ofName? (name : String) : Option OutputMode :=
  all.find? (·.name == name)

/-- Other words for a mode. -/
def aliases : OutputMode → List String
  | assigned => ["global", "var"]
  | browser => ["window"]
  | esModule => ["esm", "module"]
  | commonModule => ["commonjs"]
  | asyncModule => []

/-- The mode of a name or another word for it, in upper or lower case. -/
def parse? (word : String) : Option OutputMode :=
  let spelled := Text.lowercase word
  all.find? fun mode => mode.name == spelled || mode.aliases.contains spelled

/-- The answer to a word that names no mode. -/
def unknownMessage (word : String) : String :=
  "Unknown output mode `" ++ word ++ "`, expected one of " ++ ", ".intercalate (all.map name)

end OutputMode

end TemplateCompiler.Package
