import TemplateCompiler.Options
import TemplateCompiler.Package.Program
import TemplateCompiler.Text.Search

namespace TemplateCompiler.Package

/-- The patch primitives that every packaged template binds. -/
def primitives : List String :=
  ["patch", "elementOpen", "elementClose", "text", "skip", "currentElement"]

/-- How the patch primitives are bound: by one import, or one by one as members of the object that
    holds them, which may have to be declared from a source first. -/
inductive Bindings where
  | namedImport
  | members (source : Option String)
deriving DecidableEq, Repr

/-- How a mode wraps a program. -/
structure Layout where
  opening : Option String
  bindings : Bindings
  exposing : String
  closing : Option String
deriving DecidableEq, Repr

/-- The layout of a mode. -/
def OutputMode.layout : OutputMode → Layout
  | assigned =>
    { opening := some "\x7bassign\x7d(function () \x7b"
      bindings := .members none
      exposing := "return \x7bfn\x7d"
      closing := some "\x7d)()" }
  | browser =>
    { opening := some "window.\x7bname\x7d = (function () \x7b"
      bindings := .members none
      exposing := "return \x7bfn\x7d"
      closing := some "\x7d)()" }
  | esModule =>
    { opening := none
      bindings := .namedImport
      exposing := "export \x7bfn\x7d"
      closing := none }
  | commonModule =>
    { opening := none
      bindings := .members (some "require('\x7bmodule\x7d')")
      exposing := "module.exports = \x7bfn\x7d"
      closing := none }
  | asyncModule =>
    { opening :=
        some "define(['exports', '\x7bmodule\x7d'], function (exports, \x7bnamespace\x7d) \x7b"
      bindings := .members none
      exposing := "exports.\x7bname\x7d = (function () \x7b\n  return \x7bfn\x7d\n\x7d)()"
      closing := some "\x7d)" }

/-- What stands for the placeholders of a layout. -/
structure Names where
  moduleName : String
  holder : String
  name : String
  assign : String
deriving DecidableEq, Repr

/-- Fills the placeholders of a layout, one kind after the other. -/
def Names.fill (names : Names) (text : String) : String :=
  Text.replaceText "\x7bassign\x7d" names.assign
    (Text.replaceText "\x7bname\x7d" names.name
      (Text.replaceText "\x7bnamespace\x7d" names.holder
        (Text.replaceText "\x7bmodule\x7d" names.moduleName text)))

/-- The line that binds one primitive as a member of the object that holds them. -/
def memberLine (holder primitive : String) : String :=
  "var " ++ primitive ++ " = " ++ holder ++ "." ++ primitive

/-- The lines that bind the primitives. -/
def Bindings.lines (names : Names) : Bindings → List String
  | namedImport =>
    ["import \x7b" ++ ", ".intercalate primitives ++ "\x7d from \"" ++ names.moduleName ++ "\""]
  | members source =>
    (source.map fun source => "var " ++ names.holder ++ " = " ++ names.fill source).toList ++
      primitives.map (memberLine names.holder)

/-- What the function is assigned to in the mode with a variable; without one the function stands
    alone, kept apart from the script before it. -/
def assignment : Option String → String
  | some target => "var " ++ target ++ " = "
  | none => ";"

/-- The names that a program is packaged with. -/
def packageNames (options : Options) (program : Program) : Names where
  moduleName := options.patchApi.moduleName
  holder := options.patchApi.holder
  name := program.signature.name
  assign := assignment options.variableName

/-- The packaged text of a program. -/
def package (options : Options) (program : Program) : String :=
  let layout := options.mode.layout
  let names := packageNames options program
  let head := Text.joinLines
    ((layout.opening.map names.fill).toList ++ layout.bindings.lines names)
  let exposed := Text.replaceText "\x7bfn\x7d" (program.function options.indentWidth)
    (names.fill layout.exposing)
  let prologue := if program.prologue = "" then [] else [program.prologue]
  let blocks := "\n\n".intercalate (head :: prologue ++ [exposed])
  match layout.closing with
  | some closing => blocks ++ "\n" ++ names.fill closing ++ "\n"
  | none => blocks ++ "\n"

end TemplateCompiler.Package
