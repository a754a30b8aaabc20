import TemplateCompiler.Package.Mode

namespace TemplateCompiler

open Package (OutputMode)

/-- Where the patch primitives come from: the module to load, and the object that has them as
    members. -/
structure PatchApi where
  moduleName : String := "incremental-dom"
  holder : String := "IncrementalDOM"
deriving DecidableEq, Repr

/-- What a compile can be told. -/
structure Options where
  /-- Name of the function, unless the template gives one. -/
  name : Option String := none
  /-- Parameters of the function, unless the template gives them. -/
  args : Option String := none
  mode : OutputMode := .assigned
  /-- Variable that the function is assigned to in the mode that has one. -/
  variableName : Option String := none
  patchApi : PatchApi := {}
  /-- Start of all generated ids. -/
  keyStem : String := "k"
  indentWidth : Nat := 2
  /-- Sets literal attributes at every rendering. -/
  noStatics : Bool := false
  /-- Fails at the first problem. -/
  strict : Bool := false
deriving DecidableEq, Repr

/-- Name of the function if the template gives none. -/
def Options.functionName (options : Options) : String :=
  options.name.getD "description"

/-- Parameters of the function if the template gives none. -/
def Options.functionArgs (options : Options) : String :=
  options.args.getD "data"

end TemplateCompiler
