import TemplateCompiler.Command.Document
import TemplateCompiler.Options

namespace TemplateCompiler.Command

open Package (OutputMode)

/-- The value at a key: a default where there is none, and nothing where it is of the wrong kind. -/
def Document.readOr {α : Type} (document : Document) (key : List String) (default : α)
    (read : DocumentValue → Option α) : Option α :=
  match document.find key with
  | .absent => some default
  | .table => none
  | .value value => read value

/-- The text of a value. -/
def DocumentValue.text? : DocumentValue → Option String
  | .text content => some content
  | _ => none

/-- The truth of a value. -/
def DocumentValue.boolean? : DocumentValue → Option Bool
  | .boolean truth => some truth
  | _ => none

/-- The natural number of a value. -/
def DocumentValue.natural? : DocumentValue → Option Nat
  | .integer (.ofNat number) => some number
  | _ => none

/-- The options about patch primitives. -/
def Document.patchApi? (document : Document) : Option PatchApi :=
  let default : PatchApi := {}
  match document.find ["patch_api"] with
  | .absent => some default
  | .value _ => none
  | .table => do
    return { moduleName := ← document.readOr ["patch_api", "module"] default.moduleName (·.text?)
             holder := ← document.readOr ["patch_api", "namespace"] default.holder (·.text?) }

/-- The options of a document. -/
def Document.options? (document : Document) : Option Options := do
  let default : Options := {}
  return { name := ← document.readOr ["name"] default.name fun value => value.text?.map some
           args := ← document.readOr ["args"] default.args fun value => value.text?.map some
           mode := ← document.readOr ["mode"] default.mode fun value =>
             value.text?.bind OutputMode.ofName?
           variableName := ← document.readOr ["variable"] default.variableName fun value =>
             value.text?.map some
           patchApi := ← document.patchApi?
           keyStem := ← document.readOr ["key_prefix"] default.keyStem (·.text?)
           indentWidth := ← document.readOr ["indent_width"] default.indentWidth (·.natural?)
           noStatics := ← document.readOr ["no_statics"] default.noStatics (·.boolean?)
           strict := ← document.readOr ["strict"] default.strict (·.boolean?) }

/-- The options of a configuration. -/
def readConfig? (text : String) : Option Options :=
  (Document.parse? text).bind Document.options?

end TemplateCompiler.Command
