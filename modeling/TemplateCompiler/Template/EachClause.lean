import TemplateCompiler.Script.Identifier
import TemplateCompiler.Text.Blank
import TemplateCompiler.Text.Search

namespace TemplateCompiler.Template

/-- An iteration over `target` that binds each value, and optionally its key. -/
structure EachClause where
  binding : String
  itemKey : Option String
  target : String
deriving DecidableEq, Repr

namespace EachClause

/-- The text before the first comma and, if there is one, the text behind it. -/
def splitHead (head : List Char) : List Char × Option (List Char) :=
  match Text.splitOnce [','] head with
  | some (binding, itemKey) => (binding, some itemKey)
  | none => (head, none)

/-- A trimmed text as a string, if it is not empty. -/
def nonempty? (cs : List Char) : Option String :=
  let inner := Text.trim cs
  if inner = [] then none else some (String.ofList inner)

/-- Reads a clause. The first ` in ` separates the bound names from the target. -/
def parse? (expression : String) : Option EachClause :=
  match Text.splitOnce " in ".toList expression.toList with
  | none => none
  | some (head, target) =>
    let (binding, itemKey) := splitHead head
    match nonempty? binding, nonempty? target with
    | some binding, some target => some ⟨binding, itemKey.bind nonempty?, target⟩
    | _, _ => none

/-- The name to bind the item's key to: an identifier other than the value's name. -/
def itemBinding (clause : EachClause) : Option String :=
  clause.itemKey.filter fun itemKey => Script.isIdentifier itemKey && itemKey != clause.binding

end EachClause

end TemplateCompiler.Template
