import TemplateCompiler.Markup.Attributes

namespace TemplateCompiler.Template

open Markup (Attributes)

/-- The kinds of opening tags. A script without a `type` is kept as written, and a template tag with
    a `name` or `args` describes the compiled function. All tags without a meaning of their own are
    elements. -/
inductive TagKind where
  | element
  | ifTag
  | elseIfTag
  | elseTag
  | eachTag
  | skipTag
  | script
  | metadata
deriving DecidableEq, Repr

/-- The kind of a tag by its name, which is case-sensitive, and its attributes. -/
def TagKind.of (name : String) (attributes : Attributes) : TagKind :=
  if name = "if" then ifTag
  else if name = "elseif" then elseIfTag
  else if name = "else" then elseTag
  else if name = "each" then eachTag
  else if name = "skip" then skipTag
  else if name = "script" ∧ ¬attributes.contains "type" then script
  else if name = "template" ∧ (attributes.contains "name" ∨ attributes.contains "args") then
    metadata
  else element

end TemplateCompiler.Template
