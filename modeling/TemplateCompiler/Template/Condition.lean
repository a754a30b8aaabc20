import TemplateCompiler.Template.AttributeRole

namespace TemplateCompiler.Template

open Markup (Attributes)

/-- The condition that always holds. -/
def alwaysTrue : String := "true"

/-- The expression of a condition. Where there is none to use, the condition always holds. -/
def conditionExpression (value : Option String) : String :=
  let text := Text.trim (value.getD "").toList
  let expression :=
    match unwrapBraces? text with
    | some inner => Text.trim inner
    | none => text
  if expression = [] then alwaysTrue else String.ofList expression

/-- What is wrong with a condition. -/
def conditionIssue? (value : Option String) : Option IssueKind :=
  match unwrapBraces? (Text.trim (value.getD "").toList) with
  | some inner => if inner.all Text.isBlank then some .emptyExpression else none
  | none => none

/-- The condition of a directive tag: its attribute `condition`, or else `expression`. -/
def tagCondition (attributes : Attributes) : Option String :=
  (attributes.get? "condition").or (attributes.get? "expression")

end TemplateCompiler.Template
