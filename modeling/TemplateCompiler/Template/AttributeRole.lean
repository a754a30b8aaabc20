import TemplateCompiler.Markup.Attributes
import TemplateCompiler.Script.Call
import TemplateCompiler.Template.Interpolation

namespace TemplateCompiler.Template

open Markup (Attribute Attributes)
open Script (Property)

/-- The attributes that control whether and how often an element is rendered. Chaining exists only
    between tags, so an attribute cannot carry it out. -/
inductive Directive where
  | condition
  | iteration
  | skip
  | chained
deriving DecidableEq, Repr

/-- The directive that an attribute name stands for. -/
def Directive.ofName? (name : String) : Option Directive :=
  if name = "if" then some condition
  else if name = "each" then some iteration
  else if name = "skip" then some skip
  else if name = "elseif" ∨ name = "else" then some chained
  else none

/-- The text between a brace at the start and the first closing brace, if that one is at the end. -/
def unwrapBraces? (value : List Char) : Option (List Char) :=
  match value with
  | '\x7b' :: rest =>
    match Text.splitOnce ['\x7d'] rest with
    | some (inner, []) => some inner
    | _ => none
  | _ => none

/-- The body of an event handler: its value without one brace at each end, trimmed. -/
def handlerBody (value : List Char) : List Char :=
  let opened := (Text.dropPrefix? ['\x7b'] value).getD value
  let closed := if opened.getLast? = some '\x7d' then opened.dropLast else opened
  Text.trim closed

/-- The function that an event handler becomes. -/
def handlerFunction (value : String) : String :=
  let body := handlerBody value.toList
  let opening := "function ($event) \x7b\n  var $element = this;\n"
  if body = [] then opening ++ "\x7d" else opening ++ "  " ++ String.ofList body ++ "\n\x7d"

/-- What an attribute is for. -/
inductive AttributeRole where
  | directive (directive : Directive)
  | property (expression : String) (issues : List Issue)
  | literal
deriving DecidableEq, Repr

namespace AttributeRole

/-- The property of a value inside one pair of braces. -/
def ofWrapped (inner : List Char) : AttributeRole :=
  if inner.all Text.isBlank then property (Script.quote "") [⟨.emptyExpression, 0⟩]
  else property (String.ofList inner) []

/-- The role of an attribute that is no directive, by its value: an event handler or a style object
    starting with a brace, one expression in braces, a text with expressions, or a literal. -/
def ofValue (name value : String) : AttributeRole :=
  let braced := value.toList.head? = some '\x7b'
  if braced ∧ "on".toList.isPrefixOf name.toList then property (handlerFunction value) []
  else if braced ∧ name = "style" then property value []
  else
    match unwrapBraces? value.toList with
    | some inner => ofWrapped inner
    | none =>
      if hasOpeningBrace value then
        let interpolation := Interpolation.ofString value
        property interpolation.expression interpolation.issues
      else literal

/-- The role of an attribute. -/
def ofAttribute (entry : Attribute) : AttributeRole :=
  match Directive.ofName? entry.1 with
  | some found => directive found
  | none => ofValue entry.1 entry.2

end AttributeRole

/-- Inserts an attribute before the first one whose name is not smaller. -/
def insertByName (entry : Attribute) : List Attribute → List Attribute
  | [] => [entry]
  | other :: others =>
    if other.1 < entry.1 then other :: insertByName entry others
    else entry :: other :: others

/-- Attributes in the order of their names by code point; equal names keep their order. -/
def sortByName (attributes : List Attribute) : List Attribute :=
  attributes.foldr insertByName []

/-- The script array of static attributes: names and values in turn. -/
def serializeStatics (statics : List Attribute) : String :=
  "[" ++ ", ".intercalate (statics.map fun (name, value) =>
    Script.quote name ++ ", " ++ Script.quote value) ++ "]"

/-- The attributes of an element by role. -/
structure Classified where
  condition : Option String
  iteration : Option String
  skip : Option String
  chained : List String
  statics : List Attribute
  properties : List Property
  issues : List (String × Issue)
deriving DecidableEq, Repr

namespace Classified

/-- The value of the entry with a directive. -/
def directiveValue? (directive : Directive) (entries : List Attribute) : Option String :=
  (entries.find? fun entry => Directive.ofName? entry.1 = some directive).map Prod.snd

/-- The property an attribute becomes; with `noStatics` a literal becomes one too. -/
def property? (noStatics : Bool) (entry : Attribute) : Option Property :=
  match AttributeRole.ofAttribute entry with
  | .directive _ => none
  | .property expression _ => some ⟨entry.1, expression⟩
  | .literal => if noStatics then some ⟨entry.1, Script.quote entry.2⟩ else none

/-- The issues of an attribute, with its name. -/
def attributeIssues (entry : Attribute) : List (String × Issue) :=
  match AttributeRole.ofAttribute entry with
  | .property _ issues => issues.map (entry.1, ·)
  | _ => []

/-- Sorts attributes by role. With `noStatics` no attribute is static. -/
def ofAttributes (attributes : Attributes) (noStatics : Bool) : Classified where
  condition := directiveValue? .condition attributes.entries
  iteration := directiveValue? .iteration attributes.entries
  skip := directiveValue? .skip attributes.entries
  chained := (attributes.entries.filter fun entry =>
    Directive.ofName? entry.1 = some .chained).map Prod.fst
  statics :=
    if noStatics then []
    else sortByName (attributes.entries.filter fun entry =>
      AttributeRole.ofAttribute entry = .literal)
  properties := attributes.entries.filterMap (property? noStatics)
  issues := attributes.entries.flatMap attributeIssues

end Classified

end TemplateCompiler.Template
