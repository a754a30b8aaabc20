import TemplateCompiler.Script.Quoted

namespace TemplateCompiler.Script

/-- An attribute set each time an element is rendered: its name and the expression of its value. -/
structure Property where
  name : String
  expression : String
deriving DecidableEq, Repr

/-- The two arguments that pass a property. -/
def Property.arguments (property : Property) : List String :=
  [quote property.name, property.expression]

namespace Call

/-- The argument written for a missing key or missing statics. -/
def absent : String := "null"

/-- The arguments that open an element. Without properties, absent arguments at the end are left
    out. -/
def openArguments (tag : String) (key statics : Option String) (properties : List Property) :
    List String :=
  let optional := [key.getD absent, statics.getD absent]
  match properties with
  | [] => quote tag :: (optional.reverse.dropWhile (· == absent)).reverse
  | _ :: _ => quote tag :: optional ++ properties.flatMap Property.arguments

/-- Opens an element with its key, its static attributes and its properties. -/
def elementOpen (tag : String) (key statics : Option String) (properties : List Property) :
    String :=
  "elementOpen(" ++ ", ".intercalate (openArguments tag key statics properties) ++ ")"

/-- Closes an element. -/
def elementClose (tag : String) : String :=
  "elementClose(" ++ quote tag ++ ")"

/-- Renders the value of an expression as text. -/
def text (expression : String) : String :=
  "text(" ++ expression ++ ")"

/-- Keeps the children of the current element as they are. -/
def skip : String := "skip()"

end Call

end TemplateCompiler.Script
