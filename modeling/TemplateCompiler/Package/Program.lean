import TemplateCompiler.Text.Blank
import TemplateCompiler.Text.Lines

namespace TemplateCompiler.Package

/-- Name and parameters of a function. -/
structure Signature where
  name : String
  params : List String
deriving DecidableEq, Repr

namespace Signature

/-- Whether a character separates parameters. -/
def isSeparator (c : Char) : Bool :=
  Text.isBlank c || c == ','

/-- The parameters in a text, with blanks or commas between them. -/
def splitParams (params : List Char) : List (List Char) :=
  (params.splitOnP isSeparator).filter (· ≠ [])

/-- The signature with the parameters of a text. -/
def ofParams (name params : String) : Signature :=
  ⟨name, (splitParams params.toList).map String.ofList⟩

/-- The signature as it stands behind `function`. -/
def render (signature : Signature) : String :=
  signature.name ++ " (" ++ ", ".intercalate signature.params ++ ")"

end Signature

/-- A render function and the hoisted script. -/
structure Program where
  signature : Signature
  body : List String
  prologue : String
deriving DecidableEq, Repr

namespace Program

/-- Indents lines by `width` spaces, apart from empty lines and those that continue a string
    literal; `continued` tells whether the first line does. -/
def indentLines (width : Nat) : Bool → List String → List String
  | _, [] => []
  | continued, line :: lines =>
    (if continued || line == "" then line else Text.spaces width ++ line) ::
      indentLines width (Text.isContinued line) lines

/-- The function declaration with its body indented by `width` spaces. -/
def function (width : Nat) (program : Program) : String :=
  let body := Text.joinLines (indentLines width false program.body)
  let opening := "function " ++ program.signature.render ++ " \x7b\n"
  if body = "" then opening ++ "\x7d" else opening ++ body ++ "\n\x7d"

end Program

end TemplateCompiler.Package
