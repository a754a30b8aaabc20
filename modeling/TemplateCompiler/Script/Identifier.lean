namespace TemplateCompiler.Script

/-- The characters an identifier may start with. -/
def isIdentifierStart (c : Char) : Bool :=
  c.isAlpha || c == '_' || c == '$'

/-- The characters an identifier may go on with. -/
def isIdentifierRest (c : Char) : Bool :=
  c.isAlphanum || c == '_' || c == '$'

/-- Whether a string is an identifier. -/
def isIdentifier (s : String) : Bool :=
  match s.toList with
  | [] => false
  | c :: cs => isIdentifierStart c && cs.all isIdentifierRest

end TemplateCompiler.Script
