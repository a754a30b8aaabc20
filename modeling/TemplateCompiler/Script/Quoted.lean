namespace TemplateCompiler.Script

/-- How one character of a text is written inside a string literal. -/
def escape (c : Char) : List Char :=
  if c = '\\' then ['\\', '\\']
  else if c = '"' then ['\\', '"']
  else if c = '\n' then [' ', '\\', '\n']
  else if c = '\r' then []
  else [c]

/-- The string literal of a text. -/
def quoteChars (cs : List Char) : List Char :=
  '"' :: (cs.flatMap escape ++ ['"'])

/-- The string literal of a string. -/
def quote (s : String) : String :=
  String.ofList (quoteChars s.toList)

end TemplateCompiler.Script
