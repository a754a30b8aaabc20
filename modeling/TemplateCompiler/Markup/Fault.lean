namespace TemplateCompiler.Markup

/-- Why a piece of markup cannot be read. Positions in a tag count bytes from behind its `<`. -/
inductive Fault where
  | tagNotClosed
  | valueNotClosed (quote : Char)
  | instructionNotClosed
  | declarationNotClosed
  | commentNotClosed
  | cdataNotClosed
  | doctypeNotClosed
  | doctypeUnnamed
  | unknownMarkup
  | valueMissing (position : Nat)
  | quoteMissing (position : Nat) (quote : Char)
deriving DecidableEq, Repr

/-- The wording for markup that needs `closer` behind it. -/
def notClosed (what closer : String) : String :=
  "syntax error: " ++ what ++ " not closed: `" ++ closer ++ "` not found before end of input"

/-- The wording of a fault. -/
def Fault.message : Fault → String
  | tagNotClosed => notClosed "tag" ">"
  | valueNotClosed quote => notClosed "attribute value" (String.singleton quote)
  | instructionNotClosed => notClosed "processing instruction" "?>"
  | declarationNotClosed => notClosed "XML declaration" "?>"
  | commentNotClosed => notClosed "comment" "-->"
  | cdataNotClosed => notClosed "CDATA" "]]>"
  | doctypeNotClosed => notClosed "DOCTYPE" ">"
  | doctypeUnnamed =>
    "ill-formed document: `<!DOCTYPE>` declaration does not contain a name of a document type"
  | unknownMarkup => "syntax error: unknown or missed symbol in markup"
  | valueMissing position =>
    "position " ++ toString position ++ ": `=` must be followed by an attribute value"
  | quoteMissing position quote =>
    "position " ++ toString position ++ ": missing closing quote `" ++ String.singleton quote ++
      "` in attribute value"

end TemplateCompiler.Markup
