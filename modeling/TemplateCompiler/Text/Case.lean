namespace TemplateCompiler.Text

/-- A text with the capital letters of ASCII made small. -/
def lower (cs : List Char) : List Char :=
  cs.map Char.toLower

@[simp]
theorem length_lower (cs : List Char) : (lower cs).length = cs.length := by
  simp [lower]

/-- A string with the capital letters of ASCII made small. -/
def lowercase (s : String) : String :=
  String.ofList (lower s.toList)

end TemplateCompiler.Text
