namespace TemplateCompiler.Text

/-- The lines of a string; a string without a newline is one line. -/
def splitLines (s : String) : List String :=
  (s.toList.splitOn '\n').map String.ofList

/-- Lines with a newline between each two. -/
def joinLines (lines : List String) : String :=
  "\n".intercalate lines

/-- Whether a backslash ends a line, so that the next line belongs to the same string literal. -/
def isContinued (line : String) : Bool :=
  line.toList.getLast? == some '\\'

/-- A text of `count` spaces. -/
def spaces (count : Nat) : String :=
  String.ofList (List.replicate count ' ')

end TemplateCompiler.Text
