namespace TemplateCompiler.Text

/-- The characters with the Unicode property `White_Space`. -/
def isBlank (c : Char) : Bool :=
  let code := c.toNat
  (0x09 ≤ code && code ≤ 0x0D) || code == 0x20 || code == 0x85 || code == 0xA0 ||
    code == 0x1680 || (0x2000 ≤ code && code ≤ 0x200A) || code == 0x2028 || code == 0x2029 ||
    code == 0x202F || code == 0x205F || code == 0x3000

/-- A text without its blank characters at both ends. -/
def trim (cs : List Char) : List Char :=
  ((cs.dropWhile isBlank).reverse.dropWhile isBlank).reverse

/-- A string without its blank characters at both ends. -/
def trimmed (s : String) : String :=
  String.ofList (trim s.toList)

/-- Whether a string holds nothing but blank characters. -/
def allBlank (s : String) : Bool :=
  s.toList.all isBlank

/-- The blank characters of ASCII that separate the parts of a tag. -/
def isTagSpace (c : Char) : Bool :=
  c == ' ' || c == '\t' || c == '\n' || c == '\r'

end TemplateCompiler.Text
