namespace TemplateCompiler.Command.Path

/-- The nonempty parts of a path. -/
def parts (path : String) : List String :=
  ((path.toList.splitOn '/').filter (· ≠ [])).map String.ofList

/-- Whether a path starts at the root of the file system. -/
def isAbsolute (path : String) : Bool :=
  path.toList.head? == some '/'

/-- Whether a path ends with a slash, and so has to name a directory. -/
def hasTrailingSlash (path : String) : Bool :=
  path.toList.getLast? == some '/'

/-- Parts without the dots at the end, which name the directory before them. -/
def dropTrailingDots (parts : List String) : List String :=
  (parts.reverse.dropWhile (· == ".")).reverse

theorem length_dropTrailingDots_le (parts : List String) :
    (dropTrailingDots parts).length ≤ parts.length := by
  have hle := (List.dropWhile_suffix (· == ".") (l := parts.reverse)).length_le
  simpa [dropTrailingDots] using hle

/-- The last part of a path, if it is a name. -/
def fileName? (path : String) : Option String :=
  ((dropTrailingDots (parts path)).getLast?).filter (· != "..")

/-- A name without its extension: what stands before the last dot, unless that dot is the first
    character or the name is `..`. -/
def stemOf (name : List Char) : List Char :=
  if name = ['.', '.'] then name
  else
    match (name.reverse.dropWhile (· != '.')).tail.reverse with
    | [] => name
    | stem => stem

/-- The last part of a path without its extension. -/
def fileStem? (path : String) : Option String :=
  (fileName? path).map fun name => String.ofList (stemOf name.toList)

/-- A path inside a directory. A path from the root stays as it is, and so does a path inside a
    directory without a name. -/
def join (directory path : String) : String :=
  if isAbsolute path ∨ directory = "" then path
  else if hasTrailingSlash directory then directory ++ path
  else directory ++ "/" ++ path

/-- A path with the extension of its last part replaced. A path whose last part is no name stays as
    it is. -/
def withExtension (path extension : String) : String :=
  let all := path.toList.splitOn '/'
  match (all.reverse.dropWhile fun part => part = [] ∨ part = ['.']) with
  | [] => path
  | name :: outer =>
    if name = ['.', '.'] then path
    else
      let renamed := stemOf name ++ '.' :: extension.toList
      String.ofList (['/'].intercalate (renamed :: outer).reverse)

end TemplateCompiler.Command.Path
