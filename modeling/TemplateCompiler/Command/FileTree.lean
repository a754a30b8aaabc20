import TemplateCompiler.Command.Path

namespace TemplateCompiler.Command

/-- What a name in a directory stands for. The content of a file is missing if it is no text. -/
inductive Entry where
  | directory
  | file (content : Option String)
deriving DecidableEq, Repr

/-- Why an operation on files fails. -/
inductive FileError where
  | notFound
  | exists
  | notADirectory
  | isADirectory
deriving DecidableEq, Repr

/-- The wording of a file error. -/
def FileError.message : FileError → String
  | notFound => "No such file or directory (os error 2)"
  | «exists» => "File exists (os error 17)"
  | notADirectory => "Not a directory (os error 20)"
  | isADirectory => "Is a directory (os error 21)"

/-- Files and directories by their places, which are the names that lead to them from the root, and
    the place of the working directory. -/
structure FileTree where
  entries : List (List String × Entry)
  workingDirectory : List String
deriving DecidableEq, Repr

namespace FileTree

/-- An empty working directory below the root. -/
def empty : FileTree := ⟨[(["work"], .directory)], ["work"]⟩

/-- What is at a place. The root itself is always there. -/
def get? (tree : FileTree) (place : List String) : Option Entry :=
  if place = [] then some .directory else tree.entries.lookup place

/-- Puts something at a place. -/
def set (tree : FileTree) (place : List String) (entry : Entry) : FileTree :=
  { tree with entries := tree.entries.filter (·.1 != place) ++ [(place, entry)] }

/-- Goes from a directory to one of its parts. The root is the directory around itself. -/
def enter (tree : FileTree) (directory : List String) (part : String) :
    Except FileError (List String) :=
  if part = "." then .ok directory
  else if part = ".." then .ok directory.dropLast
  else
    match tree.get? (directory ++ [part]) with
    | some .directory => .ok (directory ++ [part])
    | some (.file _) => .error .notADirectory
    | none => .error .notFound

/-- Goes from a directory through a list of parts. -/
def walk (tree : FileTree) : List String → List String → Except FileError (List String)
  | directory, [] => .ok directory
  | directory, part :: parts =>
    match tree.enter directory part with
    | .ok inner => tree.walk inner parts
    | .error failure => .error failure

/-- The place that the parts of a path lead on from: the root or the working directory. -/
def start (tree : FileTree) (path : String) : List String :=
  if Path.isAbsolute path then [] else tree.workingDirectory

/-- The directory and the name that parts lead to. The name is missing if the last part is none. -/
def locate (tree : FileTree) (start parts : List String) :
    Except FileError (List String × Option String) :=
  match tree.walk start parts.dropLast with
  | .error failure => .error failure
  | .ok directory => .ok (directory, parts.getLast?.filter fun part => part != "." && part != "..")

/-- The text of a file. -/
def read? (tree : FileTree) (path : String) : Option String :=
  if Path.hasTrailingSlash path then none
  else
    match tree.locate (tree.start path) (Path.parts path) with
    | .ok (directory, some name) =>
      match tree.get? (directory ++ [name]) with
      | some (.file content) => content
      | _ => none
    | _ => none

/-- Writes a text to a file, which need not exist. -/
def write (tree : FileTree) (path text : String) : Except FileError FileTree :=
  if path = "" then .error .notFound
  else
    match tree.locate (tree.start path) (Path.parts path) with
    | .error failure => .error failure
    | .ok (_, none) => .error .isADirectory
    | .ok (directory, some name) =>
      if Path.hasTrailingSlash path then .error .isADirectory
      else
        match tree.get? (directory ++ [name]) with
        | some .directory => .error .isADirectory
        | _ => .ok (tree.set (directory ++ [name]) (.file (some text)))

/-- Creates one directory. -/
def createDirectory (tree : FileTree) (start parts : List String) : Except FileError FileTree :=
  match tree.locate start parts with
  | .error failure => .error failure
  | .ok (_, none) => .error .exists
  | .ok (directory, some name) =>
    match tree.get? (directory ++ [name]) with
    | some _ => .error .exists
    | none => .ok (tree.set (directory ++ [name]) .directory)

/-- Whether parts lead to a directory. -/
def isDirectory (tree : FileTree) (start parts : List String) : Bool :=
  (tree.walk start parts).isOk

/-- The parts that lead to the directory around the last name. -/
def parentParts (parts : List String) : List String :=
  Path.dropTrailingDots (Path.dropTrailingDots parts).dropLast

/-- Creates a directory unless it is there. -/
def ensureDirectory (tree : FileTree) (start parts : List String) : Except FileError FileTree :=
  match tree.createDirectory start parts with
  | .ok created => .ok created
  | .error failure => if tree.isDirectory start parts then .ok tree else .error failure

theorem length_parentParts {parts : List String} (h : parts ≠ []) :
    (parentParts parts).length < parts.length := by
  have hpos := List.length_pos_iff.mpr h
  have hinner := Path.length_dropTrailingDots_le parts
  have houter := Path.length_dropTrailingDots_le (Path.dropTrailingDots parts).dropLast
  rw [List.length_dropLast] at houter
  simp only [parentParts]
  omega

/-- Creates a directory and those around it, as far as they are missing. -/
def ensureDirectories (tree : FileTree) (start parts : List String) : Except FileError FileTree :=
  if _hparts : parts = [] then .ok tree
  else
    match tree.createDirectory start parts with
    | .ok created => .ok created
    | .error .notFound =>
      match tree.ensureDirectories start (parentParts parts) with
      | .ok outer => outer.ensureDirectory start parts
      | .error failure => .error failure
    | .error failure => if tree.isDirectory start parts then .ok tree else .error failure
termination_by parts.length
decreasing_by exact length_parentParts _hparts

/-- Creates the directory of a path and those around it, as far as they are missing. -/
def createDirectories (tree : FileTree) (path : String) : Except FileError FileTree :=
  tree.ensureDirectories (tree.start path) (Path.parts path)

/-- Adds a file to the working directory, with the directories between. -/
def addFile (tree : FileTree) (path : String) (content : Option String) : FileTree :=
  let parts := Path.parts path
  let between := (List.range' 1 (parts.length - 1)).map fun count => parts.take count
  let outer := between.foldl
    (fun tree inner => tree.set (tree.workingDirectory ++ inner) .directory) tree
  outer.set (tree.workingDirectory ++ parts) (.file content)

/-- The tree of some files in an otherwise empty working directory. -/
def ofFiles (files : List (String × Option String)) : FileTree :=
  files.foldl (fun tree (path, content) => tree.addFile path content) empty

/-- The text files in the working directory that are not in an older tree in the same form, with
    their paths. -/
def changesSince (tree older : FileTree) : List (String × String) :=
  tree.entries.filterMap fun (place, entry) =>
    match entry with
    | .file (some text) =>
      if older.get? place = some entry ∨ ¬tree.workingDirectory <+: place then none
      else some ("/".intercalate (place.drop tree.workingDirectory.length), text)
    | _ => none

end FileTree

end TemplateCompiler.Command
