namespace TemplateCompiler.Command

/-- Why a command line is not carried out. Help and version are asked for in this way too. -/
inductive UsageError where
  | invalidValue
  | valueValidation
  | unknownArgument
  | argumentConflict
  | tooManyValues
  | missingRequiredArgument
  | invalidSubcommand
  | displayHelp
  | displayVersion
deriving DecidableEq, Repr

/-- What a switch does. -/
inductive SwitchKind where
  /-- Takes a value, which it may refuse. -/
  | value (refuse : String → Option UsageError)
  /-- Is set, at most once. -/
  | flag
  /-- May be repeated. -/
  | count
  | help
  | version

/-- A switch with its long name and, if it has one, its letter. -/
structure Switch where
  long : String
  letter : Option Char
  kind : SwitchKind

/-- The command line of a command. -/
structure Grammar where
  switches : List Switch
  acceptsFiles : Bool
  subcommands : List String

/-- The switches and file names of a command line. -/
structure Matches where
  values : List (String × String)
  flags : List String
  files : List String
deriving DecidableEq, Repr

/-- What the last arguments have begun: a switch whose value comes next, a switch with a value still
    to be judged, or a row of file names. -/
inductive Pending where
  | nothing
  | awaiting (switch : Switch)
  | given (switch : Switch) (value : String)
  | files (names : List String)

/-- What is known in the middle of a command line. -/
structure Progress where
  found : Matches
  pending : Pending

/-- Refuses an empty path. -/
def refuseEmptyPath (path : String) : Option UsageError :=
  if path = "" then some .invalidValue else none

namespace Matches

/-- Nothing found. -/
def empty : Matches := ⟨[], [], []⟩

/-- The value of a switch. -/
def value? (found : Matches) (long : String) : Option String :=
  found.values.lookup long

/-- Whether a switch is set. -/
def isSet (found : Matches) (long : String) : Bool :=
  found.flags.contains long

/-- Whether a switch occurs at all. -/
def mentions (found : Matches) (long : String) : Bool :=
  found.isSet long || (found.value? long).isSome

/-- Adds a switch with its value, which may not have one already. -/
def addValue (found : Matches) (switch : Switch) (value : String) : Except UsageError Matches :=
  if found.mentions switch.long then .error .argumentConflict
  else
    match switch.kind with
    | .value refuse =>
      match refuse value with
      | some refusal => .error refusal
      | none => .ok { found with values := found.values ++ [(switch.long, value)] }
    | _ => .error .tooManyValues

/-- Adds a switch without a value. -/
def addFlag (found : Matches) (switch : Switch) : Except UsageError Matches :=
  match switch.kind with
  | .help => .error .displayHelp
  | .version => .error .displayVersion
  | .count => .ok { found with flags := found.flags ++ [switch.long] }
  | .flag =>
    if found.isSet switch.long then .error .argumentConflict
    else .ok { found with flags := found.flags ++ [switch.long] }
  | .value _ => .error .invalidValue

/-- Adds file names, none of which may be empty. -/
def addFiles (found : Matches) (names : List String) : Except UsageError Matches :=
  match names.findSome? refuseEmptyPath with
  | some refusal => .error refusal
  | none => .ok { found with files := found.files ++ names }

end Matches

namespace Progress

/-- Judges what has been begun. -/
def settle (progress : Progress) : Except UsageError Matches :=
  match progress.pending with
  | .nothing => .ok progress.found
  | .awaiting _ => .error .invalidValue
  | .given switch value => progress.found.addValue switch value
  | .files names => progress.found.addFiles names

/-- Whether the next argument can name a subcommand. -/
def takesSubcommand (progress : Progress) : Bool :=
  match progress.pending with
  | .awaiting _ => false
  | .files _ => false
  | _ => true

/-- Takes a switch with a value in the same argument. -/
def attach (progress : Progress) (switch : Switch) (value : String) :
    Except UsageError Progress := do
  let settled ← progress.settle
  return ⟨← settled.addValue switch value, .nothing⟩

/-- Takes a switch whose value comes next. -/
def await (progress : Progress) (switch : Switch) : Except UsageError Progress := do
  return ⟨← progress.settle, .awaiting switch⟩

/-- Takes a switch without a value. -/
def raise (progress : Progress) (switch : Switch) : Except UsageError Progress := do
  let settled ← progress.settle
  return ⟨← settled.addFlag switch, .nothing⟩

/-- Takes a file name. -/
def addFile (progress : Progress) (grammar : Grammar) (name : String) :
    Except UsageError Progress :=
  if !grammar.acceptsFiles then .error .unknownArgument
  else
    match progress.pending with
    | .files names => .ok { progress with pending := .files (names ++ [name]) }
    | _ => do return ⟨← progress.settle, .files [name]⟩

/-- Takes an argument that is no switch: the value of the switch before it, or a file name. -/
def addPlain (progress : Progress) (grammar : Grammar) (word : String) :
    Except UsageError Progress :=
  match progress.pending with
  | .awaiting switch => .ok { progress with pending := .given switch word }
  | _ => progress.addFile grammar word

end Progress

namespace Grammar

/-- The switch of a long name. -/
def ofLong? (grammar : Grammar) (long : List Char) : Option Switch :=
  grammar.switches.find? (·.long.toList == long)

/-- The switch of a letter. -/
def ofLetter? (grammar : Grammar) (letter : Char) : Option Switch :=
  grammar.switches.find? (·.letter == some letter)

/-- Reads an argument from behind its two hyphens: a long name and, behind `=`, a value. -/
def readLong (grammar : Grammar) (progress : Progress) (word : List Char) :
    Except UsageError Progress :=
  let long := word.takeWhile (· != '=')
  match grammar.ofLong? long, word.drop long.length with
  | none, _ => .error .unknownArgument
  | some switch, [] =>
    match switch.kind with
    | .value _ => progress.await switch
    | _ => progress.raise switch
  | some switch, _ :: value =>
    match switch.kind with
    | .value _ => progress.attach switch (String.ofList value)
    | _ => .error .tooManyValues

/-- Reads an argument from behind its one hyphen: letters of switches, of which the last may be
    followed by its value with or without `=`. -/
def readLetters (grammar : Grammar) (progress : Progress) : List Char → Except UsageError Progress
  | [] => .ok progress
  | letter :: rest =>
    match grammar.ofLetter? letter with
    | none => .error .unknownArgument
    | some switch =>
      match switch.kind, rest with
      | .value _, [] => progress.await switch
      | .value _, '=' :: value => progress.attach switch (String.ofList value)
      | .value _, value => progress.attach switch (String.ofList value)
      | _, _ => do grammar.readLetters (← progress.raise switch) rest

/-- Reads one argument that is not behind `--`. -/
def readWord (grammar : Grammar) (progress : Progress) (word : String) :
    Except UsageError Progress :=
  match word.toList with
  | '-' :: '-' :: long => grammar.readLong progress long
  | '-' :: letter :: letters => grammar.readLetters progress (letter :: letters)
  | _ => progress.addPlain grammar word

/-- Reads the file names behind `--`. -/
def readFiles (grammar : Grammar) (progress : Progress) : List String → Except UsageError Progress
  | [] => .ok progress
  | name :: names => do grammar.readFiles (← progress.addFile grammar name) names

/-- Reads a command line up to a subcommand, which is given back with the arguments behind it. -/
def readWords (grammar : Grammar) (progress : Progress) :
    List String → Except UsageError (Progress × Option (String × List String))
  | [] => .ok (progress, none)
  | word :: words =>
    if progress.takesSubcommand && grammar.subcommands.contains word then
      .ok (progress, some (word, words))
    else if word = "--" then do return (← grammar.readFiles progress words, none)
    else do grammar.readWords (← grammar.readWord progress word) words

/-- Reads a whole command line. -/
def read (grammar : Grammar) (words : List String) :
    Except UsageError (Progress × Option (String × List String)) :=
  grammar.readWords ⟨Matches.empty, .nothing⟩ words

end Grammar

/-- Whether two switches that exclude each other both occur. -/
def Matches.hasConflict (found : Matches) (exclusive : List (String × String)) : Bool :=
  exclusive.any fun (one, other) => found.mentions one && found.mentions other

end TemplateCompiler.Command
