import TemplateCompiler.Command.Grammar
import TemplateCompiler.Package.Mode

namespace TemplateCompiler.Command

open Package (OutputMode)

/-- What can be asked for when templates are compiled. -/
structure Arguments where
  config : Option String := none
  mode : Option OutputMode := none
  name : Option String := none
  args : Option String := none
  variableName : Option String := none
  moduleName : Option String := none
  holder : Option String := none
  keyStem : Option String := none
  indentWidth : Option Nat := none
  noStatics : Bool := false
  strict : Bool := false
  check : Bool := false
  output : Option String := none
  outDir : Option String := none
  files : List String := []
deriving DecidableEq, Repr

/-- A command to carry out. -/
inductive Invocation where
  | compile (arguments : Arguments)
  | completion (shell : String)
deriving DecidableEq, Repr

/-- A number of spaces: decimal digits, perhaps with a plus sign, below 2^64. -/
def width? (word : String) : Option Nat :=
  let digits :=
    match word.toList with
    | '+' :: digits => digits
    | digits => digits
  if digits = [] ∨ digits.any (!Char.isDigit ·) then none
  else
    let width := digits.foldl (fun value digit => 10 * value + (digit.toNat - '0'.toNat)) 0
    if width < UInt64.size then some width else none

/-- The shells that completion scripts exist for. -/
def shells : List String := ["bash", "elvish", "fish", "powershell", "zsh"]

/-- A switch that takes any value. -/
def textSwitch (long : String) (letter : Option Char) : Switch :=
  ⟨long, letter, .value fun _ => none⟩

/-- A switch that takes a path. -/
def pathSwitch (long : String) (letter : Option Char) : Switch :=
  ⟨long, letter, .value refuseEmptyPath⟩

/-- The switches of all commands. -/
def sharedSwitches : List Switch :=
  [⟨"verbose", some 'v', .count⟩, ⟨"quiet", some 'q', .count⟩, ⟨"help", some 'h', .help⟩]

/-- The command line for compiling templates. -/
def compileGrammar : Grammar where
  switches :=
    [ pathSwitch "config" (some 'c'),
      ⟨"mode", some 'm', .value fun word =>
        if (OutputMode.ofName? word).isSome then none else some .invalidValue⟩,
      textSwitch "name" (some 'n'),
      textSwitch "args" (some 'a'),
      textSwitch "variable" none,
      textSwitch "module" none,
      textSwitch "namespace" none,
      textSwitch "key-prefix" none,
      ⟨"indent-width", some 'i', .value fun word =>
        if (width? word).isSome then none else some .valueValidation⟩,
      ⟨"no-statics", none, .flag⟩,
      ⟨"strict", none, .flag⟩,
      ⟨"check", none, .flag⟩,
      pathSwitch "output" (some 'o'),
      pathSwitch "out-dir" (some 'd'),
      ⟨"version", some 'V', .version⟩ ] ++ sharedSwitches
  acceptsFiles := true
  subcommands := ["completion", "help"]

/-- The command line for completion scripts. -/
def completionGrammar : Grammar where
  switches :=
    ⟨"shell", some 's', .value fun word =>
      if shells.contains word then none else some .invalidValue⟩ :: sharedSwitches
  acceptsFiles := false
  subcommands := []

/-- The switches that exclude each other. -/
def exclusiveSwitches : List (String × String) :=
  [("check", "output"), ("check", "out-dir"), ("output", "out-dir"), ("verbose", "quiet")]

/-- The arguments for compiling that a command line gives. -/
def Arguments.ofMatches (found : Matches) : Arguments where
  config := found.value? "config"
  mode := (found.value? "mode").bind OutputMode.ofName?
  name := found.value? "name"
  args := found.value? "args"
  variableName := found.value? "variable"
  moduleName := found.value? "module"
  holder := found.value? "namespace"
  keyStem := found.value? "key-prefix"
  indentWidth := (found.value? "indent-width").bind width?
  noStatics := found.isSet "no-statics"
  strict := found.isSet "strict"
  check := found.isSet "check"
  output := found.value? "output"
  outDir := found.value? "out-dir"
  files := found.files

/-- Judges what is left to judge at the end of a command line. -/
def Progress.conclude (progress : Progress) : Except UsageError Matches := do
  let found ← progress.settle
  if found.hasConflict exclusiveSwitches then .error .argumentConflict else .ok found

/-- Reads the command line behind `completion`. -/
def readCompletion (words : List String) : Except UsageError String := do
  let (progress, _) ← completionGrammar.read words
  match (← progress.conclude).value? "shell" with
  | some shell => return shell
  | none => .error .missingRequiredArgument

/-- The answer to the command line behind `help`, which may name a command. -/
def helpAnswer (words : List String) : UsageError :=
  if words = [] ∨ words = ["completion"] ∨ words = ["help"] then .displayHelp
  else .invalidSubcommand

/-- Reads a command line. -/
def Invocation.read (words : List String) : Except UsageError Invocation := do
  let (progress, subcommand) ← compileGrammar.read words
  match subcommand with
  | none => return .compile (Arguments.ofMatches (← progress.conclude))
  | some ("completion", behind) =>
    let shell ← readCompletion behind
    let _ ← progress.conclude
    return .completion shell
  | some (_, behind) => .error (helpAnswer behind)

end TemplateCompiler.Command
