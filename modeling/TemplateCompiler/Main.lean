import TemplateCompiler.Command.Run

namespace TemplateCompiler

open Command

/-- The texts of files, as far as they can be read. -/
def readFiles (paths : List String) : IO (List (String × String)) :=
  paths.filterMapM fun (path : String) => do
    try
      let text ← IO.FS.readFile path
      return some (path, text)
    catch _ => return none

/-- Everything in standard input, if it is text. -/
def readStandardInput : IO (Option String) := do
  return String.fromUTF8? (← (← IO.getStdin).readBinToEnd)

/-- What the run needs to know of the world outside. -/
def observe (arguments : Arguments) : IO World := do
  let texts ← readFiles (arguments.config.toList ++ arguments.files)
  let stdin ← if arguments.files.isEmpty then readStandardInput else pure none
  return ⟨fun path => texts.lookup path, stdin, readConfig?⟩

/-- A problem as one line. -/
def reportLine (report : Report) : String :=
  let location := report.diagnostic.location report.input.source.utf8ByteSize
  report.input.path.getD "stdin" ++ ":" ++ toString location.offset ++ "+" ++
    toString location.length ++ ": " ++ report.diagnostic.problem.message

/-- The lines that tell why a run failed. -/
def errorLines : RunError → List String
  | .notCompiled path source (.reported diagnostic) =>
    [RunError.message (.notCompiled path source (.reported diagnostic)),
      reportLine ⟨⟨path, source⟩, diagnostic⟩]
  | error => [error.message]

/-- Writes compiled code into a directory. -/
def writeDirectory (directory : String) (outputs : List Output) : IO Unit := do
  IO.FS.createDirAll directory
  for output in outputs do
    match outputPath? directory output with
    | some path => IO.FS.writeFile path output.code
    | none => throw (IO.userError (RunError.message .noOutputName))

/-- Carries out the effect of a run. -/
def perform : Effect → IO Unit
  | .nothing => return
  | .print text => IO.print text
  | .writeFile path text => IO.FS.writeFile path text
  | .writeDirectory directory outputs => writeDirectory directory outputs

/-- Carries out a run and gives its exit code. -/
def runCompile (arguments : Arguments) : IO UInt32 := do
  let (reports, planned) := arguments.plan (← observe arguments)
  for report in reports do
    IO.eprintln (reportLine report)
  match planned with
  | .ok effect =>
    perform effect
    return 0
  | .error error =>
    for line in errorLines error do
      IO.eprintln line
    return 1

/-- The switches of a command line, one to a line. -/
def usageText : String :=
  "\n".intercalate (compileGrammar.switches.map fun switch => "  --" ++ switch.long)

/-- Answers a command line that asks for no run. -/
def answerUsage : UsageError → IO UInt32
  | .displayHelp => do
    IO.println usageText
    return 0
  | .displayVersion => return 0
  | _ => do
    IO.eprintln ("unusable command line; the switches are\n" ++ usageText)
    return 2

end TemplateCompiler

open TemplateCompiler in
/-- Compiles the templates named on the command line. -/
def main (words : List String) : IO UInt32 := do
  match Command.Invocation.read words with
  | .error usage => answerUsage usage
  | .ok (.completion shell) =>
    IO.eprintln ("there is no completion script for " ++ shell)
    return 1
  | .ok (.compile arguments) => runCompile arguments
