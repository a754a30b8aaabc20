import TemplateCompiler.Command.Arguments
import TemplateCompiler.Command.Config
import TemplateCompiler.Command.FileTree
import TemplateCompiler.Compile
import TemplateCompiler.Script.Identifier

namespace TemplateCompiler.Command

/-- Why a run fails. -/
inductive RunError where
  | unreadable (path : String)
  | unreadableStdin
  | invalidConfig (path : String)
  | directoryNeedsFiles
  | outputNeedsOneTemplate
  | notCompiled (path : Option String) (source : String) (failure : Failure)
  | problemsFound (count : Nat)
  | noOutputName
  | file (error : FileError)
deriving DecidableEq, Repr

/-- The wording of a failed run. -/
def RunError.message : RunError → String
  | unreadable path => "Failed to read " ++ path
  | unreadableStdin => "stream did not contain valid UTF-8"
  | invalidConfig path => "Invalid config " ++ path
  | directoryNeedsFiles => "--out-dir needs template files, not stdin"
  | outputNeedsOneTemplate => "--output accepts a single template; use --out-dir"
  | notCompiled path _ _ => "Failed to compile " ++ path.getD "stdin"
  | problemsFound count => toString count ++ " problem(s) found"
  | noOutputName => "Cannot derive an output name"
  | file error => error.message

/-- A template to compile, with its path unless it comes from standard input. -/
structure Input where
  path : Option String
  source : String
deriving DecidableEq, Repr

/-- The code compiled from a template. -/
structure Output where
  path : Option String
  code : String
deriving DecidableEq, Repr

/-- A problem to report about a template. -/
structure Report where
  input : Input
  diagnostic : Diagnostic
deriving DecidableEq, Repr

/-- What a run does to the world outside. -/
inductive Effect where
  | nothing
  | print (text : String)
  | writeFile (path text : String)
  | writeDirectory (directory : String) (outputs : List Output)
deriving DecidableEq, Repr

/-- What is known of the world outside: the texts of files and of standard input, which are missing
    if they are no text, and the options that are read from the text of a configuration, if it is
    one. -/
structure World where
  read? : String → Option String
  stdin : Option String
  parseConfig? : String → Option Options

/-- Options with those given on the command line in their place. -/
def Arguments.override (arguments : Arguments) (options : Options) : Options where
  name := arguments.name.or options.name
  args := arguments.args.or options.args
  mode := arguments.mode.getD options.mode
  variableName := arguments.variableName.or options.variableName
  patchApi :=
    { moduleName := arguments.moduleName.getD options.patchApi.moduleName
      holder := arguments.holder.getD options.patchApi.holder }
  keyStem := arguments.keyStem.getD options.keyStem
  indentWidth := arguments.indentWidth.getD options.indentWidth
  noStatics := options.noStatics || arguments.noStatics
  strict := options.strict || arguments.strict

/-- The options of the configuration file, if there is one. -/
def Arguments.configured (arguments : Arguments) (world : World) : Except RunError Options :=
  match arguments.config with
  | none => .ok {}
  | some path =>
    match world.read? path with
    | none => .error (.unreadable path)
    | some text =>
      match world.parseConfig? text with
      | none => .error (.invalidConfig path)
      | some options => .ok options

/-- Reads the templates at the given paths. -/
def readInputs (world : World) : List String → Except RunError (List Input)
  | [] => .ok []
  | path :: paths =>
    match world.read? path with
    | none => .error (.unreadable path)
    | some source => (readInputs world paths).map (⟨some path, source⟩ :: ·)

/-- The templates of a run. Without paths there is one, from standard input. -/
def Arguments.inputs (arguments : Arguments) (world : World) : Except RunError (List Input) :=
  if arguments.files = [] then
    match world.stdin with
    | none => .error .unreadableStdin
    | some source => .ok [⟨none, source⟩]
  else readInputs world arguments.files

/-- The options for a template. A function without another name is named after the file, if that is
    an identifier. -/
def optionsFor (options : Options) (path : Option String) : Options :=
  match options.name with
  | some _ => options
  | none =>
    { options with name := (path.bind Path.fileStem?).filter Script.isIdentifier }

/-- Compiles templates one after the other up to the first that fails. -/
def compileInputs (options : Options) : List Input → List Report × Except RunError (List Output)
  | [] => ([], .ok [])
  | input :: inputs =>
    match compile (optionsFor options input.path) input.source with
    | .error failure => ([], .error (.notCompiled input.path input.source failure))
    | .ok compiled =>
      let (reports, outputs) := compileInputs options inputs
      (compiled.diagnostics.map (⟨input, ·⟩) ++ reports,
        outputs.map (⟨input.path, compiled.code⟩ :: ·))

/-- The effect of writing compiled code. -/
def Arguments.effect (arguments : Arguments) (outputs : List Output) : Effect :=
  match arguments.outDir, arguments.output with
  | some directory, _ => .writeDirectory directory outputs
  | none, some path => .writeFile path (String.join (outputs.map Output.code))
  | none, none => .print (String.join (outputs.map Output.code))

/-- Reads everything that a run needs and refuses what cannot be written. -/
def Arguments.prepare (arguments : Arguments) (world : World) :
    Except RunError (Options × List Input) := do
  let options ← arguments.configured world
  let inputs ← arguments.inputs world
  if arguments.outDir.isSome ∧ inputs.any (·.path.isNone) then .error .directoryNeedsFiles
  else if arguments.output.isSome ∧ inputs.length > 1 then .error .outputNeedsOneTemplate
  else .ok (arguments.override options, inputs)

/-- The problems that a run reports, and what it does after that. -/
def Arguments.plan (arguments : Arguments) (world : World) : List Report × Except RunError Effect :=
  match arguments.prepare world with
  | .error error => ([], .error error)
  | .ok (options, inputs) =>
    match compileInputs options inputs with
    | (reports, .error error) => (reports, .error error)
    | (reports, .ok outputs) =>
      if arguments.check then
        (reports, if reports = [] then .ok .nothing else .error (.problemsFound reports.length))
      else (reports, .ok (arguments.effect outputs))

/-- The path that the code of a template is written to. -/
def outputPath? (directory : String) (output : Output) : Option String :=
  (output.path.bind Path.fileStem?).map fun stem =>
    Path.withExtension (Path.join directory stem) "js"

/-- Writes compiled code into a directory, one file after the other up to the first that fails. -/
def writeOutputs (directory : String) (tree : FileTree) : List Output → FileTree × Option RunError
  | [] => (tree, none)
  | output :: outputs =>
    match outputPath? directory output with
    | none => (tree, some .noOutputName)
    | some path =>
      match tree.write path output.code with
      | .error error => (tree, some (.file error))
      | .ok written => writeOutputs directory written outputs

/-- What a run leaves: its standard output, the files, the problems it reported, and why it
    failed. -/
structure Outcome where
  stdout : String
  tree : FileTree
  reports : List Report
  error : Option RunError
deriving DecidableEq, Repr

/-- Applies an effect to files. -/
def Effect.apply (tree : FileTree) : Effect → String × FileTree × Option RunError
  | nothing => ("", tree, none)
  | print text => (text, tree, none)
  | writeFile path text =>
    match tree.write path text with
    | .ok written => ("", written, none)
    | .error error => ("", tree, some (.file error))
  | writeDirectory directory outputs =>
    match tree.createDirectories directory with
    | .error error => ("", tree, some (.file error))
    | .ok created => ("", writeOutputs directory created outputs)

/-- Compiles templates in a tree of files. -/
def Arguments.run (arguments : Arguments) (stdin : Option String) (tree : FileTree)
    (parseConfig? : String → Option Options := readConfig?) : Outcome :=
  match arguments.plan ⟨tree.read?, stdin, parseConfig?⟩ with
  | (reports, .error error) => ⟨"", tree, reports, some error⟩
  | (reports, .ok effect) =>
    let (stdout, written, error) := effect.apply tree
    ⟨stdout, written, reports, error⟩

end TemplateCompiler.Command
