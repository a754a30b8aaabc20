import TemplateCompiler.Command.Run
import TemplateCompiler.Proofs.FunctionDescription
import TemplateCompiler.Proofs.Noninterference

namespace TemplateCompiler.Command

open Markup (Attributes Event Span)
open Package (Signature)
open Template (Describes Description Frame IdSource Metadata Session Setting)

section Configuration

/-- The options that are read from the configuration file, if there is one. -/
def Arguments.fileOptions? (arguments : Arguments) (world : World) : Option Options :=
  (arguments.config.bind world.read?).bind world.parseConfig?

/-- Without a configuration file no name and no parameters are configured. -/
theorem signature_of_configured {arguments : Arguments} {world : World} {configured : Options}
    (hconfigured : arguments.configured world = .ok configured) :
    configured.name = (arguments.fileOptions? world).bind Options.name ∧
      configured.args = (arguments.fileOptions? world).bind Options.args := by
  unfold Arguments.configured at hconfigured
  unfold Arguments.fileOptions?
  cases hconfig : arguments.config with
  | none =>
    rw [hconfig] at hconfigured
    cases hconfigured
    exact ⟨rfl, rfl⟩
  | some path =>
    rw [hconfig] at hconfigured
    dsimp only at hconfigured
    split at hconfigured
    · cases hconfigured
    rename_i text htext
    split at hconfigured
    · cases hconfigured
    rename_i options hoptions
    cases hconfigured
    simp only [Option.bind_some, htext, hoptions, and_self]

end Configuration

section Precedence

theorem name_optionsFor (options : Options) (path : Option String) :
    (optionsFor options path).name =
      options.name.or ((path.bind Path.fileStem?).filter Script.isIdentifier) := by
  unfold optionsFor
  cases hname : options.name with
  | none => rfl
  | some name => exact hname

theorem args_optionsFor (options : Options) (path : Option String) :
    (optionsFor options path).args = options.args := by
  unfold optionsFor
  split <;> rfl

/-- The name and the parameters come from the first source that gives them. -/
theorem signature_runSession {arguments : Arguments} {world : World} {configured : Options}
    (hconfigured : arguments.configured world = .ok configured) (path : Option String)
    (ids : IdSource) (size : Nat) (events : List Event) :
    let description := Description.first? [] events
    let options := optionsFor (arguments.override configured) path
    ((runSession options ids size events).program options).signature = .ofParams
      (((((description.bind Description.name?).or arguments.name).or
        ((arguments.fileOptions? world).bind Options.name)).or
        ((path.bind Path.fileStem?).filter Script.isIdentifier)).getD "description")
      ((((description.bind Description.args?).or arguments.args).or
        ((arguments.fileOptions? world).bind Options.args)).getD "data") := by
  intro description options
  obtain ⟨hname, hargs⟩ := signature_of_configured hconfigured
  have hmetadata : (runSession options ids size events).metadata =
      description.map Description.metadata :=
    (congrArg Session.metadata (Session.finish_eq _ size)).trans
      (Session.metadata_feedAll _ Session.start events)
  have hfunctionName : options.functionName = ((arguments.name.or configured.name).or
      ((path.bind Path.fileStem?).filter Script.isIdentifier)).getD "description" :=
    congrArg (·.getD "description") (name_optionsFor (arguments.override configured) path)
  have hfunctionArgs : options.functionArgs = (arguments.args.or configured.args).getD "data" :=
    congrArg (·.getD "data") (args_optionsFor (arguments.override configured) path)
  have hdescribed {α : Type} (field : Metadata → Option α) :
      (description.map Description.metadata).bind field =
        description.bind fun described => field described.metadata := by
    cases description <;> rfl
  simp only [Session.program, hmetadata, hdescribed, hfunctionName, hfunctionArgs, ← hname, ← hargs,
    Option.getD_or]
  rfl

end Precedence

/-- The signature of a compiled function follows one chain of precedence. The description of the
function is the first template tag with a `name` or `args` that is met while no tag is open. The
name is that of the description if it is an identifier, or else that of the command line, of the
configuration file, of the template's file if it is an identifier, or `description`; the parameters
are those of the description if they are not blank, or else those of the command line, of the
configuration file, or `data`. A template is compiled to such a function, unless the options are
strict and a problem is found. In every session the frame of the description is pushed and no other
one of its kind, it is never inside another frame, and every other such tag is reported and then
opened as an element. -/
theorem signature_follows_precedence (setting : Setting) (events : List Event) :
    let session := Session.start.feedAll setting events
    let description := Description.first? [] events
    (Session.start.pushed setting events).filter (·.kind = .template) =
        description.toList.map Description.frame ∧
      (∀ frame ∈ session.frames.dropLast, frame.kind ≠ .template) ∧
      (∀ name attributes span, Describes name attributes →
        session.frames ≠ [] ∨ description.isSome = true →
        session.feed setting (.opened name attributes span) =
          Session.openElement setting (session.report [.extraMetadata] span) name attributes
            span) ∧
      ∀ (arguments : Arguments) (world : World) (configured : Options) (input : Input),
        arguments.configured world = .ok configured →
        Markup.tokenize {} input.source = .ok events →
        let options := optionsFor (arguments.override configured) input.path
        let name := ((((description.bind Description.name?).or arguments.name).or
          ((arguments.fileOptions? world).bind Options.name)).or
          ((input.path.bind Path.fileStem?).filter Script.isIdentifier)).getD "description"
        let args := (((description.bind Description.args?).or arguments.args).or
          ((arguments.fileOptions? world).bind Options.args)).getD "data"
        (∃ compiled, compile options input.source = .ok compiled ∧
            compiled.program.signature = .ofParams name args) ∨
          options.strict = true ∧
            ∃ diagnostic, compile options input.source = .error (.reported diagnostic) := by
  intro session description
  have hmetadata : session.metadata = description.map Description.metadata :=
    Session.metadata_feedAll setting Session.start events
  refine ⟨Session.templates_pushed setting Session.start events,
    Session.templateOutermost_feedAll setting Session.templateOutermost_start events, ?_, ?_⟩
  · intro name attributes span hdescribes hextra
    refine Session.feed_eq_openElement setting session hdescribes (hextra.imp_right ?_) span
    intro hsome hnone
    rw [hmetadata, Option.map_eq_none_iff] at hnone
    rw [hnone] at hsome
    cases hsome
  · intro arguments world configured input hconfigured hevents options name args
    let ids := IdSource.sequential options.keyStem
    let size := input.source.utf8ByteSize
    have hsignature := signature_runSession hconfigured input.path ids size events
    simp only [compile, compileWith, hevents]
    obtain hreturned | ⟨hstrict, first, -, hfailed⟩ := compileEvents_cases options ids size events
    · exact .inl ⟨_, hreturned, hsignature⟩
    · exact .inr ⟨hstrict, first, hfailed⟩

/-- A description whose name is no identifier and whose parameters are blank, with a further
template tag in it. The name comes from the configuration file and the parameters from the command
line. -/
theorem signature_follows_precedence_nested :
    let world : World :=
      ⟨fun path => if path = "c.toml" then some "name = \"configured\"" else none, none,
        readConfig?⟩
    let arguments : Arguments := { config := some "c.toml", args := some "x, y" }
    let source := "<template name=\"a b\" args=\" \"><template name=\"inner\">"
    let options := optionsFor (arguments.override { name := some "configured" }) (some "page.html")
    let setting : Setting := ⟨IdSource.sequential "k", false⟩
    let outer : Event :=
      .opened "template" (.ofList [("name", "a b"), ("args", " ")]) (Span.ofBounds 0 30)
    let inner : Attributes := .ofList [("name", "inner")]
    let span := Span.ofBounds 30 53
    let session := Session.start.feedAll setting [outer]
    let both := [outer, .opened "template" inner span]
    let frame : Frame := ⟨"template", .element false none false, span⟩
    arguments.configured world = .ok { name := some "configured" } ∧
      Markup.tokenize {} source = .ok both ∧
      (∃ compiled, compile options source = .ok compiled ∧
        compiled.program.signature = ⟨"configured", ["x", "y"]⟩) ∧
      Describes "template" inner ∧ session.frames ≠ [] ∧
      session.feed setting (.opened "template" inner span) =
        Session.openElement setting (session.report [.extraMetadata] span) "template" inner span ∧
      (Session.start.pushed setting both).filter (·.kind = .template) =
        [⟨"template", .template, Span.ofBounds 0 30⟩] ∧
      frame ∈ (Session.start.feedAll setting both).frames.dropLast ∧ frame.kind ≠ .template := by
  intro world arguments source options setting outer inner span session both frame
  have hconfigured : arguments.configured world = .ok { name := some "configured" } := by
    decide +kernel
  have hevents : Markup.tokenize {} source = .ok both := by decide +kernel
  have hdescribes : Describes "template" inner := by decide
  have hframes : session.frames ≠ [] := by decide
  have hmem : frame ∈ (Session.start.feedAll setting both).frames.dropLast := by decide +kernel
  obtain ⟨hpushed, houtermost, -, hsignature⟩ := signature_follows_precedence setting both
  obtain ⟨-, -, hextra, -⟩ := signature_follows_precedence setting [outer]
  refine ⟨hconfigured, hevents, ?_, hdescribes, hframes,
    hextra "template" inner span hdescribes (.inl hframes), hpushed, hmem, houtermost frame hmem⟩
  obtain ⟨compiled, hcompiled, hcompiledSignature⟩ | ⟨hstrict, -⟩ :=
    hsignature arguments world _ ⟨some "page.html", source⟩ hconfigured hevents
  · refine ⟨compiled, hcompiled, hcompiledSignature.trans ?_⟩
    decide +kernel
  · cases hstrict

end TemplateCompiler.Command
