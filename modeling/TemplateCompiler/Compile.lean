import TemplateCompiler.Markup.Tokens
import TemplateCompiler.Package.Layout
import TemplateCompiler.Template.Session

namespace TemplateCompiler

open Markup (Event Location)
open Package (Program)
open Template (IdSource Session Setting)

/-- A compiled template with the problems that did not stop it. -/
structure Compiled where
  code : String
  program : Program
  diagnostics : List Diagnostic
deriving DecidableEq, Repr

/-- The places of all problems in a source of `size` bytes. -/
def Compiled.locations (size : Nat) (compiled : Compiled) : List Location :=
  compiled.diagnostics.map (Diagnostic.location size)

/-- Runs a session over all events of a source of `size` bytes. -/
def runSession (options : Options) (ids : IdSource) (size : Nat) (events : List Event) : Session :=
  (Session.start.feedAll ⟨ids, options.noStatics⟩ events).finish size

/-- Compiles the events of a source of `size` bytes. With strict options the first problem is a
    failure. -/
def compileEvents (options : Options) (ids : IdSource) (size : Nat) (events : List Event) :
    Except Failure Compiled :=
  let session := runSession options ids size events
  let program := session.program options
  match options.strict, session.diagnostics with
  | true, diagnostic :: _ => .error (.reported diagnostic)
  | _, diagnostics =>
    .ok
      { code := Package.package options program
        program := program
        diagnostics := diagnostics }

/-- Compiles a template with generated ids of its own choice. -/
def compileWith (options : Options) (ids : IdSource) (source : String) : Except Failure Compiled :=
  match Markup.tokenize {} source with
  | .error failure => .error failure
  | .ok events => compileEvents options ids source.utf8ByteSize events

/-- Compiles a template with generated ids that count up from the stem in the options. -/
def compile (options : Options) (source : String) : Except Failure Compiled :=
  compileWith options (IdSource.sequential options.keyStem) source

end TemplateCompiler
