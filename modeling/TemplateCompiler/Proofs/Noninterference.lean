import TemplateCompiler.Package.Program
import TemplateCompiler.Proofs.Reports
import TemplateCompiler.Proofs.Spans

namespace TemplateCompiler.Script

open Package (Program)

/-- A listing that is printed while it is written: the width of a level, the level of the next line,
    and the lines with their spaces. -/
structure Printer where
  width : Nat
  level : Nat
  lines : List String
deriving DecidableEq, Repr

namespace Printer

/-- Nothing printed yet. -/
def start (width : Nat) : Printer := ⟨width, 0, []⟩

/-- Prints the next step. -/
def proceed (printer : Printer) : Step → Printer
  | .indent => { printer with level := printer.level + 1 }
  | .dedent => { printer with level := printer.level - 1 }
  | .write text =>
    { printer with
      lines := printer.lines ++
        Program.indentLines (printer.level * printer.width) false (Text.splitLines text) }

/-- Prints steps one after the other. -/
def run (printer : Printer) (steps : List Step) : Printer :=
  steps.foldl proceed printer

/-- A printer has come as far as a listing. -/
structure Shows (printer : Printer) (listing : Listing) : Prop where
  level_eq : printer.level = listing.level
  lines_eq : printer.lines = listing.render printer.width

end Printer

theorem spaces_zero : Text.spaces 0 = "" := rfl

/-- A piece of script that is placed and then rendered is indented line by line. -/
theorem map_render_placeLines (width level : Nat) (continued : Bool) (texts : List String) :
    (placeLines level continued texts).map (Line.render width) =
      Program.indentLines (level * width) continued texts := by
  induction texts generalizing continued with
  | nil => rfl
  | cons text texts ih =>
    rw [placeLines, Program.indentLines, List.map_cons, ih]
    congr 1
    split
    · rw [Line.render, Nat.zero_mul, spaces_zero, String.empty_append]
    · rfl

namespace Printer

theorem Shows.proceed {printer : Printer} {listing : Listing} (h : printer.Shows listing)
    (step : Step) : (printer.proceed step).Shows (listing.proceed step) := by
  have hlevel := listing.level_proceed step
  have hlines := listing.lines_proceed step
  cases step with
  | indent =>
    refine ⟨?_, ?_⟩
    · rw [hlevel]
      exact congrArg (· + 1) h.level_eq
    · have hkept : (listing.proceed .indent).lines = listing.lines := listing.lines_indent
      rw [Listing.render, hkept]
      exact h.lines_eq
  | dedent =>
    refine ⟨?_, ?_⟩
    · rw [hlevel]
      exact congrArg (· - 1) h.level_eq
    · have hkept : (listing.proceed .dedent).lines = listing.lines := listing.lines_dedent
      rw [Listing.render, hkept]
      exact h.lines_eq
  | write text =>
    refine ⟨?_, ?_⟩
    · rw [hlevel]
      exact h.level_eq
    · rw [Listing.render, hlines, List.map_append, Step.linesAt, map_render_placeLines,
        ← h.level_eq]
      exact congrArg (· ++ _) h.lines_eq

theorem Shows.run {printer : Printer} {earlier : List Step} (h : printer.Shows ⟨earlier⟩)
    (steps : List Step) : (printer.run steps).Shows ⟨earlier ++ steps⟩ := by
  induction steps generalizing printer earlier with
  | nil => simpa [Printer.run] using h
  | cons step steps ih =>
    rw [List.append_cons]
    exact ih (h.proceed step)

@[simp]
theorem width_run (printer : Printer) (steps : List Step) :
    (printer.run steps).width = printer.width := by
  induction steps generalizing printer with
  | nil => rfl
  | cons step steps ih =>
    refine (ih (printer.proceed step)).trans ?_
    cases step <;> rfl

end Printer

/-- Indenting each line when it is written gives the lines of the finished listing. -/
theorem Listing.render_eq_lines_run (listing : Listing) (width : Nat) :
    listing.render width = ((Printer.start width).run listing.steps).lines := by
  have hstart : (Printer.start width).Shows ⟨[]⟩ := ⟨rfl, rfl⟩
  rw [(hstart.run listing.steps).lines_eq, Printer.width_run]
  rfl

end TemplateCompiler.Script

namespace TemplateCompiler

open Markup (Event Span)
open Package (Signature)
open Script (Printer)
open Template (IdSource Session alike_runSession)

/-- Options that differ at most in what is for packaging and in being strict. -/
def Options.SameFunction (options other : Options) : Prop :=
  other = { options with
    mode := other.mode
    variableName := other.variableName
    patchApi := other.patchApi
    strict := other.strict }

theorem Options.SameFunction.runSession_eq {options other : Options}
    (h : options.SameFunction other) (ids : IdSource) (size : Nat) (events : List Event) :
    runSession other ids size events = runSession options ids size events := by
  rw [h]
  rfl

theorem Options.SameFunction.program_eq {options other : Options} (h : options.SameFunction other)
    (session : Session) : session.program other = session.program options := by
  rw [h]
  rfl

/-- The function and the problems of a compile depend on the names, attributes and texts of the
    events and on the ids only. Being strict makes the first problem a failure and changes nothing
    else. -/
theorem compile_noninterference (options other : Options) (hoptions : options.SameFunction other)
    (ids : IdSource) (size size' : Nat) (events events' : List Event)
    (hevents : events.map Event.unplaced = events'.map Event.unplaced) :
    let session := runSession options ids size events
    let session' := runSession other ids size' events'
    session.program options = session'.program other ∧
      session.diagnostics.map Diagnostic.problem = session'.diagnostics.map Diagnostic.problem ∧
      ∃ compiled,
        compileEvents { options with strict := false } ids size events = .ok compiled ∧
        compiled.program = session.program options ∧
        compiled.diagnostics = session.diagnostics ∧
        (∀ failure, compileEvents { options with strict := true } ids size events =
            .error failure ↔
          ∃ first ∈ compiled.diagnostics.head?, failure = .reported first) ∧
        (compiled.diagnostics = [] →
          compileEvents { options with strict := true } ids size events = .ok compiled) := by
  intro session session'
  have halike := alike_runSession options ids size size' hevents
  have hsession' : session' = runSession options ids size' events' :=
    hoptions.runSession_eq ids size' events'
  have hlenient := compileEvents_of_accepted { options with strict := false } ids size events
    Bool.false_ne_true.elim
  refine ⟨?_, ?_, _, hlenient, rfl, rfl, ?_, ?_⟩
  · rw [hsession', hoptions.program_eq]
    exact halike.program_eq options
  · rw [hsession']
    exact halike.problems_eq
  · intro failure
    change _ ↔ ∃ first ∈ session.diagnostics.head?, failure = .reported first
    cases hfound : session.diagnostics with
    | nil =>
      rw [compileEvents_of_accepted { options with strict := true } ids size events fun _ => hfound]
      simp
    | cons first later =>
      rw [compileEvents_of_strict { options with strict := true } ids size events rfl hfound]
      simp [eq_comm]
  · intro hsilent
    exact compileEvents_of_accepted { options with strict := true } ids size events fun _ => hsilent

/-- A guarded element, a text with a stray brace and an end tag too many, at two places of sources
    of different lengths. -/
theorem compile_noninterference_unbalanced :
    let other : Options :=
      { mode := .asyncModule, variableName := some "card", patchApi := ⟨"idom", "IDOM"⟩,
        strict := true }
    let events (span : Span) : List Event := [.opened "p" (.ofList [("if", "\x7b\x7d")]) span,
      .text "a\x7d" span, .closed "p" span, .closed "i" span]
    let session := runSession {} (IdSource.sequential "k") 40 (events (Span.ofBounds 3 9))
    let session' := runSession other (IdSource.sequential "k") 0 (events (Span.point 0))
    ({} : Options).SameFunction other ∧
      (events (Span.ofBounds 3 9)).map Event.unplaced = (events (Span.point 0)).map Event.unplaced ∧
      session.program {} = session'.program other ∧
      session.diagnostics.map Diagnostic.problem = session'.diagnostics.map Diagnostic.problem ∧
      session.diagnostics.length = 3 ∧ session.diagnostics ≠ session'.diagnostics := by
  intro other events session session'
  have hoptions : ({} : Options).SameFunction other := rfl
  have hevents : (events (Span.ofBounds 3 9)).map Event.unplaced =
      (events (Span.point 0)).map Event.unplaced := rfl
  obtain ⟨hprogram, hproblems, -⟩ := compile_noninterference {} other hoptions
    (IdSource.sequential "k") 40 0 _ _ hevents
  exact ⟨hoptions, hevents, hprogram, hproblems, by decide +kernel, by decide +kernel⟩

/-- The indentation width only changes the spaces in front of lines. Whatever the events, either
    every width makes the strict compile fail in the same way, or there is one function for all
    widths, whose lines have one level and one text each, and line by line the body has as many
    spaces as the level times the width in front of the text. This is also what is printed if the
    steps of the listing are taken one after the other, and every line is indented when it is
    written. -/
theorem indentWidth_changes_leading_spaces (options : Options) (ids : IdSource) (size : Nat)
    (events : List Event) :
    let compiledAt (width : Nat) :=
      compileEvents { options with indentWidth := width } ids size events
    let listing := (runSession options ids size events).listing
    (options.strict = true ∧ ∃ failure, ∀ width, compiledAt width = .error failure) ∨
      ∃ (levels : List Nat) (texts : List String) (signature : Signature) (prologue : String)
        (diagnostics : List Diagnostic),
        levels.length = texts.length ∧
        ∀ width, ∃ compiled, compiledAt width = .ok compiled ∧
          compiled.program.body.length = texts.length ∧
          compiled.program.body =
            List.zipWith (fun level text => Text.spaces (level * width) ++ text) levels texts ∧
          compiled.program.body = ((Printer.start width).run listing.steps).lines ∧
          compiled.program.signature = signature ∧
          compiled.program.prologue = prologue ∧
          compiled.diagnostics = diagnostics := by
  intro compiledAt listing
  let session := runSession options ids size events
  by_cases haccepted : options.strict = true → session.diagnostics = []
  · right
    let program := session.program options
    refine ⟨listing.lines.map Script.Line.depth, listing.lines.map Script.Line.text,
      program.signature, program.prologue, session.diagnostics, ?_, ?_⟩
    · rw [List.length_map, List.length_map]
    · intro width
      refine ⟨_, compileEvents_of_accepted { options with indentWidth := width } ids size events
        haccepted, ?_, ?_, ?_, rfl, rfl, rfl⟩
      · exact (List.length_map _).trans (List.length_map _).symm
      · rw [List.zipWith_map, List.zipWith_self]
        rfl
      · exact listing.render_eq_lines_run width
  · left
    obtain ⟨hstrict, hfound⟩ := Classical.not_imp.mp haccepted
    obtain ⟨first, later, hfirst⟩ := List.exists_cons_of_ne_nil hfound
    refine ⟨hstrict, .reported first, ?_⟩
    intro width
    exact compileEvents_of_strict { options with indentWidth := width } ids size events hstrict
      hfirst

end TemplateCompiler
