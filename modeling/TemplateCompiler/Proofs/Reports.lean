import TemplateCompiler.Compile
import TemplateCompiler.Proofs.EventSteps

namespace TemplateCompiler

/-- What can be wrong with an opening tag. -/
inductive Problem.OfStart : Problem → Prop where
  | condition (directive reason : String) : OfStart (.conditionInterpolation directive reason)
  | value (name reason : String) : OfStart (.attributeInterpolation name reason)
  | chained (directive : String) : OfStart (.chainedAttribute directive)
  | branch (directive reason : String) : OfStart (.unmatchedDirective directive reason)
  | iteration (expression : String) : OfStart (.invalidIteration expression)
  | functionName (name : String) : OfStart (.invalidFunctionName name)
  | metadata : OfStart .extraMetadata

/-- What can be wrong with the end of a tag. -/
inductive Problem.OfEnd : Problem → Prop where
  | implicit (name : String) : OfEnd (.closedImplicitly name)
  | missing (name : String) : OfEnd (.neverClosed name)
  | stray (name : String) : OfEnd (.notOpened name)

namespace Template

open Markup (Attributes Event Span)

section Start

theorem ofStart_of_mem_conditionProblems {directive : String} {value : Option String} :
    ∀ problem ∈ conditionProblems directive value, problem.OfStart := by
  intro problem hmem
  obtain ⟨issue, -, rfl⟩ := List.mem_map.mp hmem
  exact .condition directive issue.message

theorem ofStart_of_mem_iterationProblems {expression : String} :
    ∀ problem ∈ iterationProblems expression, problem.OfStart := by
  unfold iterationProblems
  split
  · exact List.forall_mem_nil _
  · exact List.forall_mem_singleton.mpr (.iteration expression)

theorem ofStart_of_mem_branchProblems {isElse : Bool} {name : String} {frames : List Frame} :
    ∀ problem ∈ branchProblems isElse name frames, problem.OfStart := by
  unfold branchProblems
  split
  · exact List.forall_mem_nil _
  · rename_i refusal _
    exact List.forall_mem_singleton.mpr (.branch name refusal.message)

theorem ofStart_of_mem_descriptionProblems {attributes : Attributes} :
    ∀ problem ∈ descriptionProblems attributes, problem.OfStart := by
  intro problem hmem
  obtain ⟨name, -, rfl⟩ := List.mem_map.mp hmem
  exact .functionName name

theorem Rendering.ofStart_of_mem_problems (setting : Setting) (rendering : Rendering) :
    ∀ problem ∈ rendering.problems setting, problem.OfStart := by
  unfold problems
  simp only [List.forall_mem_append]
  refine ⟨⟨⟨⟨?_, ?_⟩, ?_⟩, ?_⟩, ?_⟩ <;> intro problem hmem
  · obtain ⟨directive, -, rfl⟩ := List.mem_map.mp hmem
    exact .chained directive
  · obtain ⟨entry, -, rfl⟩ := List.mem_map.mp hmem
    exact .value entry.1 entry.2.message
  · obtain ⟨value, -, hcondition⟩ := List.mem_flatMap.mp hmem
    exact ofStart_of_mem_conditionProblems problem hcondition
  · obtain ⟨expression, -, hiteration⟩ := List.mem_flatMap.mp hmem
    exact ofStart_of_mem_iterationProblems problem hiteration
  · obtain ⟨value, -, hcondition⟩ := List.mem_flatMap.mp hmem
    exact ofStart_of_mem_conditionProblems problem hcondition

theorem Rendering.ofStart_of_mem_tagProblems (setting : Setting) (rendering : Rendering) :
    ∀ problem ∈ rendering.tagProblems setting, problem.OfStart := by
  rw [tagProblems, List.forall_mem_append]
  refine ⟨?_, rendering.ofStart_of_mem_problems setting⟩
  split
  · exact List.forall_mem_singleton.mpr .metadata
  · exact List.forall_mem_nil _

theorem Session.ofStart_of_mem_directiveProblems (session : Session) (name : String)
    (attributes : Attributes) :
    ∀ problem ∈ session.directiveProblems name attributes, problem.OfStart := by
  unfold directiveProblems
  cases TagKind.of name attributes with
  | ifTag | skipTag => exact ofStart_of_mem_conditionProblems
  | elseIfTag | elseTag =>
    exact List.forall_mem_append.mpr
      ⟨ofStart_of_mem_conditionProblems, ofStart_of_mem_branchProblems⟩
  | eachTag => exact ofStart_of_mem_iterationProblems
  | metadata => exact ofStart_of_mem_descriptionProblems
  | script | element => exact List.forall_mem_nil _

end Start

theorem ofEnd_of_mem_unclosedReports {problem : String → Problem}
    (hproblem : ∀ name, (problem name).OfEnd) {place : Frame → Span} {frames : List Frame} :
    ∀ diagnostic ∈ unclosedReports problem place frames, diagnostic.problem.OfEnd := by
  intro diagnostic hmem
  obtain ⟨frame, -, rfl⟩ := List.mem_map.mp hmem
  exact hproblem frame.name

namespace Session

variable (setting : Setting) (session : Session)

/-- The reports about an event. -/
def reports : Event → List Diagnostic
  | .opened name attributes span =>
    (match session.rendering? (.opened name attributes span) with
      | some rendering => rendering.tagProblems setting
      | none => session.directiveProblems name attributes).map (⟨·, span⟩)
  | .text content span => if session.rendersText content then textReports content span else []
  | .closed name span => session.endReports name span

/-- Reports are only added behind those found before. -/
theorem diagnostics_feed (event : Event) :
    (session.feed setting event).diagnostics =
      session.diagnostics ++ session.reports setting event := by
  cases event with
  | opened name attributes span =>
    rw [feed, reports]
    cases hrendering : session.rendering? (.opened name attributes span) with
    | none => rw [openTag_directive_eq setting hrendering]
    | some rendering => rw [openTag_rendering_eq setting hrendering]
  | text content span => rw [feed, addText_eq, reports]
  | closed name span => rw [feed, closeTag_eq, reports]

/-- What opening a tag reports is about an opening tag, and is placed at that tag. -/
theorem ofStart_of_mem_reports {name : String} {attributes : Attributes} {span : Span}
    {diagnostic : Diagnostic}
    (hmem : diagnostic ∈ session.reports setting (.opened name attributes span)) :
    diagnostic.problem.OfStart ∧ diagnostic.span = span := by
  obtain ⟨problem, hproblem, rfl⟩ := List.mem_map.mp hmem
  refine ⟨?_, rfl⟩
  split at hproblem
  · exact Rendering.ofStart_of_mem_tagProblems setting _ problem hproblem
  · exact session.ofStart_of_mem_directiveProblems name attributes problem hproblem

/-- A text is reported for its braces only. -/
theorem textReports_of_mem_reports {content : String} {span : Span} {diagnostic : Diagnostic}
    (hmem : diagnostic ∈ session.reports setting (.text content span)) :
    diagnostic ∈ textReports content span := by
  rw [reports] at hmem
  split at hmem
  · exact hmem
  · cases hmem

/-- What closing a tag reports is about the end of a tag. -/
theorem ofEnd_of_mem_endReports {name : String} {span : Span} :
    ∀ diagnostic ∈ session.endReports name span, diagnostic.problem.OfEnd := by
  unfold endReports
  split
  · exact List.forall_mem_singleton.mpr (.stray name)
  · exact ofEnd_of_mem_unclosedReports .implicit

theorem ofEnd_of_mem_finish {size : Nat} {diagnostic : Diagnostic}
    (hmem : diagnostic ∈ (session.finish size).diagnostics) :
    diagnostic ∈ session.diagnostics ∨ diagnostic.problem.OfEnd := by
  rw [finish_eq] at hmem
  exact (List.mem_append.mp hmem).imp id (ofEnd_of_mem_unclosedReports .missing diagnostic)

/-- What a compile returns for a session that has ended. -/
def compiled (options : Options) (session : Session) : Compiled where
  code := Package.package options (session.program options)
  program := session.program options
  diagnostics := session.diagnostics

end Session

end Template

open Markup (Event)
open Template (IdSource)

/-- Unless a strict compile finds a problem, the function and the problems are returned. -/
theorem compileEvents_of_accepted (options : Options) (ids : IdSource) (size : Nat)
    (events : List Event)
    (haccepted : options.strict = true → (runSession options ids size events).diagnostics = []) :
    compileEvents options ids size events =
      .ok ((runSession options ids size events).compiled options) := by
  unfold compileEvents
  cases hstrict : options.strict with
  | false => rfl
  | true => simp only [Template.Session.compiled, haccepted hstrict]

/-- A strict compile fails with the first problem. -/
theorem compileEvents_of_strict (options : Options) (ids : IdSource) (size : Nat)
    (events : List Event) (hstrict : options.strict = true) {first : Diagnostic}
    {later : List Diagnostic}
    (hfound : (runSession options ids size events).diagnostics = first :: later) :
    compileEvents options ids size events = .error (.reported first) := by
  simp only [compileEvents, hstrict, hfound]

/-- A compile returns what its session has found, or is strict and fails with the first problem. -/
theorem compileEvents_cases (options : Options) (ids : IdSource) (size : Nat)
    (events : List Event) :
    compileEvents options ids size events =
        .ok ((runSession options ids size events).compiled options) ∨
      options.strict = true ∧ ∃ first ∈ (runSession options ids size events).diagnostics,
        compileEvents options ids size events = .error (.reported first) := by
  by_cases haccepted : options.strict = true →
      (runSession options ids size events).diagnostics = []
  · exact .inl (compileEvents_of_accepted options ids size events haccepted)
  · obtain ⟨hstrict, hfound⟩ := Classical.not_imp.mp haccepted
    obtain ⟨first, later, hfound⟩ := List.exists_cons_of_ne_nil hfound
    refine .inr ⟨hstrict, first, ?_, compileEvents_of_strict options ids size events hstrict hfound⟩
    rw [hfound]
    exact List.mem_cons_self

/-- What a compile of a source returns comes from a session on the events of the source. -/
theorem exists_events_of_compileWith {options : Options} {ids : IdSource} {source : String}
    {compiled : Compiled} (hcompiled : compileWith options ids source = .ok compiled) :
    ∃ events, Markup.tokenize {} source = .ok events ∧
      compiled = (runSession options ids source.utf8ByteSize events).compiled options := by
  unfold compileWith at hcompiled
  split at hcompiled
  · cases hcompiled
  · rename_i events hread
    refine ⟨events, hread, ?_⟩
    obtain hreturned | ⟨-, first, -, hfailed⟩ :=
      compileEvents_cases options ids source.utf8ByteSize events
    · exact Except.ok.inj (hcompiled.symm.trans hreturned)
    · rw [hfailed] at hcompiled
      cases hcompiled

end TemplateCompiler
