import TemplateCompiler.Proofs.OpenTags
import TemplateCompiler.Proofs.Reports
import TemplateCompiler.Proofs.Resumption

namespace TemplateCompiler.Markup

/-- End tags for tags of some names, in the order of the names. -/
def endTags (span : Span) (names : List String) : List Event :=
  names.map (Event.closed · span)

/-- Repairs events that follow while tags of some names are open, the innermost one first: an end
    tag closes the innermost tag of its name and before it all tags inside that one, it is dropped
    if there is none, and at the end all tags are closed. The tags that are added get the span. -/
def repairFrom (span : Span) : List String → List Event → List Event
  | names, [] => endTags span names
  | names, .opened name attributes place :: events =>
    .opened name attributes place :: repairFrom span (name :: names) events
  | names, .text content place :: events => .text content place :: repairFrom span names events
  | names, .closed name place :: events =>
    if name ∈ names then
      endTags span (names.takeWhile (· != name)) ++
        .closed name place :: repairFrom span (names.dropWhile (· != name)).tail events
    else repairFrom span names events

/-- The balanced list of events that a list of events stands for. -/
def repair (span : Span) (events : List Event) : List Event :=
  repairFrom span [] events

end TemplateCompiler.Markup

namespace TemplateCompiler

/-- Whether a problem is about an end tag that is missing or closes nothing. -/
def Problem.isUnbalanced : Problem → Bool
  | .unbalancedElement _ _ => true
  | _ => false

theorem Problem.OfStart.isUnbalanced_eq_false {problem : Problem} (h : problem.OfStart) :
    problem.isUnbalanced = false := by
  cases h <;> rfl

/-- Whether a problem that was found is about such an end tag. -/
def Diagnostic.isUnbalanced (diagnostic : Diagnostic) : Bool :=
  diagnostic.problem.isUnbalanced

namespace Template.Session

open Markup (Attributes Event Span endTags repair repairFrom)
open Script (Listing)

/-- No problem found so far is about an end tag. -/
def Unblemished (session : Session) : Prop :=
  ∀ diagnostic ∈ session.diagnostics, diagnostic.isUnbalanced = false

namespace Unblemished

variable {session : Session}

theorem core (session : Session) : session.core.Unblemished := by
  intro diagnostic hmem
  simp [Session.core] at hmem

/-- Opening a tag is never reported as unbalanced. -/
theorem openTag (h : session.Unblemished) (setting : Setting) (name : String)
    (attributes : Attributes) (span : Span) :
    (Session.openTag setting session name attributes span).Unblemished := by
  intro diagnostic hmem
  have hadded := session.diagnostics_feed setting (.opened name attributes span)
  rw [feed] at hadded
  rw [hadded] at hmem
  obtain hold | hreport := List.mem_append.mp hmem
  · exact h diagnostic hold
  · exact (session.ofStart_of_mem_reports setting hreport).1.isUnbalanced_eq_false

/-- A text is never reported as unbalanced. -/
theorem addText (h : session.Unblemished) (content : String) (span : Span) :
    (session.addText content span).Unblemished := by
  intro diagnostic hmem
  rw [addText_eq] at hmem
  obtain hold | hreport := List.mem_append.mp hmem
  · exact h diagnostic hold
  · split at hreport
    · obtain ⟨issue, -, rfl⟩ := List.mem_map.mp hreport
      rfl
    · cases hreport

end Unblemished

/-- A session without the reports about end tags. -/
def withoutUnbalanced (session : Session) : Session :=
  { session with diagnostics := session.diagnostics.filter (!·.isUnbalanced) }

theorem withoutUnbalanced_behind {session : Session} (h : session.Unblemished)
    (earlier : List Script.Step) (found : List Diagnostic) :
    (session.behind earlier found).withoutUnbalanced =
      session.behind earlier (found.filter (!·.isUnbalanced)) := by
  have hkept : session.diagnostics.filter (!·.isUnbalanced) = session.diagnostics := by
    apply List.filter_eq_self.mpr
    intro diagnostic hmem
    simp [h diagnostic hmem]
  simp [withoutUnbalanced, behind, hkept]

theorem withoutUnbalanced_eq_behind_core (session : Session) :
    session.withoutUnbalanced =
      session.core.behind session.listing.steps (session.diagnostics.filter (!·.isUnbalanced)) := by
  rw [← withoutUnbalanced_behind (Unblemished.core session), behind_core]

theorem openTag_withoutUnbalanced (setting : Setting) (session : Session) (name : String)
    (attributes : Attributes) (span : Span) :
    openTag setting session.withoutUnbalanced name attributes span =
      (openTag setting session name attributes span).withoutUnbalanced := by
  have hcore := (Unblemished.core session).openTag setting name attributes span
  rw [withoutUnbalanced_eq_behind_core, openTag_behind, ← withoutUnbalanced_behind hcore,
    ← openTag_behind, behind_core]

theorem addText_withoutUnbalanced (session : Session) (content : String) (span : Span) :
    session.withoutUnbalanced.addText content span =
      (session.addText content span).withoutUnbalanced := by
  have hcore := (Unblemished.core session).addText content span
  rw [withoutUnbalanced_eq_behind_core, addText_behind, ← withoutUnbalanced_behind hcore,
    ← addText_behind, behind_core]

/-- The names of the open tags, the innermost one first. -/
def openNames (session : Session) : List String :=
  session.frames.map Frame.name

/-- Every opening tag is open afterwards, and no other tag opens or closes. -/
theorem openNames_openTag (setting : Setting) (session : Session) (name : String)
    (attributes : Attributes) (span : Span) :
    (openTag setting session name attributes span).openNames = name :: session.openNames := by
  unfold openNames
  cases hrendering : session.rendering? (.opened name attributes span) with
  | none =>
    rw [openTag_directive_eq setting hrendering, List.map_cons,
      session.map_directiveOuter name attributes fun _ _ => rfl]
  | some rendering =>
    obtain rfl := session_of_rendering? hrendering
    rw [openTag_rendering_eq setting hrendering, List.map_cons,
      map_counted setting rendering fun _ _ => rfl]

theorem openNames_addText (session : Session) (content : String) (span : Span) :
    (session.addText content span).openNames = session.openNames := by
  rw [addText_eq]
  rfl

/-- Closes tags of the listing one by one. -/
def closeAll (frames : List Frame) (listing : Listing) : Listing :=
  frames.foldl (fun listing frame => frame.close listing) listing

theorem feedAll_endTags (setting : Setting) (span : Span) (inner outer : List Frame)
    (session : Session) (hframes : session.frames = inner ++ outer) :
    session.feedAll setting (endTags span (inner.map Frame.name)) =
      { session.emit (closeAll inner) with frames := outer } := by
  induction inner generalizing session with
  | nil =>
    cases session
    cases hframes
    rfl
  | cons frame inner ih =>
    change feedAll setting (session.closeTag frame.name span)
      (endTags span (inner.map Frame.name)) = _
    rw [closeTag_innermost session hframes]
    exact ih _ rfl

theorem unwind_withoutUnbalanced (problem : String → Problem)
    (hproblem : ∀ name, (problem name).isUnbalanced = true) (place : Frame → Span)
    (session : Session) (frames : List Frame) :
    (session.unwind problem place frames).withoutUnbalanced =
      session.withoutUnbalanced.emit (closeAll frames) := by
  induction frames generalizing session with
  | nil => rfl
  | cons frame frames ih =>
    change (((session.report (if frame.isBranch then [] else [problem frame.name])
      (place frame)).emit frame.close).unwind problem place frames).withoutUnbalanced = _
    rw [ih]
    cases hbranch : frame.isBranch <;>
      simp [withoutUnbalanced, report, emit, closeAll, Diagnostic.isUnbalanced, hproblem]

/-- An end tag finds the innermost open tag of its name. -/
theorem exists_innermost {frames : List Frame} {name : String}
    (hname : name ∈ frames.map Frame.name) :
    ∃ inner frame outer, frames = inner ++ frame :: outer ∧ frame.name = name ∧
      ∀ frame ∈ inner, (frame.name != name) = true := by
  induction frames with
  | nil => cases hname
  | cons frame frames ih =>
    by_cases hframe : frame.name = name
    · exact ⟨[], frame, frames, rfl, hframe, by simp⟩
    · have hrest : name ∈ frames.map Frame.name := by
        simpa [Ne.symm hframe] using hname
      obtain ⟨inner, found, outer, rfl, hfound, hinner⟩ := ih hrest
      refine ⟨frame :: inner, found, outer, rfl, hfound, ?_⟩
      intro other hother
      obtain rfl | hother := List.mem_cons.mp hother
      · simpa using hframe
      · exact hinner other hother

/-- An end tag first closes the tags inside the one that it closes, and reports them. -/
theorem closeTag_split (session : Session) {inner outer : List Frame} {frame : Frame}
    {name : String} (hframes : session.frames = inner ++ frame :: outer)
    (hframe : frame.name = name) (hinner : ∀ frame ∈ inner, (frame.name != name) = true)
    (span : Span) :
    session.closeTag name span =
      { (session.unwind Problem.closedImplicitly Frame.span inner).emit frame.close with
        frames := outer } := by
  have hbehind : session.frames.dropWhile (·.name != name) = frame :: outer := by
    rw [hframes, List.dropWhile_append_of_pos hinner]
    simp [hframe]
  have hbefore : session.frames.takeWhile (·.name != name) = inner := by
    rw [hframes, List.takeWhile_append_of_pos hinner]
    simp [hframe]
  simp only [closeTag, hbehind, hbefore]

/-- With the end tags of the tags inside written out, an end tag leads to the same state, and has
    nothing to report. -/
theorem feedAll_closed (setting : Setting) (session : Session) {inner outer : List Frame}
    {frame : Frame} {name : String} (hframes : session.frames = inner ++ frame :: outer)
    (hframe : frame.name = name) (hinner : ∀ frame ∈ inner, (frame.name != name) = true)
    (span place : Span) :
    session.withoutUnbalanced.feedAll setting
        (endTags span (inner.map Frame.name) ++ [.closed name place]) =
      (session.closeTag name place).withoutUnbalanced := by
  have hunwound := unwind_withoutUnbalanced Problem.closedImplicitly (fun _ => rfl) Frame.span
    session inner
  have hinside := feedAll_endTags setting span inner (frame :: outer) session.withoutUnbalanced
    hframes
  rw [feedAll_append, hinside, closeTag_split session hframes hframe hinner, ← hframe]
  change closeTag _ frame.name place = _
  rw [closeTag_innermost _ rfl]
  exact congrArg (fun unwound : Session => { unwound.emit frame.close with frames := outer })
    hunwound.symm

/-- Compiling the repair of the events that follow comes to the same end as compiling the events,
    from any state. -/
theorem feedAll_repairFrom (setting : Setting) (span : Span) (size : Nat) (events : List Event)
    (session : Session) :
    session.withoutUnbalanced.feedAll setting (repairFrom span session.openNames events) =
      ((session.feedAll setting events).finish size).withoutUnbalanced := by
  induction events generalizing session with
  | nil =>
    have hunwound := unwind_withoutUnbalanced Problem.neverClosed (fun _ => rfl)
      (fun frame => Span.ofBounds frame.span.start size) session session.frames
    rw [repairFrom, openNames, feedAll_endTags setting span session.frames []
      session.withoutUnbalanced (List.append_nil session.frames).symm]
    exact congrArg (fun unwound : Session => { unwound with frames := [] }) hunwound.symm
  | cons event events ih =>
    cases event with
    | opened name attributes place =>
      rw [repairFrom, feedAll_cons, feedAll_cons, ← ih]
      simp only [feed, openTag_withoutUnbalanced, openNames_openTag]
    | text content place =>
      rw [repairFrom, feedAll_cons, feedAll_cons, ← ih]
      simp only [feed, addText_withoutUnbalanced, openNames_addText]
    | closed name place =>
      rw [repairFrom, feedAll_cons, ← ih]
      by_cases hname : name ∈ session.openNames
      · obtain ⟨inner, frame, outer, hframes, hframe, hinner⟩ := exists_innermost hname
        have hnames : session.openNames = inner.map Frame.name ++ name :: outer.map Frame.name := by
          simp [openNames, hframes, hframe]
        have hinnerNames : ∀ other ∈ inner.map Frame.name, (other != name) = true := by
          intro other hother
          obtain ⟨frame, hmem, rfl⟩ := List.mem_map.mp hother
          exact hinner frame hmem
        have hclosed : (session.closeTag name place).openNames = outer.map Frame.name := by
          rw [closeTag_split session hframes hframe hinner]
          rfl
        rw [if_pos hname, hnames, List.takeWhile_append_of_pos hinnerNames,
          List.dropWhile_append_of_pos hinnerNames]
        simp only [bne_self_eq_false, Bool.false_eq_true, not_false_eq_true,
          List.takeWhile_cons_of_neg, List.dropWhile_cons_of_neg, List.append_nil, List.tail_cons,
          feed, hclosed]
        rw [List.append_cons, feedAll_append,
          feedAll_closed setting session hframes hframe hinner span place]
      · have hother : ∀ frame ∈ session.frames, (frame.name != name) = true := by
          intro frame hmem
          rw [bne_iff_ne]
          intro hframe
          exact hname (List.mem_map.mpr ⟨frame, hmem, hframe⟩)
        have hstray : session.frames.dropWhile (·.name != name) = [] := by
          rw [← List.append_nil session.frames, List.dropWhile_append_of_pos hother]
          rfl
        have hreported : session.closeTag name place =
            session.report [Problem.notOpened name] place := by
          simp only [closeTag, hstray]
        rw [if_neg hname, feed, hreported]
        simp [withoutUnbalanced, report, Diagnostic.isUnbalanced, Problem.isUnbalanced,
          Problem.notOpened, openNames]

end Template.Session

open Markup (Attributes Event Span repair)
open Template (IdSource Session)

theorem runSession_repair (options : Options) (ids : IdSource) (size : Nat) (span : Span)
    (events : List Event) :
    runSession options ids size (repair span events) =
      (runSession options ids size events).withoutUnbalanced := by
  have hrun := Session.feedAll_repairFrom ⟨ids, options.noStatics⟩ span size events Session.start
  exact congrArg (Session.finish size) hrun

/-- Without strict options, compiling events gives the program that their repair gives, and the
problems of the repair are those problems of the events that are not about end tags. The end tags
that the repair adds may have any span, and the events need not be balanced. -/
theorem compileEvents_repair (options : Options) (hlenient : options.strict = false)
    (ids : IdSource) (size : Nat) (span : Span) (events : List Event) :
    ∃ compiled repaired,
      compileEvents options ids size events = .ok compiled ∧
      compileEvents options ids size (repair span events) = .ok repaired ∧
      repaired.program = compiled.program ∧
      repaired.diagnostics = compiled.diagnostics.filter (!·.isUnbalanced) := by
  have haccepted (events : List Event) :=
    compileEvents_of_accepted options ids size events (by simp [hlenient])
  refine ⟨_, _, haccepted events, haccepted (repair span events), ?_, ?_⟩
  · rw [runSession_repair]
    rfl
  · rw [runSession_repair]
    rfl

/-- A list whose item is never closed, with an else outside of any conditional and an end tag too
many. -/
theorem compileEvents_repair_list :
    let span := Span.point 0
    let events : List Event := [.opened "ul" Attributes.empty span,
      .opened "li" Attributes.empty span, .opened "else" Attributes.empty span, .text "a" span,
      .closed "ul" span, .closed "p" span, .opened "b" Attributes.empty span]
    let balanced : List Event := [.opened "ul" Attributes.empty span,
      .opened "li" Attributes.empty span, .opened "else" Attributes.empty span, .text "a" span,
      .closed "else" span, .closed "li" span, .closed "ul" span, .opened "b" Attributes.empty span,
      .closed "b" span]
    ({} : Options).strict = false ∧ repair span events = balanced ∧
      ∃ compiled repaired,
        compileEvents {} (IdSource.sequential "k") 9 events = .ok compiled ∧
        compileEvents {} (IdSource.sequential "k") 9 balanced = .ok repaired ∧
        repaired.program = compiled.program ∧
        repaired.diagnostics = compiled.diagnostics.filter (!·.isUnbalanced) := by
  intro span events balanced
  exact ⟨rfl, rfl, compileEvents_repair {} rfl (IdSource.sequential "k") 9 span events⟩

end TemplateCompiler
