import TemplateCompiler.Compile

namespace TemplateCompiler.Script.Listing

/-- A listing with steps taken before all its own. -/
def behind (earlier : List Step) (listing : Listing) : Listing :=
  ⟨earlier ++ listing.steps⟩

/-- A way to write that adds the same steps to every listing. -/
def Appends (write : Listing → Listing) : Prop :=
  ∀ earlier listing, write (listing.behind earlier) = (write listing).behind earlier

theorem behind_empty (listing : Listing) : empty.behind listing.steps = listing := by
  simp [behind, empty]

theorem lines_behind (earlier listing : Listing) :
    (listing.behind earlier.steps).lines =
      earlier.lines ++ placeSteps earlier.level listing.steps := by
  simp [lines, behind, placeSteps_append, level]

theorem appends_proceed (step : Step) : Appends (·.proceed step) := by
  intro earlier listing
  simp [proceed, behind]

theorem appends_id : Appends id := by
  intro earlier listing
  rfl

theorem Appends.comp {first second : Listing → Listing} (hsecond : Appends second)
    (hfirst : Appends first) : Appends (fun listing => second (first listing)) := by
  intro earlier listing
  change second (first (listing.behind earlier)) = _
  rw [hfirst, hsecond]

theorem appends_write (text : String) : Appends (·.write text) :=
  appends_proceed (.write text)

theorem appends_writeAll (texts : List String) :
    Appends (fun listing => texts.foldl Listing.write listing) := by
  induction texts with
  | nil => exact appends_id
  | cons text texts ih => exact ih.comp (appends_write text)

theorem appends_openBlock (header : String) : Appends (·.openBlock header) :=
  (appends_proceed .indent).comp (appends_write header)

theorem appends_closeBlock (closer : String) : Appends (·.closeBlock closer) :=
  (appends_write closer).comp (appends_proceed .dedent)

theorem appends_continueBlock (header : String) : Appends (·.continueBlock header) :=
  (appends_openBlock header).comp (appends_proceed .dedent)

end TemplateCompiler.Script.Listing

namespace TemplateCompiler.Template

open Markup (Attributes Event Span)
open Script (Listing Step)
open Script.Listing (Appends)

theorem appends_openSkipBlock (condition : String) : Appends (openSkipBlock condition) :=
  (Listing.appends_continueBlock elseHeader).comp
    ((Listing.appends_write Script.Call.skip).comp (Listing.appends_openBlock (ifHeader condition)))

theorem appends_openLoopBlocks (number : Nat) (outer : Option Nat) (id : String)
    (clause : EachClause) : Appends (openLoopBlocks number outer id clause) :=
  (Listing.appends_write _).comp ((Listing.appends_writeAll _).comp
    ((Listing.appends_openBlock _).comp
      ((Listing.appends_openBlock _).comp (Listing.appends_write _))))

theorem appends_closeLoop : Appends closeLoop :=
  (Listing.appends_closeBlock blockEnd).comp (Listing.appends_closeBlock _)

theorem Frame.appends_closeElement (name : String) (guarded : Bool) (loop : Option Nat)
    (skipped : Bool) : Appends (Frame.closeElement name guarded loop skipped) := by
  intro earlier listing
  cases guarded <;> cases loop <;> cases skipped <;>
    simp [Frame.closeElement, Listing.appends_closeBlock _ earlier, appends_closeLoop earlier]

theorem Frame.appends_close (frame : Frame) : Appends frame.close := by
  obtain ⟨name, kind, span⟩ := frame
  rcases kind with _ | _ | _ | _ | _ | (_ | loop) | ⟨guarded, loop, skipped⟩
  case template | literal | branch | each.none => exact Listing.appends_id
  case conditional | skip => exact Listing.appends_closeBlock blockEnd
  case each.some => exact appends_closeLoop
  case element => exact Frame.appends_closeElement name guarded loop skipped

namespace Session

/-- A session with steps and problems before all its own. -/
def behind (earlier : List Step) (found : List Diagnostic) (session : Session) : Session :=
  { session with
    listing := session.listing.behind earlier
    diagnostics := found ++ session.diagnostics }

/-- What a session goes on from: its open tags and its counters, with nothing written or
    reported. -/
def core (session : Session) : Session :=
  { session with listing := Listing.empty, diagnostics := [] }

theorem behind_core (session : Session) :
    session.core.behind session.listing.steps session.diagnostics = session := by
  simp [core, behind, Listing.behind_empty]

section Behind

variable (earlier : List Step) (found : List Diagnostic) (session : Session)

@[simp]
theorem frames_behind : (session.behind earlier found).frames = session.frames := rfl

theorem report_behind (problems : List Problem) (span : Span) :
    (session.behind earlier found).report problems span =
      (session.report problems span).behind earlier found := by
  simp [report, behind]

theorem emit_behind {write : Listing → Listing} (hwrite : Appends write) :
    (session.behind earlier found).emit write = (session.emit write).behind earlier found := by
  simp [emit, behind, hwrite earlier]

theorem push_behind (name : String) (kind : FrameKind) (span : Span) :
    (session.behind earlier found).push name kind span =
      (session.push name kind span).behind earlier found := rfl

theorem checkCondition_behind (directive : String) (value : Option String) (span : Span) :
    (session.behind earlier found).checkCondition directive value span =
      (session.checkCondition directive value span).behind earlier found :=
  report_behind earlier found session _ span

theorem openConditional_behind (name condition : String) (span : Span) :
    (session.behind earlier found).openConditional name condition span =
      (session.openConditional name condition span).behind earlier found := by
  unfold openConditional
  rw [emit_behind _ _ _ (Listing.appends_openBlock _), push_behind]

theorem openBranch_behind (isElse : Bool) (name condition : String) (span : Span) :
    (session.behind earlier found).openBranch isElse name condition span =
      (session.openBranch isElse name condition span).behind earlier found := by
  unfold openBranch
  rw [frames_behind]
  cases continueChain isElse session.frames with
  | ok frames =>
    have hemitted := emit_behind earlier found { session with frames := frames }
      (Listing.appends_continueBlock (if isElse then elseHeader else elseIfHeader condition))
    exact congrArg (·.push name .branch span) hemitted
  | error refusal => simp only [report_behind, openConditional_behind]

theorem openLoop_behind (setting : Setting) (expression : String) (span : Span) :
    openLoop setting (session.behind earlier found) expression span =
      ((openLoop setting session expression span).1.behind earlier found,
        (openLoop setting session expression span).2) := by
  unfold openLoop
  cases EachClause.parse? expression with
  | none => simp only [report_behind]
  | some clause =>
    have hemitted := emit_behind earlier found session
      (appends_openLoopBlocks (session.loops + 1) (enclosingLoop session.frames)
        (setting.ids session.drawn) clause)
    exact congrArg (fun written : Session =>
      ({ written with loops := session.loops + 1, drawn := session.drawn + 1 },
        some (session.loops + 1))) hemitted

theorem checkAttributes_behind (classified : Classified) (span : Span) :
    (session.behind earlier found).checkAttributes classified span =
      (session.checkAttributes classified span).behind earlier found := by
  simp only [checkAttributes, report_behind]

theorem openGuard_behind (condition : Option String) (span : Span) :
    (session.behind earlier found).openGuard condition span =
      (session.openGuard condition span).behind earlier found := by
  cases condition with
  | none => rfl
  | some value =>
    simp only [openGuard, checkCondition_behind]
    exact emit_behind _ _ _ (Listing.appends_openBlock _)

theorem openOwnSkip_behind (skip : Option String) (span : Span) :
    (session.behind earlier found).openOwnSkip skip span =
      (session.openOwnSkip skip span).behind earlier found := by
  cases skip with
  | none => rfl
  | some value =>
    simp only [openOwnSkip, checkCondition_behind]
    exact emit_behind _ _ _ (appends_openSkipBlock _)

theorem openOwnLoop_behind (setting : Setting) (iteration : Option String) (span : Span) :
    openOwnLoop setting (session.behind earlier found) iteration span =
      ((openOwnLoop setting session iteration span).1.behind earlier found,
        (openOwnLoop setting session iteration span).2) := by
  cases iteration with
  | none => rfl
  | some expression => exact openLoop_behind earlier found session setting expression span

theorem takeElementKey_behind (explicit : ExplicitKey) (ownLoop : Option Nat) :
    (session.behind earlier found).takeElementKey explicit ownLoop =
      ((session.takeElementKey explicit ownLoop).1.behind earlier found,
        (session.takeElementKey explicit ownLoop).2) := by
  unfold takeElementKey
  rw [frames_behind]
  cases explicit <;> cases ownLoop <;> cases takeChildKey session.frames <;> rfl

theorem hoistStatics_behind (setting : Setting) (statics : List Markup.Attribute)
    (key : Option String) :
    hoistStatics setting (session.behind earlier found) statics key =
      ((hoistStatics setting session statics key).1.behind earlier found,
        (hoistStatics setting session statics key).2) := by
  unfold hoistStatics
  split
  · rfl
  · cases key <;> rfl

theorem openRendered_behind (setting : Setting) (name : String) (explicit : ExplicitKey)
    (ownLoop : Option Nat) (classified : Classified) :
    openRendered setting (session.behind earlier found) name explicit ownLoop classified =
      (openRendered setting session name explicit ownLoop classified).behind earlier found := by
  simp only [openRendered, takeElementKey_behind, hoistStatics_behind]
  exact emit_behind _ _ _ (Listing.appends_openBlock _)

theorem openElement_behind (setting : Setting) (name : String) (attributes : Attributes)
    (span : Span) :
    openElement setting (session.behind earlier found) name attributes span =
      (openElement setting session name attributes span).behind earlier found := by
  simp only [openElement, checkAttributes_behind, openGuard_behind, openOwnLoop_behind,
    openRendered_behind, openOwnSkip_behind, push_behind]

theorem readMetadata_behind (attributes : Attributes) (span : Span) :
    (session.behind earlier found).readMetadata attributes span =
      (session.readMetadata attributes span).behind earlier found := by
  unfold readMetadata
  simp only [report_behind]
  rfl

theorem openTag_behind (setting : Setting) (name : String) (attributes : Attributes)
    (span : Span) :
    openTag setting (session.behind earlier found) name attributes span =
      (openTag setting session name attributes span).behind earlier found := by
  unfold openTag
  cases TagKind.of name attributes with
  | ifTag => simp only [checkCondition_behind, openConditional_behind]
  | elseIfTag => simp only [checkCondition_behind, openBranch_behind]
  | elseTag => simp only [checkCondition_behind, openBranch_behind]
  | eachTag => simp only [openLoop_behind, push_behind]
  | skipTag =>
    simp only [checkCondition_behind, emit_behind _ _ _ (appends_openSkipBlock _), push_behind]
  | script => rfl
  | metadata =>
    change (if session.frames = [] ∧ session.metadata = none then _ else _) = _
    split
    · simp only [readMetadata_behind, push_behind]
    · simp only [report_behind, openElement_behind]
  | element => simp only [openElement_behind]

theorem addText_behind (content : String) (span : Span) :
    (session.behind earlier found).addText content span =
      (session.addText content span).behind earlier found := by
  unfold addText
  split
  · rfl
  · rw [frames_behind]
    split
    · rfl
    · exact emit_behind _ _ _ (Listing.appends_write _)
    · have hreported : (session.behind earlier found).reportIssues
          (Interpolation.ofString content).issues span =
          (session.reportIssues (Interpolation.ofString content).issues span).behind
            earlier found := by
        simp [reportIssues, behind]
      simp only [hreported]
      exact emit_behind _ _ _ (Listing.appends_write _)

end Behind

theorem unwind_behind (earlier : List Step) (found : List Diagnostic) (session : Session)
    (problem : String → Problem) (place : Frame → Span) (frames : List Frame) :
    (session.behind earlier found).unwind problem place frames =
      (session.unwind problem place frames).behind earlier found := by
  induction frames generalizing session with
  | nil => rfl
  | cons frame frames ih =>
    simp only [unwind, List.foldl_cons] at ih ⊢
    rw [report_behind, emit_behind _ _ _ frame.appends_close, ih]

theorem closeTag_behind (earlier : List Step) (found : List Diagnostic) (session : Session)
    (name : String) (span : Span) :
    (session.behind earlier found).closeTag name span =
      (session.closeTag name span).behind earlier found := by
  unfold closeTag
  rw [frames_behind]
  split
  · exact report_behind _ _ _ _ _
  · rename_i frame outer hbehind
    simp only [unwind_behind]
    rw [emit_behind _ _ _ frame.appends_close]
    rfl

/-- An event adds the same steps and problems whatever was written and reported before. -/
theorem feed_behind (earlier : List Step) (found : List Diagnostic) (setting : Setting)
    (session : Session) (event : Event) :
    feed setting (session.behind earlier found) event =
      (feed setting session event).behind earlier found := by
  cases event with
  | opened name attributes span => exact openTag_behind _ _ _ _ _ _ _
  | text content span => exact addText_behind _ _ _ _ _
  | closed name span => exact closeTag_behind _ _ _ _ _

theorem feedAll_behind (earlier : List Step) (found : List Diagnostic) (setting : Setting)
    (session : Session) (events : List Event) :
    feedAll setting (session.behind earlier found) events =
      (feedAll setting session events).behind earlier found := by
  induction events generalizing session with
  | nil => rfl
  | cons event events ih =>
    simp only [feedAll, List.foldl_cons] at ih ⊢
    rw [feed_behind, ih]

theorem finish_behind (earlier : List Step) (found : List Diagnostic) (size : Nat)
    (session : Session) :
    (session.behind earlier found).finish size = (session.finish size).behind earlier found := by
  simp only [finish, frames_behind, unwind_behind]
  rfl

/-- What a session becomes is fixed by its core; what it had written and reported stays in front. -/
theorem feedAll_eq_behind_core (setting : Setting) (session : Session) (events : List Event) :
    feedAll setting session events =
      (feedAll setting session.core events).behind session.listing.steps session.diagnostics := by
  rw [← feedAll_behind, behind_core]

end Session

end TemplateCompiler.Template
