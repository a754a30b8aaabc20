import TemplateCompiler.Diagnostic
import TemplateCompiler.Markup.Event
import TemplateCompiler.Options
import TemplateCompiler.Package.Program
import TemplateCompiler.Template.Condition
import TemplateCompiler.Template.EachClause
import TemplateCompiler.Template.Frame
import TemplateCompiler.Template.HoistPool
import TemplateCompiler.Template.TagKind

namespace TemplateCompiler.Template

open Markup (Attributes Event Span)
open Package (Program Signature)
open Script (Call.elementOpen Call.skip Call.text Listing)

/-- What the template says about the function. -/
structure Metadata where
  name : Option String
  args : Option String
deriving DecidableEq, Repr

/-- The state of one compile: the script written so far, the open tags, the number of loops opened
    and ids drawn, what is known about the function, and the problems found. -/
structure Session where
  listing : Listing
  pool : HoistPool
  frames : List Frame
  loops : Nat
  drawn : Nat
  metadata : Option Metadata
  diagnostics : List Diagnostic
deriving DecidableEq, Repr

/-- What a compile depends on besides its events. -/
structure Setting where
  ids : IdSource
  noStatics : Bool

/-- The opening line of a conditional block. -/
def ifHeader (condition : String) : String :=
  "if (" ++ condition ++ ") \x7b"

/-- The line between two branches, of which the second is unconditional. -/
def elseHeader : String := "\x7d else \x7b"

/-- The line between two branches, of which the second has a condition. -/
def elseIfHeader (condition : String) : String :=
  "\x7d else if (" ++ condition ++ ") \x7b"

/-- Opens the block of content that is rendered unless it is skipped. -/
def openSkipBlock (condition : String) (listing : Listing) : Listing :=
  ((listing.openBlock (ifHeader condition)).write Call.skip).continueBlock elseHeader

/-- The line that keeps the target of a loop. -/
def targetLine (number : Nat) (clause : EachClause) : String :=
  "var " ++ targetVariable number ++ " = " ++ clause.target

/-- The opening line of the function called with each item of a loop. Targets without `forEach` are
    iterated over by their keys. -/
def iterationHeader (number : Nat) : String :=
  let target := targetVariable number
  ";(" ++ target ++ ".forEach ? " ++ target ++ " : Object.keys(" ++ target ++
    ")).forEach(function ($value, $item) \x7b"

/-- The first lines of that function: they fetch the value of a key, and bind the value and, if it
    has a name, the key. -/
def bindingLines (number : Nat) (clause : EachClause) : List String :=
  let target := targetVariable number
  ["if (!" ++ target ++ ".forEach) \x7b $item = $value; $value = " ++ target ++ "[$item] \x7d",
    "var " ++ clause.binding ++ " = $value"] ++
  clause.itemBinding.toList.map fun itemKey => "var " ++ itemKey ++ " = $item"

/-- The line that makes the key of a loop's current item. -/
def keyLine (number : Nat) (outer : Option Nat) (id : String) (clause : EachClause) : String :=
  "var " ++ keyVariable number ++ " = " ++ loopKey (outer.map keyVariable) clause.itemKey id

/-- Opens the two blocks of a loop: a guard against a missing target, and the function called with
    each item. -/
def openLoopBlocks (number : Nat) (outer : Option Nat) (id : String) (clause : EachClause)
    (listing : Listing) : Listing :=
  let guarded := (listing.write (targetLine number clause)).openBlock
    (ifHeader (targetVariable number ++ " != null"))
  let entered := guarded.openBlock (iterationHeader number)
  ((bindingLines number clause).foldl Listing.write entered).write
    (keyLine number outer id clause)

namespace Session

/-- Nothing compiled yet. -/
def start : Session where
  listing := Listing.empty
  pool := HoistPool.empty
  frames := []
  loops := 0
  drawn := 0
  metadata := none
  diagnostics := []

/-- Adds problems of one place behind those found before. -/
def report (session : Session) (problems : List Problem) (span : Span) : Session :=
  { session with diagnostics := session.diagnostics ++ problems.map (⟨·, span⟩) }

/-- Writes to the listing. -/
def emit (session : Session) (write : Listing → Listing) : Session :=
  { session with listing := write session.listing }

/-- Makes a tag the innermost open one. -/
def push (session : Session) (name : String) (kind : FrameKind) (span : Span) : Session :=
  { session with frames := ⟨name, kind, span⟩ :: session.frames }

/-- Reports a condition that cannot be used. -/
def checkCondition (session : Session) (directive : String) (value : Option String) (span : Span) :
    Session :=
  session.report ((conditionIssue? value).toList.map fun issue =>
    .conditionInterpolation directive issue.message) span

/-- Opens a conditional of its own. -/
def openConditional (session : Session) (name condition : String) (span : Span) : Session :=
  (session.emit (·.openBlock (ifHeader condition))).push name (.conditional false) span

/-- Opens a further branch of the conditional around it. Without one to continue it is reported, and
    becomes a conditional of its own. -/
def openBranch (session : Session) (isElse : Bool) (name condition : String) (span : Span) :
    Session :=
  match continueChain isElse session.frames with
  | .ok frames =>
    let header := if isElse then elseHeader else elseIfHeader condition
    ({ session with frames := frames }.emit (·.continueBlock header)).push name .branch span
  | .error refusal =>
    (session.report [.unmatchedDirective name refusal.message] span).openConditional name condition
      span

/-- Opens a loop and numbers it. An iteration that cannot be read is reported and opens none. -/
def openLoop (setting : Setting) (session : Session) (expression : String) (span : Span) :
    Session × Option Nat :=
  match EachClause.parse? expression with
  | none => (session.report [.invalidIteration expression] span, none)
  | some clause =>
    let number := session.loops + 1
    let written := session.emit (openLoopBlocks number (enclosingLoop session.frames)
      (setting.ids session.drawn) clause)
    ({ written with loops := number, drawn := session.drawn + 1 }, some number)

/-- The key of an element: its own, that of its own loop, or the next child key of the loop whose
    body it stands in. -/
def takeElementKey (session : Session) (explicit : ExplicitKey) (ownLoop : Option Nat) :
    Session × Option String :=
  match explicit, ownLoop with
  | .literal key, _ => (session, some (Script.quote key))
  | _, some number => (session, some (keyVariable number))
  | _, none =>
    match takeChildKey session.frames with
    | some (key, frames) => ({ session with frames := frames }, some key)
    | none => (session, none)

/-- Hoists the static attributes of an element. They are only set when the element is created, so it
    needs a key to be found again, and gets a generated one if it has no other. -/
def hoistStatics (setting : Setting) (session : Session) (statics : List Markup.Attribute)
    (key : Option String) : Session × Option String × Option String :=
  if statics = [] then (session, key, none)
  else
    let text := serializeStatics statics
    let hoisted := { session with pool := session.pool.addStatics text }
    let identifier := session.pool.identifierOf text
    match key with
    | some key => (hoisted, some key, some identifier)
    | none =>
      ({ hoisted with drawn := session.drawn + 1 },
        some (Script.quote (setting.ids session.drawn)), some identifier)

/-- Reports the attributes of an element that cannot be used: chained directives, then values. -/
def checkAttributes (session : Session) (classified : Classified) (span : Span) : Session :=
  (session.report (classified.chained.map Problem.chainedAttribute) span).report
    (classified.issues.map fun (name, issue) => .attributeInterpolation name issue.message) span

/-- Opens the guard of an element that has a condition. -/
def openGuard (session : Session) (condition : Option String) (span : Span) : Session :=
  match condition with
  | none => session
  | some value => (session.checkCondition "if" (some value) span).emit
      (·.openBlock (ifHeader (conditionExpression (some value))))

/-- Opens the loop of an element that has an iteration. -/
def openOwnLoop (setting : Setting) (session : Session) (iteration : Option String) (span : Span) :
    Session × Option Nat :=
  match iteration with
  | none => (session, none)
  | some expression => openLoop setting session expression span

/-- Opens the element itself with its key, its static attributes and its properties. -/
def openRendered (setting : Setting) (session : Session) (name : String) (explicit : ExplicitKey)
    (ownLoop : Option Nat) (classified : Classified) : Session :=
  let (keyed, key) := session.takeElementKey explicit ownLoop
  let (hoisted, key, statics) := hoistStatics setting keyed classified.statics key
  hoisted.emit (·.openBlock (Call.elementOpen name key statics classified.properties))

/-- Opens the block of an element's content that may be skipped. -/
def openOwnSkip (session : Session) (skip : Option String) (span : Span) : Session :=
  match skip with
  | none => session
  | some value => (session.checkCondition "skip" (some value) span).emit
      (openSkipBlock (conditionExpression (some value)))

/-- Opens a rendered element with the guards and the loop of its attributes. -/
def openElement (setting : Setting) (session : Session) (name : String) (attributes : Attributes)
    (span : Span) : Session :=
  let explicit := ExplicitKey.ofAttribute (attributes.get? "key")
  let classified := Classified.ofAttributes (attributes.erase "key")
    (explicit = .empty || setting.noStatics)
  let guarded := (session.checkAttributes classified span).openGuard classified.condition span
  let (looped, ownLoop) := openOwnLoop setting guarded classified.iteration span
  let opened := openRendered setting looped name explicit ownLoop classified
  (opened.openOwnSkip classified.skip span).push name
    (.element classified.condition.isSome ownLoop classified.skip.isSome) span

/-- Takes what a template tag says about the function. -/
def readMetadata (session : Session) (attributes : Attributes) (span : Span) : Session :=
  let name := (attributes.get? "name").map Text.trimmed
  let invalid := name.filter (!Script.isIdentifier ·)
  { session.report (invalid.toList.map Problem.invalidFunctionName) span with
    metadata := some
      { name := name.filter Script.isIdentifier
        args := (attributes.get? "args").filter (!Text.allBlank ·) } }

/-- Opens a tag. -/
def openTag (setting : Setting) (session : Session) (name : String) (attributes : Attributes)
    (span : Span) : Session :=
  let condition := tagCondition attributes
  match TagKind.of name attributes with
  | .ifTag =>
    (session.checkCondition name condition span).openConditional name
      (conditionExpression condition) span
  | .elseIfTag =>
    (session.checkCondition name condition span).openBranch false name
      (conditionExpression condition) span
  | .elseTag =>
    (session.checkCondition name condition span).openBranch true name
      (conditionExpression condition) span
  | .eachTag =>
    let (looped, number) := openLoop setting session ((attributes.get? "expression").getD "") span
    looped.push name (.each (number.map (⟨·, 0⟩))) span
  | .skipTag =>
    ((session.checkCondition name condition span).emit
      (openSkipBlock (conditionExpression condition))).push name .skip span
  | .script => session.push name (.literal (attributes.contains "hoisted")) span
  | .metadata =>
    if session.frames = [] ∧ session.metadata = none then
      (session.readMetadata attributes span).push name .template span
    else
      openElement setting (session.report [.extraMetadata] span) name attributes span
  | .element => openElement setting session name attributes span

/-- The place of an issue in a text: one byte at the brace, at most at the end of the text. -/
def issueSpan (span : Span) (issue : Issue) : Span :=
  Span.ofLength (min (span.start + issue.offset) span.stop) 1

/-- Adds the issues of a text, each at its own place. -/
def reportIssues (session : Session) (issues : List Issue) (span : Span) : Session :=
  { session with diagnostics := session.diagnostics ++ issues.map fun issue =>
      ⟨.textInterpolation issue.message, issueSpan span issue⟩ }

/-- Renders a text. Directly inside a script it is kept as written; blank text is dropped. -/
def addText (session : Session) (content : String) (span : Span) : Session :=
  if Text.allBlank content then session
  else
    match session.frames.head?.map Frame.kind with
    | some (.literal true) =>
      { session with pool := session.pool.addLiteral (Text.trimmed content) }
    | some (.literal false) => session.emit (·.write (Text.trimmed content))
    | _ =>
      let interpolation := Interpolation.ofString content
      (session.reportIssues interpolation.issues span).emit
        (·.write (Call.text interpolation.expression))

/-- Closes the innermost open tags, given innermost first, each reported unless it is a branch. -/
def unwind (problem : String → Problem) (place : Frame → Span) (session : Session)
    (frames : List Frame) : Session :=
  frames.foldl (fun session frame =>
    (session.report (if frame.isBranch then [] else [problem frame.name]) (place frame)).emit
      frame.close) session

/-- Closes the innermost tag of a name, and before it the tags inside it that are still open. -/
def closeTag (session : Session) (name : String) (span : Span) : Session :=
  match session.frames.dropWhile (·.name != name) with
  | [] => session.report [.notOpened name] span
  | frame :: outer =>
    let inner := session.frames.takeWhile (·.name != name)
    let unwound := session.unwind Problem.closedImplicitly Frame.span inner
    { unwound.emit frame.close with frames := outer }

/-- An end tag closes the innermost open tag if it has its name. -/
theorem closeTag_innermost (session : Session) {frame : Frame} {outer : List Frame}
    (hframes : session.frames = frame :: outer) (span : Span) :
    session.closeTag frame.name span = { session.emit frame.close with frames := outer } := by
  simp [closeTag, hframes, unwind]

/-- Compiles the next event. -/
def feed (setting : Setting) (session : Session) : Event → Session
  | .opened name attributes span => openTag setting session name attributes span
  | .text content span => session.addText content span
  | .closed name span => session.closeTag name span

/-- Compiles a list of events. -/
def feedAll (setting : Setting) (session : Session) (events : List Event) : Session :=
  events.foldl (feed setting) session

@[simp]
theorem feedAll_nil (setting : Setting) (session : Session) :
    session.feedAll setting [] = session := rfl

@[simp]
theorem feedAll_cons (setting : Setting) (session : Session) (event : Event)
    (events : List Event) :
    session.feedAll setting (event :: events) =
      (session.feed setting event).feedAll setting events := rfl

theorem feedAll_append (setting : Setting) (session : Session) (events later : List Event) :
    session.feedAll setting (events ++ later) =
      (session.feedAll setting events).feedAll setting later :=
  List.foldl_append

/-- Closes all tags that are still open at the end of a source of `size` bytes. -/
def finish (size : Nat) (session : Session) : Session :=
  { session.unwind Problem.neverClosed (fun frame => Span.ofBounds frame.span.start size)
      session.frames with frames := [] }

/-- The function that has been compiled. What the template says about it goes before the options. -/
def program (options : Options) (session : Session) : Program where
  signature := Signature.ofParams
    ((session.metadata.bind Metadata.name).getD options.functionName)
    ((session.metadata.bind Metadata.args).getD options.functionArgs)
  body := session.listing.render options.indentWidth
  prologue := session.pool.render

end Session

end TemplateCompiler.Template
