import TemplateCompiler.Compile
import TemplateCompiler.Proofs.OpenTags

namespace TemplateCompiler.Script

/-- The piece of script that a step writes. -/
def Step.text? : Step → Option String
  | write text => some text
  | _ => none

namespace Listing

/-- The pieces of script that are written, in order. -/
def texts (listing : Listing) : List String :=
  listing.steps.filterMap Step.text?

@[simp]
theorem texts_write (listing : Listing) (text : String) :
    (listing.write text).texts = listing.texts ++ [text] :=
  List.filterMap_append

@[simp]
theorem texts_indent (listing : Listing) : listing.indent.texts = listing.texts :=
  List.filterMap_append.trans (List.append_nil _)

@[simp]
theorem texts_dedent (listing : Listing) : listing.dedent.texts = listing.texts :=
  List.filterMap_append.trans (List.append_nil _)

theorem texts_foldl_write (listing : Listing) (texts : List String) :
    (texts.foldl write listing).texts = listing.texts ++ texts := by
  induction texts generalizing listing with
  | nil => exact (List.append_nil _).symm
  | cons text texts ih => rw [List.foldl_cons, ih, texts_write, List.append_assoc]; rfl

theorem map_text_placeLines (level : Nat) (continued : Bool) (texts : List String) :
    (placeLines level continued texts).map Line.text = texts := by
  induction texts generalizing continued with
  | nil => rfl
  | cons text texts ih => rw [placeLines, List.map_cons, ih]

theorem map_text_placeSteps (level : Nat) (steps : List Step) :
    (placeSteps level steps).map Line.text =
      (steps.filterMap Step.text?).flatMap Text.splitLines := by
  induction steps generalizing level with
  | nil => rfl
  | cons step steps ih =>
    rw [placeSteps, List.map_append, ih]
    cases step with
    | indent | dedent => rfl
    | write text =>
      rw [Step.linesAt, map_text_placeLines]
      rfl

/-- The lines of a listing are those of its pieces. -/
theorem map_text_lines (listing : Listing) :
    listing.lines.map Line.text = listing.texts.flatMap Text.splitLines :=
  map_text_placeSteps 0 listing.steps

end Listing

end TemplateCompiler.Script

namespace TemplateCompiler.Template

open Markup (Attributes Event Span)
open Script (Listing)

/-- What the key of an element is made of. -/
inductive ElementKey where
  /-- The `key` attribute of the element. -/
  | given (key : String)
  /-- The key of the current item of the element's own loop. -/
  | ofLoop (number : Nat)
  /-- The key of the current item of the loop whose body the element stands in, and the number of
      the element among the children there. -/
  | ofChild (number ordinal : Nat)
  /-- A generated id. -/
  | generated (id : String)
deriving DecidableEq, Repr

namespace ElementKey

/-- The script expression of a key. -/
def expression : ElementKey → String
  | given key => Script.quote key
  | ofLoop number => keyVariable number
  | ofChild number ordinal => childKey (keyVariable number) ordinal
  | generated id => Script.quote id

/-- The loop whose key variable a key refers to. -/
def loop? : ElementKey → Option Nat
  | ofLoop number => some number
  | ofChild number _ => some number
  | _ => none

end ElementKey

/-- What is written for one purpose. -/
inductive Phrase where
  /-- A piece of script that the template gives. -/
  | literal (code : String)
  | text (expression : String)
  | skip
  | ifStart (condition : String)
  /-- The next branch of a conditional; the last one may be without a condition. -/
  | ifTurn (condition : Option String)
  | ifEnd
  /-- The header of a loop, whose key extends that of the loop `outer`. -/
  | loopStart (number : Nat) (outer : Option Nat) (id : String) (clause : EachClause)
  | loopEnd (number : Nat)
  | elementStart (name : String) (key : Option ElementKey) (identifier : Option String)
      (properties : List Script.Property)
  | elementEnd (name : String)
deriving DecidableEq, Repr

/-- Writes a phrase. -/
def Phrase.write (listing : Listing) : Phrase → Listing
  | literal code => listing.write code
  | text expression => listing.write (Script.Call.text expression)
  | skip => listing.write Script.Call.skip
  | ifStart condition => listing.openBlock (ifHeader condition)
  | ifTurn (some condition) => listing.continueBlock (elseIfHeader condition)
  | ifTurn none => listing.continueBlock elseHeader
  | ifEnd => listing.closeBlock blockEnd
  | loopStart number outer id clause => openLoopBlocks number outer id clause listing
  | loopEnd _ => closeLoop listing
  | elementStart name key identifier properties =>
    listing.openBlock
      (Script.Call.elementOpen name (key.map ElementKey.expression) identifier properties)
  | elementEnd name => listing.closeBlock (Script.Call.elementClose name)

namespace Phrase

/-- The pieces of script that a phrase is written as. -/
def texts : Phrase → List String
  | literal code => [code]
  | text expression => [Script.Call.text expression]
  | skip => [Script.Call.skip]
  | ifStart condition => [ifHeader condition]
  | ifTurn (some condition) => [elseIfHeader condition]
  | ifTurn none => [elseHeader]
  | ifEnd => [blockEnd]
  | loopStart number outer id clause =>
    [targetLine number clause, ifHeader (targetVariable number ++ " != null"),
      iterationHeader number] ++ bindingLines number clause ++ [keyLine number outer id clause]
  | loopEnd _ => [iterationEnd, blockEnd]
  | elementStart name key identifier properties =>
    [Script.Call.elementOpen name (key.map ElementKey.expression) identifier properties]
  | elementEnd name => [Script.Call.elementClose name]

theorem texts_write (phrase : Phrase) (listing : Listing) :
    (phrase.write listing).texts = listing.texts ++ phrase.texts := by
  rcases phrase with _ | _ | _ | _ | (_ | _) | _ | _ | _ | _ | _
  case loopStart =>
    simp [write, texts, openLoopBlocks, Listing.openBlock, Listing.texts_foldl_write]
  case loopEnd => simp [write, texts, closeLoop, Listing.closeBlock]
  all_goals
    simp [write, texts, Listing.openBlock, Listing.continueBlock, Listing.closeBlock]

theorem texts_foldl_write (phrases : List Phrase) (listing : Listing) :
    (phrases.foldl write listing).texts = listing.texts ++ phrases.flatMap texts := by
  induction phrases generalizing listing with
  | nil => exact (List.append_nil _).symm
  | cons phrase phrases ih =>
    rw [List.foldl_cons, ih, texts_write, List.flatMap_cons, List.append_assoc]

end Phrase

/-- The phrases that enter content which may be skipped. -/
def skipPhrases (condition : String) : List Phrase :=
  [.ifStart condition, .skip, .ifTurn none]

/-- The phrases that an open tag owes when it closes. -/
def Frame.closing (frame : Frame) : List Phrase :=
  match frame.kind with
  | .template | .literal _ | .branch | .each none => []
  | .conditional _ | .skip => [.ifEnd]
  | .each (some loop) => [.loopEnd loop.number]
  | .element guarded loop skip =>
    (if skip then [.ifEnd] else []) ++ .elementEnd frame.name ::
      (loop.toList.map .loopEnd ++ if guarded then [.ifEnd] else [])

theorem Frame.close_eq (frame : Frame) (listing : Listing) :
    frame.close listing = frame.closing.foldl Phrase.write listing := by
  obtain ⟨name, kind, span⟩ := frame
  rcases kind with _ | _ | _ | _ | _ | (_ | loop) | ⟨guarded, loop, skip⟩
  case element => cases guarded <;> cases loop <;> cases skip <;> rfl
  all_goals rfl

/-- Whether a phrase ends what an earlier one has started. -/
def Phrase.isEnd : Phrase → Bool
  | ifEnd | loopEnd _ | elementEnd _ => true
  | _ => false

theorem Frame.all_isEnd_closing (frame : Frame) : frame.closing.all Phrase.isEnd = true := by
  obtain ⟨name, kind, span⟩ := frame
  rcases kind with _ | _ | _ | _ | _ | (_ | loop) | ⟨guarded, loop, skip⟩
  case element => cases guarded <;> cases loop <;> cases skip <;> rfl
  all_goals rfl

/-- Open tags close with nothing but ends. -/
theorem isEnd_of_mem_closing {frames : List Frame} {phrase : Phrase}
    (hphrase : phrase ∈ frames.flatMap Frame.closing) : phrase.isEnd = true := by
  obtain ⟨frame, -, hclosing⟩ := List.mem_flatMap.mp hphrase
  exact List.all_eq_true.mp frame.all_isEnd_closing phrase hclosing

theorem Frame.name_of_elementEnd (frame : Frame) {name : String}
    (hend : .elementEnd name ∈ frame.closing) : name = frame.name := by
  obtain ⟨frameName, kind, span⟩ := frame
  rcases kind with _ | _ | _ | _ | _ | (_ | loop) | ⟨guarded, loop, skip⟩ <;>
    simp [Frame.closing] at hend
  exact hend

/-- The phrase for a further branch of a conditional, or for a conditional of its own where there is
    none to continue. -/
def branchPhrase (isElse : Bool) (condition : String) (frames : List Frame) : Phrase :=
  match continueChain isElse frames with
  | .ok _ => .ifTurn (if isElse then none else some condition)
  | .error _ => .ifStart condition

/-- An element that is rendered, and the state in which its tag is met. -/
structure Rendering where
  session : Session
  name : String
  attributes : Attributes

namespace Rendering

/-- The key that an element gives itself. -/
def explicit (rendering : Rendering) : ExplicitKey :=
  ExplicitKey.ofAttribute (rendering.attributes.get? "key")

/-- The attributes of an element by role. -/
def classified (setting : Setting) (rendering : Rendering) : Classified :=
  Classified.ofAttributes (rendering.attributes.erase "key")
    (rendering.explicit = .empty || setting.noStatics)

/-- The iteration of an element, if it has one that can be read. -/
def clause? (setting : Setting) (rendering : Rendering) : Option EachClause :=
  (rendering.classified setting).iteration.bind EachClause.parse?

/-- The number of the loop that an element runs itself. -/
def ownLoop? (setting : Setting) (rendering : Rendering) : Option Nat :=
  (rendering.clause? setting).map fun _ => rendering.session.loops + 1

/-- The key that an element has by what it says or where it stands: its own, that of its own loop,
    or the next one of the loop whose body it stands in. -/
def placedKey (setting : Setting) (rendering : Rendering) : Option ElementKey :=
  match rendering.explicit, rendering.ownLoop? setting, eachBody rendering.session.frames with
  | .literal key, _, _ => some (.given key)
  | _, some number, _ => some (.ofLoop number)
  | _, none, some loop => some (.ofChild loop.number (loop.children + 1))
  | _, none, none => none

/-- The key of an element. One with static attributes gets a generated key if it has no other. -/
def key (setting : Setting) (rendering : Rendering) : Option ElementKey :=
  (rendering.placedKey setting).or
    (if (rendering.classified setting).statics = [] then none
      else some (.generated (setting.ids rendering.session.drawn)))

/-- Where the key of an element comes from. -/
theorem key_cases {setting : Setting} {rendering : Rendering} {key : ElementKey}
    (hkey : rendering.key setting = some key) :
    (∃ text, key = .given text) ∨ (∃ id, key = .generated id) ∨
      (∃ number, key = .ofLoop number ∧ rendering.ownLoop? setting = some number) ∨
      ∃ loop, key = .ofChild loop.number (loop.children + 1) ∧
        rendering.placedKey setting = some key ∧ rendering.ownLoop? setting = none ∧
        eachBody rendering.session.frames = some loop := by
  cases hplaced : rendering.placedKey setting with
  | none =>
    rw [Rendering.key, hplaced, Option.none_or] at hkey
    split at hkey
    · cases hkey
    · exact .inr (.inl ⟨_, (Option.some.inj hkey).symm⟩)
  | some placed =>
    rw [Rendering.key, hplaced, Option.some_or] at hkey
    obtain rfl := Option.some.inj hkey
    unfold placedKey at hplaced
    split at hplaced
    · exact .inl ⟨_, (Option.some.inj hplaced).symm⟩
    · rename_i number hloop _
      exact .inr (.inr (.inl ⟨number, (Option.some.inj hplaced).symm, hloop⟩))
    · rename_i loop hloop hbody _
      exact .inr (.inr (.inr ⟨loop, (Option.some.inj hplaced).symm, rfl, hloop, hbody⟩))
    · cases hplaced

theorem ownLoop?_eq_none {setting : Setting} {rendering : Rendering}
    (hplaced : rendering.placedKey setting = none) : rendering.ownLoop? setting = none := by
  unfold placedKey at hplaced
  cases hloop : rendering.ownLoop? setting with
  | none => rfl
  | some number =>
    rw [hloop] at hplaced
    cases hexplicit : rendering.explicit <;> rw [hexplicit] at hplaced <;> cases hplaced

/-- The open tags around an element once it has got its key, which a loop body may have counted. -/
def counted (setting : Setting) (rendering : Rendering) : List Frame :=
  match rendering.placedKey setting with
  | some (.ofChild _ ordinal) => setChildren ordinal rendering.session.frames
  | _ => rendering.session.frames

/-- The array of an element's static attributes. -/
def identifier (setting : Setting) (rendering : Rendering) : Option String :=
  if (rendering.classified setting).statics = [] then none
  else some (rendering.session.pool.identifierOf
    (serializeStatics (rendering.classified setting).statics))

/-- The phrase that opens an element. -/
def start (setting : Setting) (rendering : Rendering) : Phrase :=
  .elementStart rendering.name (rendering.key setting) (rendering.identifier setting)
    (rendering.classified setting).properties

/-- What the tag of an element is while it is open. -/
def frameKind (setting : Setting) (rendering : Rendering) : FrameKind :=
  .element (rendering.classified setting).condition.isSome (rendering.ownLoop? setting)
    (rendering.classified setting).skip.isSome

/-- The phrases in front of an element: its guard and its own loop. -/
def before (setting : Setting) (rendering : Rendering) : List Phrase :=
  (rendering.classified setting).condition.toList.map (fun value =>
      .ifStart (conditionExpression (some value))) ++
    (rendering.clause? setting).toList.map (.loopStart (rendering.session.loops + 1)
      (enclosingLoop rendering.session.frames) (setting.ids rendering.session.drawn))

/-- The phrases behind the start of an element, if its content may be skipped. -/
def behind (setting : Setting) (rendering : Rendering) : List Phrase :=
  (rendering.classified setting).skip.toList.flatMap fun value =>
    skipPhrases (conditionExpression (some value))

/-- The phrases of an element up to its content. -/
def phrases (setting : Setting) (rendering : Rendering) : List Phrase :=
  rendering.before setting ++ rendering.start setting :: rendering.behind setting

end Rendering

namespace Session

/-- The element that an event renders. A template tag is one unless it describes the function. -/
def rendering? (session : Session) : Event → Option Rendering
  | .opened name attributes _ =>
    match TagKind.of name attributes with
    | .element => some ⟨session, name, attributes⟩
    | .metadata =>
      if session.frames = [] ∧ session.metadata = none then none
      else some ⟨session, name, attributes⟩
    | _ => none
  | _ => none

/-- An element is rendered under its own name and attributes, by a tag that is no directive. -/
theorem rendering?_eq_some {session : Session} {name : String} {attributes : Attributes}
    {span : Span} {rendering : Rendering}
    (hrendering : session.rendering? (.opened name attributes span) = some rendering) :
    rendering = ⟨session, name, attributes⟩ ∧
      (TagKind.of name attributes = .element ∨ TagKind.of name attributes = .metadata) := by
  simp only [rendering?] at hrendering
  cases hkind : TagKind.of name attributes <;> rw [hkind] at hrendering
  case element => exact ⟨(Option.some.inj hrendering).symm, .inl rfl⟩
  case metadata =>
    obtain ⟨-, hsome⟩ := Option.ite_none_left_eq_some.mp hrendering
    exact ⟨(Option.some.inj hsome).symm, .inr rfl⟩
  all_goals cases hrendering

theorem session_of_rendering? {session : Session} {event : Event} {rendering : Rendering}
    (hrendering : session.rendering? event = some rendering) : rendering.session = session := by
  cases event with
  | opened name attributes span => rw [(rendering?_eq_some hrendering).1]
  | text | closed => cases hrendering

/-- The iteration of an each tag, if it can be read. -/
def eachClause? (name : String) (attributes : Attributes) : Option EachClause :=
  if TagKind.of name attributes = .eachTag then
    EachClause.parse? ((attributes.get? "expression").getD "")
  else none

/-- The phrases of an opening tag that is no element. -/
def directivePhrases (setting : Setting) (session : Session) (name : String)
    (attributes : Attributes) : List Phrase :=
  let condition := conditionExpression (tagCondition attributes)
  match TagKind.of name attributes with
  | .ifTag => [.ifStart condition]
  | .elseIfTag => [branchPhrase false condition session.frames]
  | .elseTag => [branchPhrase true condition session.frames]
  | .eachTag =>
    (eachClause? name attributes).toList.map (.loopStart (session.loops + 1)
      (enclosingLoop session.frames) (setting.ids session.drawn))
  | .skipTag => skipPhrases condition
  | .script | .metadata | .element => []

/-- The phrases of a text. -/
def textPhrases (session : Session) (content : String) : List Phrase :=
  if Text.allBlank content then []
  else
    match session.frames.head?.map Frame.kind with
    | some (.literal true) => []
    | some (.literal false) => [.literal (Text.trimmed content)]
    | _ => [.text (Interpolation.ofString content).expression]

/-- The open tags that an end tag closes, innermost first. -/
def closedBy (session : Session) (name : String) : List Frame :=
  match session.frames.dropWhile (·.name != name) with
  | [] => []
  | frame :: _ => session.frames.takeWhile (·.name != name) ++ [frame]

/-- The phrases that are written for an event. -/
def phrases (setting : Setting) (session : Session) (event : Event) : List Phrase :=
  match session.rendering? event, event with
  | some rendering, _ => rendering.phrases setting
  | none, .opened name attributes _ => session.directivePhrases setting name attributes
  | none, .text content _ => session.textPhrases content
  | none, .closed name _ => (session.closedBy name).flatMap Frame.closing

theorem phrases_of_rendering (setting : Setting) {session : Session} {event : Event}
    {rendering : Rendering} (hrendering : session.rendering? event = some rendering) :
    session.phrases setting event = rendering.phrases setting := by
  simp only [phrases, hrendering]

theorem phrases_of_directive (setting : Setting) {session : Session} {name : String}
    {attributes : Attributes} {span : Span}
    (hnone : session.rendering? (.opened name attributes span) = none) :
    session.phrases setting (.opened name attributes span) =
      session.directivePhrases setting name attributes := by
  simp only [phrases, hnone]

/-- The phrases that are written for a list of events. -/
def script (setting : Setting) : Session → List Event → List Phrase
  | _, [] => []
  | session, event :: events =>
    session.phrases setting event ++ script setting (session.feed setting event) events

/-- The elements that a list of events renders, in document order. -/
def renderings (setting : Setting) : Session → List Event → List Rendering
  | _, [] => []
  | session, event :: events =>
    (session.rendering? event).toList ++ renderings setting (session.feed setting event) events

/-- The phrases of a whole compile: those of the events, and those that are still owed behind them. -/
def wholeScript (setting : Setting) (events : List Event) : List Phrase :=
  start.script setting events ++ (start.feedAll setting events).frames.flatMap Frame.closing

end Session

end TemplateCompiler.Template
