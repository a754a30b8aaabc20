import TemplateCompiler.Proofs.Phrases

namespace TemplateCompiler.Template

open Markup (Attributes Event Span)
open Script (Listing)

section Problems

/-- What is wrong with a condition. -/
def conditionProblems (directive : String) (value : Option String) : List Problem :=
  (conditionIssue? value).toList.map fun issue => .conditionInterpolation directive issue.message

/-- What is wrong with an iteration, if it cannot be read. -/
def iterationProblems (expression : String) : List Problem :=
  if (EachClause.parse? expression).isSome then [] else [.invalidIteration expression]

/-- What is wrong with a branch, if there is no conditional that it can continue. -/
def branchProblems (isElse : Bool) (name : String) (frames : List Frame) : List Problem :=
  match continueChain isElse frames with
  | .ok _ => []
  | .error refusal => [.unmatchedDirective name refusal.message]

/-- What is wrong with the name that a template tag gives the function. -/
def descriptionProblems (attributes : Attributes) : List Problem :=
  (((attributes.get? "name").map Text.trimmed).filter (!Script.isIdentifier ·)).toList.map
    .invalidFunctionName

/-- The reports about a text. -/
def textReports (content : String) (span : Span) : List Diagnostic :=
  (Interpolation.ofString content).issues.map fun issue =>
    ⟨.textInterpolation issue.message, Session.issueSpan span issue⟩

/-- The reports about open tags that have no end tags of their own. A branch needs none. -/
def unclosedReports (problem : String → Problem) (place : Frame → Span) (frames : List Frame) :
    List Diagnostic :=
  (frames.filter (·.kind ≠ .branch)).map fun frame => ⟨problem frame.name, place frame⟩

end Problems

namespace Rendering

variable (setting : Setting) (rendering : Rendering)

/-- The pool of hoisted declarations once that of an element is in it. -/
def hoisted : HoistPool :=
  if (rendering.classified setting).statics = [] then rendering.session.pool
  else rendering.session.pool.addStatics (serializeStatics (rendering.classified setting).statics)

/-- How many ids an element draws: one for its own loop, or one for itself if it has static
    attributes and nothing else to be found again by. -/
def idCount : Nat :=
  (rendering.clause? setting).toList.length +
    if (rendering.classified setting).statics ≠ [] ∧ rendering.placedKey setting = none then 1
    else 0

/-- What is wrong with an element. -/
def problems : List Problem :=
  let classified := rendering.classified setting
  classified.chained.map Problem.chainedAttribute ++
    classified.issues.map (fun entry => .attributeInterpolation entry.1 entry.2.message) ++
    classified.condition.toList.flatMap (fun value => conditionProblems "if" (some value)) ++
    classified.iteration.toList.flatMap iterationProblems ++
    classified.skip.toList.flatMap (fun value => conditionProblems "skip" (some value))

/-- What is wrong with the tag of an element. It may be a template tag that comes too late to
    describe the function. -/
def tagProblems : List Problem :=
  (if TagKind.of rendering.name rendering.attributes = .metadata then [.extraMetadata] else []) ++
    rendering.problems setting

end Rendering

namespace Session

section Element

variable (setting : Setting) (session : Session)

theorem openGuard_eq (condition : Option String) (span : Span) :
    session.openGuard condition span =
      { session with
        listing := (condition.toList.map fun value =>
          Phrase.ifStart (conditionExpression (some value))).foldl Phrase.write session.listing
        diagnostics := session.diagnostics ++ (condition.toList.flatMap fun value =>
          conditionProblems "if" (some value)).map (⟨·, span⟩) } := by
  cases condition with
  | none => simp [openGuard]
  | some value => simp [openGuard, checkCondition, report, emit, conditionProblems, Phrase.write]

theorem openOwnSkip_eq (skip : Option String) (span : Span) :
    session.openOwnSkip skip span =
      { session with
        listing := (skip.toList.flatMap fun value =>
          skipPhrases (conditionExpression (some value))).foldl Phrase.write session.listing
        diagnostics := session.diagnostics ++ (skip.toList.flatMap fun value =>
          conditionProblems "skip" (some value)).map (⟨·, span⟩) } := by
  cases skip with
  | none => simp [openOwnSkip]
  | some value =>
    simp [openOwnSkip, checkCondition, report, emit, conditionProblems, skipPhrases, Phrase.write,
      openSkipBlock]

/-- A loop takes a number and an id if its iteration can be read. Otherwise it is reported. -/
theorem openLoop_eq (expression : String) (span : Span) :
    let clause? := EachClause.parse? expression
    openLoop setting session expression span =
      ({ session with
          listing := (clause?.toList.map (.loopStart (session.loops + 1)
            (enclosingLoop session.frames) (setting.ids session.drawn))).foldl Phrase.write
              session.listing
          loops := session.loops + clause?.toList.length
          drawn := session.drawn + clause?.toList.length
          diagnostics := session.diagnostics ++ (iterationProblems expression).map (⟨·, span⟩) },
        clause?.map fun _ => session.loops + 1) := by
  unfold openLoop iterationProblems
  cases EachClause.parse? expression with
  | none => rfl
  | some clause => simp [emit, Phrase.write]

theorem openOwnLoop_eq (iteration : Option String) (span : Span) :
    let clause? := iteration.bind EachClause.parse?
    openOwnLoop setting session iteration span =
      ({ session with
          listing := (clause?.toList.map (.loopStart (session.loops + 1)
            (enclosingLoop session.frames) (setting.ids session.drawn))).foldl Phrase.write
              session.listing
          loops := session.loops + clause?.toList.length
          drawn := session.drawn + clause?.toList.length
          diagnostics := session.diagnostics ++
            (iteration.toList.flatMap iterationProblems).map (⟨·, span⟩) },
        clause?.map fun _ => session.loops + 1) := by
  cases iteration with
  | none => simp [openOwnLoop]
  | some expression =>
    rw [Option.toList_some, List.flatMap_singleton]
    exact openLoop_eq setting session expression span

theorem takeElementKey_eq (rendering : Rendering) (looped : Session)
    (hframes : looped.frames = rendering.session.frames) :
    looped.takeElementKey rendering.explicit (rendering.ownLoop? setting) =
      ({ looped with frames := rendering.counted setting },
        (rendering.placedKey setting).map ElementKey.expression) := by
  have hsame : { looped with frames := rendering.session.frames } = looped := by
    rw [← hframes]
  simp only [takeElementKey, takeChildKey_eq, hframes, Rendering.counted, Rendering.placedKey]
  cases rendering.explicit <;> cases rendering.ownLoop? setting <;>
    cases eachBody rendering.session.frames <;>
    simp [ElementKey.expression, hsame]

theorem hoistStatics_eq (statics : List Markup.Attribute) (key : Option ElementKey) :
    hoistStatics setting session statics (key.map ElementKey.expression) =
      ({ session with
          pool := if statics = [] then session.pool
            else session.pool.addStatics (serializeStatics statics)
          drawn := session.drawn + if statics ≠ [] ∧ key = none then 1 else 0 },
        (key.or (if statics = [] then none
          else some (.generated (setting.ids session.drawn)))).map ElementKey.expression,
        if statics = [] then none
          else some (session.pool.identifierOf (serializeStatics statics))) := by
  unfold hoistStatics
  by_cases hstatics : statics = []
  · simp [hstatics]
  · cases key with
    | none => simp [hstatics, ElementKey.expression]
    | some key => simp [hstatics]

/-- The call that opens an element is the phrase of its rendering. Its guard and its own loop come
    before, and of them only a loop draws an id. -/
theorem openRendered_eq (rendering : Rendering) (looped : Session)
    (hframes : looped.frames = rendering.session.frames)
    (hpool : looped.pool = rendering.session.pool)
    (hdrawn : rendering.ownLoop? setting = none → looped.drawn = rendering.session.drawn) :
    openRendered setting looped rendering.name rendering.explicit (rendering.ownLoop? setting)
        (rendering.classified setting) =
      { looped with
        listing := (rendering.start setting).write looped.listing
        pool := rendering.hoisted setting
        frames := rendering.counted setting
        drawn := looped.drawn + if (rendering.classified setting).statics ≠ [] ∧
          rendering.placedKey setting = none then 1 else 0 } := by
  have hgenerated : (rendering.placedKey setting).or
      (if (rendering.classified setting).statics = [] then none
        else some (.generated (setting.ids looped.drawn))) = rendering.key setting := by
    unfold Rendering.key
    cases hplaced : rendering.placedKey setting with
    | some key => rfl
    | none => rw [hdrawn (Rendering.ownLoop?_eq_none hplaced)]
  have hkey := takeElementKey_eq setting rendering looped hframes
  have hhoisted := hoistStatics_eq setting { looped with frames := rendering.counted setting }
    (rendering.classified setting).statics (rendering.placedKey setting)
  dsimp only at hhoisted
  rw [hgenerated, hpool] at hhoisted
  simp only [openRendered, hkey, hpool, hhoisted]
  rfl

/-- What opening an element does. -/
theorem openElement_eq (rendering : Rendering) (span : Span) :
    openElement setting rendering.session rendering.name rendering.attributes span =
      { rendering.session with
        listing := (rendering.phrases setting).foldl Phrase.write rendering.session.listing
        pool := rendering.hoisted setting
        frames := ⟨rendering.name, rendering.frameKind setting, span⟩ :: rendering.counted setting
        loops := rendering.session.loops + (rendering.clause? setting).toList.length
        drawn := rendering.session.drawn + rendering.idCount setting
        diagnostics := rendering.session.diagnostics ++
          (rendering.problems setting).map (⟨·, span⟩) } := by
  let classified := rendering.classified setting
  let guarded := (rendering.session.checkAttributes classified span).openGuard classified.condition
    span
  let looped : Session :=
    { rendering.session with
      listing := (rendering.before setting).foldl Phrase.write rendering.session.listing
      loops := rendering.session.loops + (rendering.clause? setting).toList.length
      drawn := rendering.session.drawn + (rendering.clause? setting).toList.length
      diagnostics := guarded.diagnostics ++
        (classified.iteration.toList.flatMap iterationProblems).map (⟨·, span⟩) }
  have hlooped : openOwnLoop setting guarded classified.iteration span =
      (looped, rendering.ownLoop? setting) := by
    rw [openOwnLoop_eq]
    dsimp only [guarded, looped]
    rw [openGuard_eq, Rendering.before, List.foldl_append]
    rfl
  have hdrawn : rendering.ownLoop? setting = none →
      looped.drawn = rendering.session.drawn := by
    intro hnone
    rw [Rendering.ownLoop?, Option.map_eq_none_iff] at hnone
    dsimp only [looped]
    rw [hnone]
    rfl
  have hopen : openElement setting rendering.session rendering.name rendering.attributes span =
      ((openRendered setting (openOwnLoop setting guarded classified.iteration span).1
        rendering.name rendering.explicit (openOwnLoop setting guarded classified.iteration span).2
        classified).openOwnSkip classified.skip span).push rendering.name
          (.element classified.condition.isSome
            (openOwnLoop setting guarded classified.iteration span).2 classified.skip.isSome)
          span := rfl
  rw [hopen, hlooped, openRendered_eq setting rendering looped rfl rfl hdrawn, openOwnSkip_eq]
  simp [push, looped, guarded, classified, openGuard_eq, checkAttributes, report,
    Rendering.phrases, Rendering.behind, Rendering.frameKind, Rendering.idCount,
    Rendering.problems, Nat.add_assoc, Function.comp_def]

end Element

section Tag

variable (setting : Setting) (session : Session)

theorem openBranch_eq (isElse : Bool) (name condition : String) (span : Span) :
    session.openBranch isElse name condition span =
      { session with
        listing := (branchPhrase isElse condition session.frames).write session.listing
        frames := if openChain session.frames = some false then
            ⟨name, .branch, span⟩ :: setElseSeen isElse session.frames
          else ⟨name, .conditional false, span⟩ :: session.frames
        diagnostics := session.diagnostics ++
          (branchProblems isElse name session.frames).map (⟨·, span⟩) } := by
  unfold openBranch branchPhrase branchProblems
  rw [continueChain_eq]
  match openChain session.frames with
  | none => rfl
  | some true => rfl
  | some false => cases isElse <;> simp [emit, push, Phrase.write]

/-- What an opening tag that is no element is while it is open. -/
def directiveKind (name : String) (attributes : Attributes) : FrameKind :=
  match TagKind.of name attributes with
  | .ifTag => .conditional false
  | .elseIfTag | .elseTag =>
    if openChain session.frames = some false then .branch else .conditional false
  | .eachTag => .each ((eachClause? name attributes).map fun _ => ⟨session.loops + 1, 0⟩)
  | .skipTag => .skip
  | .script => .literal (attributes.contains "hoisted")
  | .metadata | .element => .template

/-- The open tags around an opening tag that is no element. A branch may be the else of the
    conditional that it continues. -/
def directiveOuter (name : String) (attributes : Attributes) : List Frame :=
  if (session.directiveKind name attributes).isBranch then
    setElseSeen (TagKind.of name attributes = .elseTag) session.frames
  else session.frames

/-- What is wrong with an opening tag that is no element. -/
def directiveProblems (name : String) (attributes : Attributes) : List Problem :=
  let condition := conditionProblems name (tagCondition attributes)
  match TagKind.of name attributes with
  | .ifTag | .skipTag => condition
  | .elseIfTag => condition ++ branchProblems false name session.frames
  | .elseTag => condition ++ branchProblems true name session.frames
  | .eachTag => iterationProblems ((attributes.get? "expression").getD "")
  | .metadata => descriptionProblems attributes
  | .script | .element => []

/-- What opening a tag that is no element does. -/
theorem openTag_directive_eq {session : Session} {name : String} {attributes : Attributes}
    {span : Span} (hnone : session.rendering? (.opened name attributes span) = none) :
    openTag setting session name attributes span =
      { session with
        listing :=
          (session.directivePhrases setting name attributes).foldl Phrase.write session.listing
        frames := ⟨name, session.directiveKind name attributes, span⟩ ::
          session.directiveOuter name attributes
        loops := session.loops + (eachClause? name attributes).toList.length
        drawn := session.drawn + (eachClause? name attributes).toList.length
        metadata := if TagKind.of name attributes = .metadata then
            (session.readMetadata attributes span).metadata
          else session.metadata
        diagnostics := session.diagnostics ++
          (session.directiveProblems name attributes).map (⟨·, span⟩) } := by
  simp only [rendering?] at hnone
  cases hkind : TagKind.of name attributes <;> rw [hkind] at hnone <;>
    simp only [openTag, directivePhrases, directiveKind, directiveOuter, directiveProblems,
      eachClause?, hkind]
  case ifTag | skipTag => rfl
  case script => simp [push, FrameKind.isBranch]
  case elseIfTag | elseTag =>
    rw [openBranch_eq]
    by_cases hchain : openChain session.frames = some false <;>
      simp [checkCondition, report, conditionProblems, FrameKind.isBranch, hchain]
  case eachTag =>
    rw [openLoop_eq]
    simp [push, FrameKind.isBranch, Function.comp_def]
  case metadata =>
    dsimp only at hnone
    split at hnone
    · rename_i hdescribes
      rw [if_pos hdescribes]
      rfl
    · cases hnone
  case element => cases hnone

/-- What opening the tag of an element does, also if a template tag becomes one. -/
theorem openTag_rendering_eq {session : Session} {name : String} {attributes : Attributes}
    {span : Span} {rendering : Rendering}
    (hrendering : session.rendering? (.opened name attributes span) = some rendering) :
    openTag setting session name attributes span =
      { session with
        listing := (rendering.phrases setting).foldl Phrase.write session.listing
        pool := rendering.hoisted setting
        frames := ⟨name, rendering.frameKind setting, span⟩ :: rendering.counted setting
        loops := session.loops + (rendering.clause? setting).toList.length
        drawn := session.drawn + rendering.idCount setting
        diagnostics := session.diagnostics ++ (rendering.tagProblems setting).map (⟨·, span⟩) } := by
  obtain ⟨rfl, -⟩ := rendering?_eq_some hrendering
  simp only [rendering?] at hrendering
  cases hkind : TagKind.of name attributes <;> rw [hkind] at hrendering <;>
    simp only [openTag, Rendering.tagProblems, hkind]
  case element => exact openElement_eq setting ⟨session, name, attributes⟩ span
  case metadata =>
    rw [if_neg (Option.ite_none_left_eq_some.mp hrendering).1]
    refine (openElement_eq setting ⟨session.report [.extraMetadata] span, name, attributes⟩
      span).trans ?_
    simp only [report, List.map_append, ← List.append_assoc]
    rfl
  all_goals cases hrendering

end Tag

section TextAndEnd

variable (session : Session)

/-- Whether a text is rendered. Blank text is not, and neither is the text of a script. -/
def rendersText (content : String) : Bool :=
  !Text.allBlank content &&
    ((session.frames.head?.map Frame.kind).bind FrameKind.script?).isNone

/-- The pool of hoisted declarations once a text is read, which may be that of a hoisted script. -/
def textPool (content : String) : HoistPool :=
  if session.frames.head?.map Frame.kind = some (.literal true) ∧ ¬Text.allBlank content then
    session.pool.addLiteral (Text.trimmed content)
  else session.pool

theorem addText_eq (content : String) (span : Span) :
    session.addText content span =
      { session with
        listing := (session.textPhrases content).foldl Phrase.write session.listing
        pool := session.textPool content
        diagnostics := session.diagnostics ++
          if session.rendersText content then textReports content span else [] } := by
  unfold addText textPhrases textPool rendersText
  by_cases hblank : Text.allBlank content = true
  · simp [hblank]
  · generalize session.frames.head?.map Frame.kind = inner
    rcases inner with _ | _ | (_ | _) | _ | _ | _ | _ | _ <;>
      simp [hblank, emit, reportIssues, textReports, Phrase.write, FrameKind.script?]

theorem unwind_eq (problem : String → Problem) (place : Frame → Span) (frames : List Frame) :
    session.unwind problem place frames =
      { session with
        listing := (frames.flatMap Frame.closing).foldl Phrase.write session.listing
        diagnostics := session.diagnostics ++ unclosedReports problem place frames } := by
  induction frames generalizing session with
  | nil => simp [unwind, unclosedReports]
  | cons frame frames ih =>
    rw [unwind, List.foldl_cons, ← unwind, ih, List.flatMap_cons, List.foldl_append,
      ← frame.close_eq]
    by_cases hbranch : frame.kind = .branch <;>
      simp [report, emit, unclosedReports, Frame.isBranch, hbranch]

/-- The reports about an end tag: it may be stray, and it may close other tags as well. -/
def endReports (name : String) (span : Span) : List Diagnostic :=
  if session.closedBy name = [] then [⟨.notOpened name, span⟩]
  else unclosedReports Problem.closedImplicitly Frame.span (session.closedBy name).dropLast

/-- An end tag closes the innermost tags. -/
theorem closedBy_append_drop (name : String) :
    session.closedBy name ++ session.frames.drop (session.closedBy name).length =
      session.frames := by
  have hclosed : session.closedBy name <+: session.frames := by
    unfold closedBy
    split
    · exact List.nil_prefix
    · rename_i frame outer hbehind
      refine ⟨outer, ?_⟩
      rw [List.append_assoc, List.singleton_append, ← hbehind, List.takeWhile_append_dropWhile]
  obtain ⟨outer, houter⟩ := hclosed
  rw [← houter, List.drop_left]

theorem closeTag_eq (name : String) (span : Span) :
    session.closeTag name span =
      { session with
        listing := ((session.closedBy name).flatMap Frame.closing).foldl Phrase.write
          session.listing
        frames := session.frames.drop (session.closedBy name).length
        diagnostics := session.diagnostics ++ session.endReports name span } := by
  have hsplit := session.closedBy_append_drop name
  generalize session.frames.drop (session.closedBy name).length = outer at hsplit ⊢
  unfold closeTag endReports
  unfold closedBy at hsplit ⊢
  cases hbehind : session.frames.dropWhile (·.name != name) with
  | nil =>
    rw [hbehind] at hsplit
    obtain rfl := hsplit
    rfl
  | cons frame behind =>
    have hwhole := List.takeWhile_append_dropWhile (p := (·.name != name)) (l := session.frames)
    rw [hbehind, List.append_cons] at hwhole
    rw [hbehind] at hsplit
    obtain rfl := List.append_cancel_left (hsplit.trans hwhole.symm)
    dsimp only
    rw [unwind_eq, List.flatMap_append, List.flatMap_singleton, List.foldl_append,
      ← frame.close_eq, if_neg (by simp), List.dropLast_concat]
    rfl

theorem closedBy_append_frames (name : String) (span : Span) :
    session.closedBy name ++ (session.closeTag name span).frames = session.frames := by
  rw [closeTag_eq]
  exact session.closedBy_append_drop name

theorem finish_eq (size : Nat) :
    session.finish size =
      { session with
        listing := (session.frames.flatMap Frame.closing).foldl Phrase.write session.listing
        frames := []
        diagnostics := session.diagnostics ++ unclosedReports Problem.neverClosed
          (fun frame => Span.ofBounds frame.span.start size) session.frames } := by
  rw [finish, unwind_eq]

end TextAndEnd

section Frames

/-- Around an element nothing changes but the count of a loop's children. -/
theorem map_counted (setting : Setting) (rendering : Rendering) {α : Type} {f : Frame → α}
    (hf : ∀ count frame, f { frame with kind := frame.kind.withChildren count } = f frame) :
    (rendering.counted setting).map f = rendering.session.frames.map f := by
  unfold Rendering.counted
  split
  · exact map_changeReached (hf _) _
  · rfl

/-- Around any other tag nothing changes but the memory of an else. -/
theorem map_directiveOuter (session : Session) (name : String) (attributes : Attributes)
    {α : Type} {f : Frame → α}
    (hf : ∀ elseSeen frame, f { frame with kind := frame.kind.withElseSeen elseSeen } = f frame) :
    (session.directiveOuter name attributes).map f = session.frames.map f := by
  unfold directiveOuter
  split
  · exact map_changeReached (hf _) _
  · rfl

theorem exists_setElseSeen_eq (frames : List Frame) :
    ∃ elseSeen, setElseSeen elseSeen frames = frames := by
  refine ⟨(openChain frames).getD false, setElseSeen_self ?_⟩
  intro seen hseen
  rw [hseen]
  rfl

/-- A tag that is no element runs the loop of its iteration, if it is an each tag. Around the tag
    only the memory of an else may change. -/
theorem exists_frames_directive (setting : Setting) {session : Session} {name : String}
    {attributes : Attributes} {span : Span}
    (hnone : session.rendering? (.opened name attributes span) = none) :
    let number := (eachClause? name attributes).map fun _ => session.loops + 1
    ∃ kind elseSeen, (openTag setting session name attributes span).frames =
        ⟨name, kind, span⟩ :: setElseSeen elseSeen session.frames ∧
      kind.loop? = number ∧ kind.bodyLoop? = number.map (⟨·, 0⟩) := by
  intro number
  have hloops : (session.directiveKind name attributes).loop? = number ∧
      (session.directiveKind name attributes).bodyLoop? = number.map (⟨·, 0⟩) := by
    simp only [directiveKind, eachClause?, number]
    cases TagKind.of name attributes with
    | eachTag =>
      cases EachClause.parse? ((attributes.get? "expression").getD "") <;> exact ⟨rfl, rfl⟩
    | elseIfTag | elseTag =>
      dsimp only
      split <;> exact ⟨rfl, rfl⟩
    | ifTag | skipTag | script | metadata | element => exact ⟨rfl, rfl⟩
  have houter : ∃ elseSeen, session.directiveOuter name attributes =
      setElseSeen elseSeen session.frames := by
    unfold directiveOuter
    split
    · exact ⟨_, rfl⟩
    · obtain ⟨same, hsame⟩ := exists_setElseSeen_eq session.frames
      exact ⟨same, hsame.symm⟩
  obtain ⟨elseSeen, houter⟩ := houter
  refine ⟨session.directiveKind name attributes, elseSeen, ?_, hloops⟩
  rw [openTag_directive_eq setting hnone, houter]

end Frames

section Listing

variable (setting : Setting) (session : Session)

theorem listing_feed (event : Event) :
    (session.feed setting event).listing =
      (session.phrases setting event).foldl Phrase.write session.listing := by
  cases event with
  | opened name attributes span =>
    cases hrendering : session.rendering? (.opened name attributes span) with
    | none =>
      rw [phrases_of_directive setting hrendering, feed, openTag_directive_eq setting hrendering]
    | some rendering =>
      rw [phrases_of_rendering setting hrendering, feed, openTag_rendering_eq setting hrendering]
  | text content span => rw [feed, addText_eq]; rfl
  | closed name span => rw [feed, closeTag_eq]; rfl

theorem listing_feedAll (events : List Event) :
    (session.feedAll setting events).listing =
      (session.script setting events).foldl Phrase.write session.listing := by
  induction events generalizing session with
  | nil => rfl
  | cons event events ih => rw [feedAll_cons, ih, listing_feed, script, List.foldl_append]

/-- The listing of a compile is its whole script. -/
theorem listing_finish (events : List Event) (size : Nat) :
    ((start.feedAll setting events).finish size).listing =
      (wholeScript setting events).foldl Phrase.write Listing.empty := by
  rw [finish_eq, wholeScript, List.foldl_append, listing_feedAll]
  rfl

end Listing

end Session

end TemplateCompiler.Template
