import TemplateCompiler.Compile
import TemplateCompiler.Proofs.Markup.Printing
import TemplateCompiler.Proofs.OpenTags

namespace TemplateCompiler.Template

open Markup (Attributes Event Span)
open Script (Listing)

section OpenTags

/-- An open tag without the place it comes from. -/
def Frame.unplaced (frame : Frame) : Frame :=
  { frame with span := Span.point 0 }

theorem reach_unplaced (through : FrameKind → Bool) (frames : List Frame) :
    reach through (frames.map Frame.unplaced) = reach through frames := by
  induction frames with
  | nil => rfl
  | cons frame frames ih =>
    rw [List.map_cons, reach, reach, ih]
    rfl

theorem changeReached_unplaced (through : FrameKind → Bool) (change : FrameKind → FrameKind)
    (frames : List Frame) :
    changeReached through change (frames.map Frame.unplaced) =
      (changeReached through change frames).map Frame.unplaced := by
  induction frames with
  | nil => rfl
  | cons frame frames ih =>
    have hkind : frame.unplaced.kind = frame.kind := rfl
    rw [List.map_cons, changeReached, changeReached, ih, hkind]
    split <;> rfl

variable {frames frames' : List Frame} (h : frames.map Frame.unplaced = frames'.map Frame.unplaced)

include h

theorem reach_congr (through : FrameKind → Bool) : reach through frames = reach through frames' := by
  rw [← reach_unplaced, h, reach_unplaced]

theorem changeReached_congr (through : FrameKind → Bool) (change : FrameKind → FrameKind) :
    (changeReached through change frames).map Frame.unplaced =
      (changeReached through change frames').map Frame.unplaced := by
  rw [← changeReached_unplaced, h, changeReached_unplaced]

theorem eachBody_congr : eachBody frames = eachBody frames' := by
  rw [eachBody, eachBody, reach_congr h]

theorem openChain_congr : openChain frames = openChain frames' := by
  rw [openChain, openChain, reach_congr h]

theorem enclosingLoop_congr : enclosingLoop frames = enclosingLoop frames' := by
  have hloops (frames : List Frame) :
      enclosingLoop frames = (frames.map Frame.unplaced).findSome? Frame.loop? := by
    rw [List.findSome?_map]
    rfl
  rw [hloops, hloops, h]

theorem kind_head?_congr : frames.head?.map Frame.kind = frames'.head?.map Frame.kind := by
  have hkinds (frames : List Frame) :
      frames.head?.map Frame.kind = (frames.map Frame.unplaced).head?.map Frame.kind := by
    rw [List.head?_map, Option.map_map]
    rfl
  rw [hkinds frames, hkinds frames', h]

theorem eq_nil_congr : frames = [] ↔ frames' = [] := by
  rw [← @List.map_eq_nil_iff _ _ Frame.unplaced, h, List.map_eq_nil_iff]

theorem takeWhile_name_congr (name : String) :
    (frames.takeWhile (·.name != name)).map Frame.unplaced =
      (frames'.takeWhile (·.name != name)).map Frame.unplaced := by
  have htake (frames : List Frame) : (frames.takeWhile (·.name != name)).map Frame.unplaced =
      (frames.map Frame.unplaced).takeWhile (·.name != name) := by
    rw [List.takeWhile_map]
    rfl
  rw [htake, htake, h]

theorem dropWhile_name_congr (name : String) :
    (frames.dropWhile (·.name != name)).map Frame.unplaced =
      (frames'.dropWhile (·.name != name)).map Frame.unplaced := by
  have hdrop (frames : List Frame) : (frames.dropWhile (·.name != name)).map Frame.unplaced =
      (frames.map Frame.unplaced).dropWhile (·.name != name) := by
    rw [List.dropWhile_map]
    rfl
  rw [hdrop, hdrop, h]

end OpenTags

/-- Two sessions that differ at most in spans. -/
structure Alike (session other : Session) : Prop where
  listing_eq : session.listing = other.listing
  pool_eq : session.pool = other.pool
  frames_eq : session.frames.map Frame.unplaced = other.frames.map Frame.unplaced
  loops_eq : session.loops = other.loops
  drawn_eq : session.drawn = other.drawn
  metadata_eq : session.metadata = other.metadata
  problems_eq : session.diagnostics.map Diagnostic.problem =
    other.diagnostics.map Diagnostic.problem

namespace Alike

variable {session other : Session}

theorem refl (session : Session) : Alike session session :=
  ⟨rfl, rfl, rfl, rfl, rfl, rfl, rfl⟩

theorem found (h : Alike session other) {diagnostics diagnostics' : List Diagnostic}
    (hsame : diagnostics.map Diagnostic.problem = diagnostics'.map Diagnostic.problem) :
    Alike { session with diagnostics := session.diagnostics ++ diagnostics }
      { other with diagnostics := other.diagnostics ++ diagnostics' } :=
  { h with
    problems_eq := by rw [List.map_append, List.map_append, h.problems_eq, hsame] }

theorem withFrames (h : Alike session other) {frames frames' : List Frame}
    (hsame : frames.map Frame.unplaced = frames'.map Frame.unplaced) :
    Alike { session with frames } { other with frames := frames' } :=
  { h with frames_eq := hsame }

theorem emit (h : Alike session other) (write : Listing → Listing) :
    Alike (session.emit write) (other.emit write) :=
  { h with listing_eq := congrArg write h.listing_eq }

theorem push (h : Alike session other) (name : String) (kind : FrameKind) (span span' : Span) :
    Alike (session.push name kind span) (other.push name kind span') :=
  h.withFrames (congrArg (List.cons (Frame.mk name kind (Span.point 0))) h.frames_eq)

theorem report (h : Alike session other) (problems : List Problem) (span span' : Span) :
    Alike (session.report problems span) (other.report problems span') := by
  apply h.found
  rw [List.map_map, List.map_map]
  rfl

theorem checkCondition (h : Alike session other) (directive : String) (value : Option String)
    (span span' : Span) :
    Alike (session.checkCondition directive value span)
      (other.checkCondition directive value span') :=
  h.report _ span span'

theorem openConditional (h : Alike session other) (name condition : String) (span span' : Span) :
    Alike (session.openConditional name condition span)
      (other.openConditional name condition span') :=
  (h.emit _).push name _ span span'

theorem openBranch (h : Alike session other) (isElse : Bool) (name condition : String)
    (span span' : Span) :
    Alike (session.openBranch isElse name condition span)
      (other.openBranch isElse name condition span') := by
  unfold Session.openBranch
  rw [continueChain_eq, continueChain_eq, openChain_congr h.frames_eq]
  match openChain other.frames with
  | none => exact (h.report _ span span').openConditional name condition span span'
  | some true => exact (h.report _ span span').openConditional name condition span span'
  | some false =>
    exact ((h.withFrames (changeReached_congr h.frames_eq _ _)).emit _).push name _ span span'

theorem openLoop (setting : Setting) (h : Alike session other) (expression : String)
    (span span' : Span) :
    Alike (Session.openLoop setting session expression span).1
        (Session.openLoop setting other expression span').1 ∧
      (Session.openLoop setting session expression span).2 =
        (Session.openLoop setting other expression span').2 := by
  unfold Session.openLoop
  cases EachClause.parse? expression with
  | none => exact ⟨h.report _ span span', rfl⟩
  | some clause =>
    dsimp only
    rw [h.loops_eq, h.drawn_eq, enclosingLoop_congr h.frames_eq]
    have hemitted := h.emit (openLoopBlocks (other.loops + 1) (enclosingLoop other.frames)
      (setting.ids other.drawn) clause)
    exact ⟨{ hemitted with loops_eq := rfl, drawn_eq := rfl }, rfl⟩

theorem openOwnLoop (setting : Setting) (h : Alike session other) (iteration : Option String)
    (span span' : Span) :
    Alike (Session.openOwnLoop setting session iteration span).1
        (Session.openOwnLoop setting other iteration span').1 ∧
      (Session.openOwnLoop setting session iteration span).2 =
        (Session.openOwnLoop setting other iteration span').2 := by
  cases iteration with
  | none => exact ⟨h, rfl⟩
  | some expression => exact h.openLoop setting expression span span'

theorem takeElementKey (h : Alike session other) (explicit : ExplicitKey) (ownLoop : Option Nat) :
    Alike (session.takeElementKey explicit ownLoop).1 (other.takeElementKey explicit ownLoop).1 ∧
      (session.takeElementKey explicit ownLoop).2 = (other.takeElementKey explicit ownLoop).2 := by
  have hchild : Alike (session.takeElementKey .absent none).1
        (other.takeElementKey .absent none).1 ∧
      (session.takeElementKey .absent none).2 = (other.takeElementKey .absent none).2 := by
    unfold Session.takeElementKey
    rw [takeChildKey_eq, takeChildKey_eq, eachBody_congr h.frames_eq]
    cases eachBody other.frames with
    | none => exact ⟨h, rfl⟩
    | some loop => exact ⟨h.withFrames (changeReached_congr h.frames_eq _ _), rfl⟩
  cases explicit with
  | literal key => exact ⟨h, rfl⟩
  | absent | empty =>
    cases ownLoop with
    | none => exact hchild
    | some number => exact ⟨h, rfl⟩

theorem hoistStatics (setting : Setting) (h : Alike session other)
    (statics : List Markup.Attribute) (key : Option String) :
    Alike (Session.hoistStatics setting session statics key).1
        (Session.hoistStatics setting other statics key).1 ∧
      (Session.hoistStatics setting session statics key).2 =
        (Session.hoistStatics setting other statics key).2 := by
  unfold Session.hoistStatics
  split
  · exact ⟨h, rfl⟩
  · cases key with
    | none =>
      dsimp only
      rw [h.drawn_eq, h.pool_eq]
      exact ⟨{ h with pool_eq := rfl, drawn_eq := rfl }, rfl⟩
    | some key =>
      dsimp only
      rw [h.pool_eq]
      exact ⟨{ h with pool_eq := rfl }, rfl⟩

theorem openRendered (setting : Setting) (h : Alike session other) (name : String)
    (explicit : ExplicitKey) (ownLoop : Option Nat) (classified : Classified) :
    Alike (Session.openRendered setting session name explicit ownLoop classified)
      (Session.openRendered setting other name explicit ownLoop classified) := by
  obtain ⟨hkeyed, hkey⟩ := h.takeElementKey explicit ownLoop
  simp only [Session.openRendered]
  generalize session.takeElementKey explicit ownLoop = taken at hkeyed hkey ⊢
  generalize other.takeElementKey explicit ownLoop = taken' at hkeyed hkey ⊢
  obtain ⟨keyed, key⟩ := taken
  obtain ⟨keyed', key'⟩ := taken'
  obtain rfl : key = key' := hkey
  obtain ⟨hhoisted, hreference⟩ := hkeyed.hoistStatics setting classified.statics key
  generalize Session.hoistStatics setting keyed classified.statics key = opened
    at hhoisted hreference ⊢
  generalize Session.hoistStatics setting keyed' classified.statics key = opened'
    at hhoisted hreference ⊢
  obtain ⟨hoisted, reference⟩ := opened
  obtain ⟨hoisted', reference'⟩ := opened'
  obtain rfl : reference = reference' := hreference
  exact hhoisted.emit _

theorem openGuard (h : Alike session other) (condition : Option String) (span span' : Span) :
    Alike (session.openGuard condition span) (other.openGuard condition span') := by
  cases condition with
  | none => exact h
  | some value =>
    exact (h.checkCondition "if" (some value) span span').emit
      (·.openBlock (ifHeader (conditionExpression (some value))))

theorem openOwnSkip (h : Alike session other) (skip : Option String) (span span' : Span) :
    Alike (session.openOwnSkip skip span) (other.openOwnSkip skip span') := by
  cases skip with
  | none => exact h
  | some value => exact (h.checkCondition "skip" (some value) span span').emit (openSkipBlock _)

theorem openElement (setting : Setting) (h : Alike session other) (name : String)
    (attributes : Attributes) (span span' : Span) :
    Alike (Session.openElement setting session name attributes span)
      (Session.openElement setting other name attributes span') := by
  simp only [Session.openElement]
  generalize ExplicitKey.ofAttribute (attributes.get? "key") = explicit
  generalize Classified.ofAttributes _ _ = classified
  have hchecked : Alike (session.checkAttributes classified span)
      (other.checkAttributes classified span') :=
    (h.report _ span span').report _ span span'
  obtain ⟨hlooped, hnumber⟩ := (hchecked.openGuard classified.condition span span').openOwnLoop
    setting classified.iteration span span'
  rw [← hnumber]
  exact ((hlooped.openRendered setting name explicit _ classified).openOwnSkip classified.skip span
    span').push name _ span span'

theorem openTag (setting : Setting) (h : Alike session other) (name : String)
    (attributes : Attributes) (span span' : Span) :
    Alike (Session.openTag setting session name attributes span)
      (Session.openTag setting other name attributes span') := by
  have hchecked := h.checkCondition name (tagCondition attributes) span span'
  simp only [Session.openTag]
  cases TagKind.of name attributes with
  | ifTag => exact hchecked.openConditional name _ span span'
  | elseIfTag => exact hchecked.openBranch false name _ span span'
  | elseTag => exact hchecked.openBranch true name _ span span'
  | eachTag =>
    obtain ⟨hlooped, hnumber⟩ := h.openLoop setting ((attributes.get? "expression").getD "") span
      span'
    rw [← hnumber]
    exact hlooped.push name _ span span'
  | skipTag => exact (hchecked.emit _).push name _ span span'
  | script => exact h.push name _ span span'
  | metadata =>
    dsimp only
    rw [h.metadata_eq]
    simp only [eq_nil_congr h.frames_eq]
    split
    · have hread : Alike (session.readMetadata attributes span)
          (other.readMetadata attributes span') :=
        { h.report _ span span' with metadata_eq := rfl }
      exact hread.push name _ span span'
    · exact (h.report _ span span').openElement setting name attributes span span'
  | element => exact h.openElement setting name attributes span span'

theorem addText (h : Alike session other) (content : String) (span span' : Span) :
    Alike (session.addText content span) (other.addText content span') := by
  unfold Session.addText
  split
  · exact h
  · rw [kind_head?_congr h.frames_eq]
    split
    · rw [h.pool_eq]
      exact { h with pool_eq := rfl }
    · exact h.emit _
    · refine Alike.emit (h.found ?_) _
      rw [List.map_map, List.map_map]
      rfl

theorem unwind (h : Alike session other) (problem : String → Problem) (place place' : Frame → Span)
    {frames frames' : List Frame} (hframes : frames.map Frame.unplaced = frames'.map Frame.unplaced) :
    Alike (session.unwind problem place frames) (other.unwind problem place' frames') := by
  induction frames generalizing session other frames' with
  | nil =>
    obtain rfl : frames' = [] := List.map_eq_nil_iff.mp hframes.symm
    exact h
  | cons frame frames ih =>
    cases frames' with
    | nil => cases hframes
    | cons frame' frames' =>
      obtain ⟨hframe, hrest⟩ := List.cons.inj hframes
      have hsame : frame'.name = frame.name ∧ frame'.isBranch = frame.isBranch ∧
          frame'.close = frame.close := by
        obtain ⟨name, kind, span⟩ := frame
        obtain ⟨name', kind', span'⟩ := frame'
        cases hframe
        exact ⟨rfl, rfl, rfl⟩
      obtain ⟨hname, hbranch, hclose⟩ := hsame
      have hstep : Alike
          ((session.report (if frame.isBranch then [] else [problem frame.name])
            (place frame)).emit frame.close)
          ((other.report (if frame'.isBranch then [] else [problem frame'.name])
            (place' frame')).emit frame'.close) := by
        rw [hname, hbranch, hclose]
        exact (h.report _ _ _).emit _
      exact ih hstep hrest

theorem closeTag (h : Alike session other) (name : String) (span span' : Span) :
    Alike (session.closeTag name span) (other.closeTag name span') := by
  have htaken := takeWhile_name_congr h.frames_eq name
  have hdropped := dropWhile_name_congr h.frames_eq name
  unfold Session.closeTag
  cases hfound : session.frames.dropWhile (·.name != name) with
  | nil =>
    rw [hfound] at hdropped
    rw [List.map_eq_nil_iff.mp hdropped.symm]
    exact h.report _ span span'
  | cons frame outer =>
    rw [hfound] at hdropped
    cases hfound' : other.frames.dropWhile (·.name != name) with
    | nil =>
      rw [hfound'] at hdropped
      cases hdropped
    | cons frame' outer' =>
      rw [hfound'] at hdropped
      obtain ⟨hframe, houter⟩ := List.cons.inj hdropped
      have hclose : frame'.close = frame.close := by
        obtain ⟨name, kind, span⟩ := frame
        obtain ⟨name', kind', span'⟩ := frame'
        cases hframe
        rfl
      dsimp only
      rw [hclose]
      exact ((h.unwind _ _ _ htaken).emit frame.close).withFrames houter

theorem feed (setting : Setting) (h : Alike session other) {event event' : Event}
    (hevent : event.unplaced = event'.unplaced) :
    Alike (session.feed setting event) (other.feed setting event') := by
  cases event <;> cases event' <;> cases hevent
  case opened name attributes span span' => exact h.openTag setting name attributes span span'
  case text content span span' => exact h.addText content span span'
  case closed name span span' => exact h.closeTag name span span'

theorem feedAll (setting : Setting) (h : Alike session other) {events events' : List Event}
    (hevents : events.map Event.unplaced = events'.map Event.unplaced) :
    Alike (session.feedAll setting events) (other.feedAll setting events') := by
  induction events generalizing session other events' with
  | nil =>
    obtain rfl : events' = [] := List.map_eq_nil_iff.mp hevents.symm
    exact h
  | cons event events ih =>
    cases events' with
    | nil => cases hevents
    | cons event' events' =>
      obtain ⟨hevent, hlater⟩ := List.cons.inj hevents
      exact ih (h.feed setting hevent) hlater

theorem finish (h : Alike session other) (size size' : Nat) :
    Alike (session.finish size) (other.finish size') :=
  (h.unwind _ _ _ h.frames_eq).withFrames rfl

theorem program_eq (h : Alike session other) (options : Options) :
    session.program options = other.program options := by
  unfold Session.program
  rw [h.listing_eq, h.pool_eq, h.metadata_eq]

end Alike

/-- Events that differ in spans only are compiled to sessions that do so too. -/
theorem alike_runSession (options : Options) (ids : IdSource) (size size' : Nat)
    {events events' : List Event}
    (hevents : events.map Event.unplaced = events'.map Event.unplaced) :
    Alike (runSession options ids size events) (runSession options ids size' events') :=
  ((Alike.refl Session.start).feedAll _ hevents).finish size size'

end TemplateCompiler.Template
