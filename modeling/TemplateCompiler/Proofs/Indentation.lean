import TemplateCompiler.Proofs.OpenTags
import TemplateCompiler.Template.Session

namespace TemplateCompiler.Script

namespace Listing

/-- Every step out is taken inside a block, so that none is cut off at the outermost level. -/
def NeverSaturates (listing : Listing) : Prop :=
  ∀ before after, listing.steps = before ++ .dedent :: after → 0 < (Listing.mk before).level

theorem NeverSaturates.proceed {listing : Listing} {step : Step}
    (hlisting : listing.NeverSaturates) (hstep : step = .dedent → 0 < listing.level) :
    (listing.proceed step).NeverSaturates := by
  intro before after hsteps
  change listing.steps ++ [step] = before ++ .dedent :: after at hsteps
  obtain rfl | ⟨init, last, rfl⟩ := List.eq_nil_or_concat after
  · obtain ⟨hbefore, hlast⟩ := List.append_inj' hsteps rfl
    cases hlast
    subst hbefore
    exact hstep rfl
  · rw [List.concat_eq_append, ← List.cons_append, ← List.append_assoc] at hsteps
    exact hlisting before init (List.append_inj' hsteps rfl).1

/-- A listing has come to a level by steps out that were all taken inside a block. -/
structure At (listing : Listing) (level : Nat) : Prop where
  neverSaturates : listing.NeverSaturates
  level_eq : listing.level = level

theorem at_empty : empty.At 0 := by
  refine ⟨?_, rfl⟩
  intro before after hsteps
  simp [empty] at hsteps

namespace At

variable {listing : Listing} {level : Nat}

theorem indent (h : listing.At level) : listing.indent.At (level + 1) := by
  refine ⟨h.neverSaturates.proceed (by simp), ?_⟩
  rw [level_indent, h.level_eq]

theorem dedent (h : listing.At (level + 1)) : listing.dedent.At level := by
  have hpos : 0 < listing.level := by
    rw [h.level_eq]
    omega
  refine ⟨h.neverSaturates.proceed fun _ => hpos, ?_⟩
  rw [level_dedent, h.level_eq, Nat.add_sub_cancel]

theorem write (h : listing.At level) (text : String) : (listing.write text).At level := by
  refine ⟨h.neverSaturates.proceed (by simp), ?_⟩
  rw [level_write, h.level_eq]

theorem writeAll (h : listing.At level) (texts : List String) :
    (texts.foldl Listing.write listing).At level := by
  induction texts generalizing listing with
  | nil => exact h
  | cons text texts ih => exact ih (h.write text)

theorem openBlock (h : listing.At level) (header : String) :
    (listing.openBlock header).At (level + 1) :=
  (h.write header).indent

theorem closeBlock (h : listing.At (level + 1)) (closer : String) :
    (listing.closeBlock closer).At level :=
  h.dedent.write closer

theorem closeBlock_if {blocked : Bool} (h : listing.At (level + if blocked then 1 else 0))
    (closer : String) : (if blocked then listing.closeBlock closer else listing).At level := by
  cases blocked with
  | false => exact h
  | true => exact h.closeBlock closer

theorem continueBlock (h : listing.At (level + 1)) (header : String) :
    (listing.continueBlock header).At (level + 1) :=
  h.dedent.openBlock header

end At

end Listing

end TemplateCompiler.Script

namespace TemplateCompiler.Template

open Markup (Attributes Event Span)
open Script (Listing)

/-- How many levels further out an open tag leaves the listing when it closes. -/
def FrameKind.debt : FrameKind → Nat
  | .template | .literal _ | .branch | .each none => 0
  | .conditional _ | .skip => 1
  | .each (some _) => 2
  | .element guarded loop skipped =>
    1 + (if skipped then 1 else 0) + (if loop.isSome then 2 else 0) + (if guarded then 1 else 0)

/-- What all open tags owe together. -/
def debt (frames : List Frame) : Nat :=
  (frames.map (·.kind.debt)).foldr (· + ·) 0

@[simp]
theorem debt_nil : debt [] = 0 := rfl

@[simp]
theorem debt_cons (frame : Frame) (frames : List Frame) :
    debt (frame :: frames) = frame.kind.debt + debt frames := rfl

theorem debt_append (inner outer : List Frame) :
    debt (inner ++ outer) = debt inner + debt outer := by
  induction inner with
  | nil => simp
  | cons frame inner ih => rw [List.cons_append, debt_cons, ih, debt_cons, Nat.add_assoc]

@[simp]
theorem debt_setChildren (count : Nat) (frames : List Frame) :
    debt (setChildren count frames) = debt frames := by
  have hkind (frame : Frame) : (frame.kind.withChildren count).debt = frame.kind.debt := by
    rcases frame.kind with _ | _ | _ | _ | _ | (_ | _) | _ <;> rfl
  rw [debt, setChildren, map_changeReached hkind]
  rfl

@[simp]
theorem debt_setElseSeen (elseSeen : Bool) (frames : List Frame) :
    debt (setElseSeen elseSeen frames) = debt frames := by
  have hkind (frame : Frame) : (frame.kind.withElseSeen elseSeen).debt = frame.kind.debt := by
    cases frame.kind <;> rfl
  rw [debt, setElseSeen, map_changeReached hkind]
  rfl

/-- Where a branch finds a conditional, that one still owes a step out. -/
theorem debt_pos_of_openChain {frames : List Frame} {elseSeen : Bool}
    (hchain : openChain frames = some elseSeen) : 0 < debt frames := by
  induction frames with
  | nil => cases hchain
  | cons frame frames ih =>
    obtain ⟨name, kind, span⟩ := frame
    cases kind with
    | branch => simpa [FrameKind.debt] using ih hchain
    | conditional _ =>
      simp only [debt_cons, FrameKind.debt]
      omega
    | _ => cases hchain

theorem openSkipBlock_at {listing : Listing} {level : Nat} (h : listing.At level)
    (condition : String) : (openSkipBlock condition listing).At (level + 1) :=
  ((h.openBlock _).write _).continueBlock _

theorem openLoopBlocks_at {listing : Listing} {level : Nat} (h : listing.At level) (number : Nat)
    (outer : Option Nat) (id : String) (clause : EachClause) :
    (openLoopBlocks number outer id clause listing).At (level + 2) :=
  ((((h.write _).openBlock _).openBlock _).writeAll _).write _

theorem closeLoop_at {listing : Listing} {level : Nat} (h : listing.At (level + 2)) :
    (closeLoop listing).At level :=
  (h.closeBlock _).closeBlock _

/-- An element steps out of its skippable content, of itself, of its loop and of its guard. -/
theorem Frame.closeElement_at {listing : Listing} {level : Nat} (name : String) (guarded : Bool)
    (loop : Option Nat) (skipped : Bool)
    (h : listing.At (level + (if guarded then 1 else 0) + (if loop.isSome then 2 else 0) + 1 +
      (if skipped then 1 else 0))) :
    (Frame.closeElement name guarded loop skipped listing).At level := by
  have hclosed := (h.closeBlock_if blockEnd).closeBlock (Script.Call.elementClose name)
  unfold Frame.closeElement
  apply Listing.At.closeBlock_if
  cases loop with
  | none => exact hclosed
  | some number => exact closeLoop_at hclosed

/-- Closing a tag takes the steps out that it owes. -/
theorem Frame.close_at {listing : Listing} {level : Nat} (frame : Frame)
    (h : listing.At (frame.kind.debt + level)) : (frame.close listing).At level := by
  obtain ⟨name, kind, span⟩ := frame
  rcases kind with _ | _ | _ | _ | _ | (_ | loop) | ⟨guarded, loop, skipped⟩
  case template | literal | branch | each.none => simpa [Frame.close, FrameKind.debt] using h
  case conditional | skip =>
    rw [FrameKind.debt, Nat.add_comm] at h
    exact h.closeBlock _
  case each.some =>
    rw [FrameKind.debt, Nat.add_comm] at h
    exact closeLoop_at h
  case element =>
    apply Frame.closeElement_at
    have hdebt : FrameKind.debt (.element guarded loop skipped) + level =
        level + (if guarded then 1 else 0) + (if loop.isSome then 2 else 0) + 1 +
          (if skipped then 1 else 0) := by
      simp only [FrameKind.debt]
      omega
    rw [← hdebt]
    exact h

namespace Session

/-- The listing is `ahead` levels further in than the open tags account for. -/
def Ahead (session : Session) (ahead : Nat) : Prop :=
  session.listing.At (debt session.frames + ahead)

/-- The level is what the open tags owe, and no step out was cut off on the way. -/
def Settled (session : Session) : Prop :=
  session.Ahead 0

variable {session : Session} {ahead : Nat}

theorem Ahead.push {name : String} {kind : FrameKind} {span : Span}
    (h : session.Ahead kind.debt) : (session.push name kind span).Settled := by
  unfold Settled Ahead at *
  simpa [Session.push, Nat.add_comm] using h

theorem Ahead.openBlock (h : session.Ahead ahead) (header : String) :
    (session.emit (·.openBlock header)).Ahead (ahead + 1) :=
  Listing.At.openBlock h header

theorem Ahead.openGuard (h : session.Ahead ahead) (condition : Option String) (span : Span) :
    (session.openGuard condition span).Ahead (ahead + if condition.isSome then 1 else 0) := by
  cases condition with
  | none => exact h
  | some value => exact h.openBlock _

theorem Ahead.openOwnSkip (h : session.Ahead ahead) (skip : Option String) (span : Span) :
    (session.openOwnSkip skip span).Ahead (ahead + if skip.isSome then 1 else 0) := by
  cases skip with
  | none => exact h
  | some value => exact openSkipBlock_at h _

theorem Ahead.openLoop (h : session.Ahead ahead) (setting : Setting) (expression : String)
    (span : Span) :
    (Session.openLoop setting session expression span).1.Ahead
      (ahead + if (Session.openLoop setting session expression span).2.isSome then 2 else 0) := by
  unfold Session.openLoop
  cases EachClause.parse? expression with
  | none => exact h
  | some clause => exact openLoopBlocks_at h _ _ _ _

theorem Ahead.openOwnLoop (h : session.Ahead ahead) (setting : Setting)
    (iteration : Option String) (span : Span) :
    (Session.openOwnLoop setting session iteration span).1.Ahead
      (ahead + if (Session.openOwnLoop setting session iteration span).2.isSome then 2 else 0) := by
  cases iteration with
  | none => exact h
  | some expression => exact h.openLoop setting expression span

theorem Ahead.takeElementKey (h : session.Ahead ahead) (explicit : ExplicitKey)
    (ownLoop : Option Nat) : (session.takeElementKey explicit ownLoop).1.Ahead ahead := by
  have hkept : ∀ children, ({ session with frames := setChildren children session.frames } :
      Session).Ahead ahead := by
    intro children
    simpa [Ahead] using h
  unfold Session.takeElementKey
  split
  · exact h
  · exact h
  · rw [takeChildKey_eq]
    cases eachBody session.frames with
    | none => exact h
    | some loop => exact hkept (loop.children + 1)

theorem Ahead.hoistStatics (h : session.Ahead ahead) (setting : Setting)
    (statics : List Markup.Attribute) (key : Option String) :
    (Session.hoistStatics setting session statics key).1.Ahead ahead := by
  unfold Session.hoistStatics
  split
  · exact h
  · cases key with
    | none => exact h
    | some key => exact h

theorem Ahead.openRendered (h : session.Ahead ahead) (setting : Setting) (name : String)
    (explicit : ExplicitKey) (ownLoop : Option Nat) (classified : Classified) :
    (Session.openRendered setting session name explicit ownLoop classified).Ahead (ahead + 1) :=
  ((h.takeElementKey explicit ownLoop).hoistStatics setting classified.statics _).openBlock _

theorem Settled.openElement (h : session.Settled) (setting : Setting) (name : String)
    (attributes : Attributes) (span : Span) :
    (Session.openElement setting session name attributes span).Settled := by
  simp only [Session.openElement]
  generalize ExplicitKey.ofAttribute (attributes.get? "key") = explicit
  generalize Classified.ofAttributes _ _ = classified
  have hchecked : (session.checkAttributes classified span).Ahead 0 := h
  have hlooped := (hchecked.openGuard classified.condition span).openOwnLoop setting
    classified.iteration span
  generalize Session.openOwnLoop setting _ classified.iteration span = opened at hlooped ⊢
  obtain ⟨looped, ownLoop⟩ := opened
  have hskipped := (hlooped.openRendered setting name explicit ownLoop classified).openOwnSkip
    classified.skip span
  apply Ahead.push
  have hdebt : FrameKind.debt
        (.element classified.condition.isSome ownLoop classified.skip.isSome) =
      0 + (if classified.condition.isSome then 1 else 0) + (if ownLoop.isSome then 2 else 0) + 1 +
        (if classified.skip.isSome then 1 else 0) := by
    simp only [FrameKind.debt]
    omega
  rw [hdebt]
  exact hskipped

theorem Settled.report (h : session.Settled) (problems : List Problem) (span : Span) :
    (session.report problems span).Settled := h

theorem Settled.checkCondition (h : session.Settled) (directive : String) (value : Option String)
    (span : Span) : (session.checkCondition directive value span).Settled := h

theorem Settled.openConditional (h : session.Settled) (name condition : String) (span : Span) :
    (session.openConditional name condition span).Settled :=
  (Ahead.openBlock h _).push

/-- A branch steps out of the block before it, which the conditional that it continues pays for. -/
theorem Settled.continueBlock (h : session.Settled) {isElse elseSeen : Bool}
    (hchain : openChain session.frames = some elseSeen) (header : String) :
    ({ session with frames := setElseSeen isElse session.frames }.emit
      (·.continueBlock header)).Ahead 0 := by
  obtain ⟨owed, howed⟩ := Nat.exists_eq_add_one.mpr (debt_pos_of_openChain hchain)
  have hlisting : session.listing.At (owed + 1) := by
    rw [← howed]
    exact h
  change (session.listing.continueBlock header).At (debt (setElseSeen isElse session.frames))
  rw [debt_setElseSeen, howed]
  exact hlisting.continueBlock header

theorem Settled.openBranch (h : session.Settled) (isElse : Bool) (name condition : String)
    (span : Span) : (session.openBranch isElse name condition span).Settled := by
  unfold Session.openBranch
  rw [continueChain_eq]
  cases hchain : openChain session.frames with
  | none => exact (h.report _ span).openConditional name condition span
  | some elseSeen =>
    cases elseSeen with
    | true => exact (h.report _ span).openConditional name condition span
    | false => exact (h.continueBlock hchain _).push

theorem Settled.openTag (h : session.Settled) (setting : Setting) (name : String)
    (attributes : Attributes) (span : Span) :
    (Session.openTag setting session name attributes span).Settled := by
  simp only [Session.openTag]
  have hchecked := h.checkCondition name (tagCondition attributes) span
  cases TagKind.of name attributes with
  | ifTag => exact hchecked.openConditional name _ span
  | elseIfTag => exact hchecked.openBranch false name _ span
  | elseTag => exact hchecked.openBranch true name _ span
  | eachTag =>
    have hlooped := Ahead.openLoop h setting ((attributes.get? "expression").getD "") span
    generalize Session.openLoop setting session _ span = opened at hlooped ⊢
    obtain ⟨looped, number⟩ := opened
    cases number with
    | none => exact hlooped.push
    | some number => exact hlooped.push
  | skipTag => exact Ahead.push (openSkipBlock_at hchecked _)
  | script => exact Ahead.push h
  | metadata =>
    dsimp only
    split
    · exact Ahead.push h
    · exact (h.report _ span).openElement setting name attributes span
  | element => exact h.openElement setting name attributes span

theorem Settled.addText (h : session.Settled) (content : String) (span : Span) :
    (session.addText content span).Settled := by
  unfold Session.addText
  split
  · exact h
  · split
    · exact h
    · exact Listing.At.write h _
    · exact Listing.At.write h _

/-- Unwinding open tags takes the steps out that they owe together. -/
theorem unwind_at (problem : String → Problem) (place : Frame → Span) (frames : List Frame)
    {session : Session} {level : Nat} (h : session.listing.At (debt frames + level)) :
    (session.unwind problem place frames).listing.At level := by
  induction frames generalizing session with
  | nil => simpa [Session.unwind] using h
  | cons frame frames ih =>
    rw [debt_cons, Nat.add_assoc] at h
    have hclosed := frame.close_at h
    change (((session.report _ (place frame)).emit frame.close).unwind problem place
      frames).listing.At level
    exact ih hclosed

theorem Settled.closeTag (h : session.Settled) (name : String) (span : Span) :
    (session.closeTag name span).Settled := by
  unfold Session.closeTag
  have hsplit := List.takeWhile_append_dropWhile (p := (·.name != name)) (l := session.frames)
  cases hbehind : session.frames.dropWhile (·.name != name) with
  | nil => exact h
  | cons frame outer =>
    rw [hbehind] at hsplit
    have hlisting : session.listing.At (debt (session.frames.takeWhile (·.name != name)) +
        (frame.kind.debt + debt outer)) := by
      rw [← debt_cons, ← debt_append, hsplit]
      exact h
    exact frame.close_at (unwind_at Problem.closedImplicitly Frame.span _ hlisting)

theorem Settled.feed (h : session.Settled) (setting : Setting) (event : Event) :
    (Session.feed setting session event).Settled := by
  cases event with
  | opened name attributes span => exact h.openTag setting name attributes span
  | text content span => exact h.addText content span
  | closed name span => exact h.closeTag name span

theorem Settled.feedAll (h : session.Settled) (setting : Setting) (events : List Event) :
    (Session.feedAll setting session events).Settled := by
  induction events generalizing session with
  | nil => exact h
  | cons event events ih => exact ih (h.feed setting event)

theorem settled_start : Session.start.Settled := Listing.at_empty

/-- Between any two events, whether the tags are balanced or not, the level of the listing is what
the open tags owe, every step out was taken inside a block, and closing what is still open at the
end of the source leads back to the outermost level by such steps. -/
theorem level_eq_debt (setting : Setting) (events : List Event) (size : Nat) :
    let session := Session.start.feedAll setting events
    session.listing.level = debt session.frames ∧
      session.listing.NeverSaturates ∧
      (session.finish size).listing.NeverSaturates ∧
      (session.finish size).listing.level = 0 := by
  intro session
  have hsettled : session.Settled := settled_start.feedAll setting events
  have hfinished : (session.finish size).listing.At 0 :=
    unwind_at Problem.neverClosed _ session.frames hsettled
  exact ⟨hsettled.level_eq, hsettled.neverSaturates, hfinished.neverSaturates, hfinished.level_eq⟩

end Session

end TemplateCompiler.Template
