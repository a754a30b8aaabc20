import TemplateCompiler.Proofs.Forest.Meaning
import TemplateCompiler.Proofs.Indentation

namespace TemplateCompiler.Template

open Markup (Attributes Event Span)
open Script (Listing)

/-- The open tags after the loop body and the conditional around have been counted on. -/
def Tally.update (tally : Tally) (frames : List Frame) : List Frame :=
  setElseSeen tally.elseSeen (setChildren tally.children frames)

theorem Tally.update_update (tally earlier : Tally) (frames : List Frame) :
    tally.update (earlier.update frames) = tally.update frames := by
  simp only [update, setChildren_setElseSeen, setChildren_setChildren, setElseSeen_setElseSeen]

theorem Tally.update_cons (tally : Tally) (frame : Frame) (frames : List Frame) :
    tally.update (frame :: frames) =
      { frame with
        kind := (frame.kind.withChildren tally.children).withElseSeen tally.elseSeen } ::
        let counted := if frame.kind.isTransparent then setChildren tally.children frames else frames
        if frame.kind.isBranch then setElseSeen tally.elseSeen counted else counted := by
  unfold update
  rw [setChildren_cons, setElseSeen_cons, isBranch_withChildren]

namespace Session

/-- Takes the innermost tag off. -/
def pop (session : Session) : Session :=
  { session with frames := session.frames.tail }

/-- Where the next node stands. -/
def place (session : Session) : Place where
  level := session.listing.level
  outermost := session.frames.isEmpty
  script := session.frames.head?.bind fun frame => frame.kind.script?
  loop := enclosingLoop session.frames
  body := (eachBody session.frames).map Loop.number
  chained := (openChain session.frames).isSome

/-- What is handed on to the next node. -/
def tally (session : Session) : Tally where
  pool := session.pool
  loops := session.loops
  drawn := session.drawn
  metadata := session.metadata
  children := ((eachBody session.frames).map Loop.children).getD 0
  elseSeen := (openChain session.frames).getD false

theorem setChildren_tally (session : Session) :
    setChildren session.tally.children session.frames = session.frames := by
  apply setChildren_self
  intro loop hloop
  simp [tally, hloop]

theorem setElseSeen_tally (session : Session) :
    setElseSeen session.tally.elseSeen session.frames = session.frames := by
  apply setElseSeen_self
  intro seen hseen
  simp [tally, hseen]

theorem update_tally (session : Session) : session.tally.update session.frames = session.frames := by
  rw [Tally.update, setChildren_tally, setElseSeen_tally]

/-- Counting on does not move the next node. -/
theorem place_eq {before after : Session} {tally : Tally}
    (hlevel : after.listing.level = before.listing.level)
    (hframes : after.frames = tally.update before.frames) : after.place = before.place := by
  have hempty : after.frames.isEmpty = before.frames.isEmpty := by
    rw [hframes]
    cases before.frames with
    | nil => rfl
    | cons frame frames =>
      rw [Tally.update_cons]
      rfl
  have hscript : (after.frames.head?.bind fun frame => frame.kind.script?) =
      before.frames.head?.bind fun frame => frame.kind.script? := by
    rw [hframes]
    cases before.frames with
    | nil => rfl
    | cons frame frames =>
      rw [Tally.update_cons]
      exact (script?_withElseSeen _ _).trans (script?_withChildren _ _)
  unfold place
  rw [hlevel, hempty, hscript, hframes]
  simp [Tally.update, Function.comp_def]

theorem place_push (session : Session) (name : String) (kind : FrameKind) (span : Span) :
    (session.push name kind span).place = session.place.enter kind := by
  unfold place push Place.enter
  simp only [List.isEmpty_cons, List.head?_cons, Option.bind_some, eachBody_cons, openChain_cons,
    enclosingLoop_cons]
  congr 1
  · split <;> rfl
  · split <;> rfl

/-- A tag whose content has not been counted on yet hands on the counts around it, or starts
    afresh. -/
theorem tally_push (session : Session) (name : String) {kind : FrameKind} (span : Span)
    (hloop : ∀ loop, kind.bodyLoop? = some loop → loop.children = 0)
    (helse : kind.elseSeen? ≠ some true) :
    (session.push name kind span).tally = session.tally.enter kind := by
  have hchildren : (kind.bodyLoop?.map Loop.children).getD 0 = 0 := by
    cases hkind : kind.bodyLoop? with
    | none => rfl
    | some loop => exact hloop loop hkind
  have hseen : kind.elseSeen?.getD false = false := by
    cases hkind : kind.elseSeen? with
    | none => rfl
    | some seen => cases seen <;> simp_all
  unfold tally push Tally.enter
  simp only [eachBody_cons, openChain_cons]
  congr 1
  · split
    · rfl
    · exact hchildren
  · split
    · rfl
    · exact hseen

/-- What is handed on behind a tag: what its content has counted, as far as that belongs to the
    loop body and the conditional around the tag. -/
theorem tally_pop {before after : Session} {name : String} {kind : FrameKind} {span : Span}
    (hframes : after.frames = after.tally.update (before.push name kind span).frames) :
    after.pop.tally = before.tally.leave kind after.tally ∧
      after.pop.frames = after.pop.tally.update before.frames := by
  have hinside := hframes.trans (Tally.update_cons after.tally ⟨name, kind, span⟩ before.frames)
  have hpop : after.pop.frames = _ := congrArg List.tail hinside
  simp only [List.tail_cons] at hpop
  have hchildren : after.pop.tally.children =
      if kind.isTransparent then after.tally.children else before.tally.children := by
    cases htransparent : kind.isTransparent with
    | false =>
      simp only [tally, hpop, htransparent]
      cases kind.isBranch <;> simp
    | true =>
      have hbody : eachBody after.frames = eachBody after.pop.frames := by
        rw [hpop, hinside, eachBody_cons]
        simp [isTransparent_withElseSeen, isTransparent_withChildren, htransparent]
      simp only [tally, hbody]
      rfl
  have helse : after.pop.tally.elseSeen =
      if kind.isBranch then after.tally.elseSeen else before.tally.elseSeen := by
    cases hbranch : kind.isBranch with
    | false =>
      simp only [tally, hpop, hbranch]
      cases kind.isTransparent <;> simp
    | true =>
      have hchain : openChain after.frames = openChain after.pop.frames := by
        rw [hpop, hinside, openChain_cons]
        simp [isBranch_withElseSeen, isBranch_withChildren, hbranch]
      simp only [tally, hchain]
      rfl
  have htally : after.pop.tally = before.tally.leave kind after.tally := by
    unfold Tally.leave
    rw [← hchildren, ← helse]
    rfl
  refine ⟨htally, ?_⟩
  rw [Tally.update, hchildren, helse, hpop]
  cases kind.isTransparent <;> cases kind.isBranch <;>
    simp [← setChildren_setElseSeen, setChildren_tally, setElseSeen_tally]

end Session

/-- Between two states the session writes and finds what a meaning says, and hands on what it
    says. -/
structure Realizes (meaning : Meaning) (before after : Session) : Prop where
  level_eq : after.listing.level = before.listing.level
  lines_eq : after.listing.lines =
    before.listing.lines ++ (meaning before.place before.tally).1.lines
  diagnostics_eq : after.diagnostics =
    before.diagnostics ++ (meaning before.place before.tally).1.diagnostics
  tally_eq : after.tally = (meaning before.place before.tally).2
  frames_eq : after.frames = after.tally.update before.frames

namespace Realizes

variable {meaning later content : Meaning} {before between after : Session}

theorem place_eq (h : Realizes meaning before after) : after.place = before.place :=
  Session.place_eq h.level_eq h.frames_eq

theorem congr (h : Realizes meaning before after)
    (heq : later before.place before.tally = meaning before.place before.tally) :
    Realizes later before after := by
  obtain ⟨hlevel, hlines, hdiagnostics, htally, hframes⟩ := h
  rw [← heq] at hlines hdiagnostics htally
  exact ⟨hlevel, hlines, hdiagnostics, htally, hframes⟩

theorem nothing (session : Session) : Realizes .nothing session session where
  level_eq := rfl
  lines_eq := (List.append_nil _).symm
  diagnostics_eq := (List.append_nil _).symm
  tally_eq := rfl
  frames_eq := session.update_tally.symm

theorem append (hfirst : Realizes meaning before between) (hsecond : Realizes later between after) :
    Realizes (meaning ++ later) before after := by
  have hlater : later between.place between.tally =
      later before.place (meaning before.place before.tally).2 := by
    rw [hfirst.place_eq, hfirst.tally_eq]
  refine ⟨hsecond.level_eq.trans hfirst.level_eq, ?_, ?_, ?_, ?_⟩
  · rw [hsecond.lines_eq, hfirst.lines_eq, hlater, List.append_assoc]
    rfl
  · rw [hsecond.diagnostics_eq, hfirst.diagnostics_eq, hlater, List.append_assoc]
    rfl
  · rw [hsecond.tally_eq, hlater]
    rfl
  · rw [hsecond.frames_eq, hfirst.frames_eq, Tally.update_update]

theorem write (session : Session) (text : String) :
    Realizes (.write text) session (session.emit (·.write text)) where
  level_eq := session.listing.level_write text
  lines_eq := session.listing.lines_write text
  diagnostics_eq := (List.append_nil _).symm
  tally_eq := rfl
  frames_eq := session.update_tally.symm

theorem writeAll (session : Session) (texts : List String) :
    Realizes (.writeAll texts) session
      (session.emit fun listing => texts.foldl Listing.write listing) := by
  induction texts generalizing session with
  | nil => exact nothing session
  | cons text texts ih => exact (write session text).append (ih _)

theorem found (session : Session) (diagnostics : List Diagnostic) :
    Realizes (.found diagnostics) session
      { session with diagnostics := session.diagnostics ++ diagnostics } where
  level_eq := rfl
  lines_eq := (List.append_nil _).symm
  diagnostics_eq := rfl
  tally_eq := rfl
  frames_eq := session.update_tally.symm

theorem report (session : Session) (problems : List Problem) (span : Span) :
    Realizes (.report problems span) session (session.report problems span) :=
  found session _

theorem checkCondition (session : Session) (directive : String) (value : Option String)
    (span : Span) :
    Realizes (.checkCondition directive value span) session
      (session.checkCondition directive value span) :=
  report session _ span

theorem tallied {change : Tally → Tally} (hlisting : after.listing = before.listing)
    (hdiagnostics : after.diagnostics = before.diagnostics)
    (htally : after.tally = change before.tally)
    (hframes : after.frames = after.tally.update before.frames) :
    Realizes (.tallied change) before after where
  level_eq := by rw [hlisting]
  lines_eq := by
    rw [hlisting]
    exact (List.append_nil _).symm
  diagnostics_eq := by
    rw [hdiagnostics]
    exact (List.append_nil _).symm
  tally_eq := htally
  frames_eq := hframes

theorem indented (h : Realizes content (before.emit Listing.indent) after) :
    Realizes (.indented content) before (after.emit Listing.dedent) := by
  have hplace : (before.emit Listing.indent).place =
      { before.place with level := before.place.level + 1 } := by
    simp only [Session.place, Session.emit, Listing.level_indent]
  obtain ⟨hlevel, hlines, hdiagnostics, htally, hframes⟩ := h
  rw [hplace] at hlines hdiagnostics htally
  refine ⟨?_, ?_, hdiagnostics, htally, hframes⟩
  · simp only [Session.emit, Listing.level_dedent, Listing.level_indent] at hlevel ⊢
    rw [hlevel, Nat.add_sub_cancel]
  · simp only [Session.emit, Listing.lines_dedent, Listing.lines_indent] at hlines ⊢
    exact hlines

theorem block {header closer : String}
    (h : Realizes content (before.emit (·.openBlock header)) after) :
    Realizes (.block header closer content) before (after.emit (·.closeBlock closer)) := by
  have hinside : Realizes (.indented content) (before.emit (·.write header))
      (after.emit Listing.dedent) := indented h
  exact ((write before header).append hinside).append (write _ closer)

/-- A line at the level of the block that is left and entered again. -/
theorem continueBlock (hlevel : 0 < before.listing.level) (header : String) :
    Realizes (.outdented (.write header)) before (before.emit (·.continueBlock header)) where
  level_eq := by
    simp only [Session.emit, Listing.continueBlock, Listing.openBlock, Listing.level_indent,
      Listing.level_write, Listing.level_dedent]
    omega
  lines_eq := by
    simp only [Session.emit, Listing.continueBlock, Listing.openBlock, Listing.lines_indent,
      Listing.lines_write, Listing.lines_dedent, Listing.level_dedent]
    rfl
  diagnostics_eq := (List.append_nil _).symm
  tally_eq := rfl
  frames_eq := before.update_tally.symm

theorem within {name : String} {kind : FrameKind} {span : Span}
    (hloop : ∀ loop, kind.bodyLoop? = some loop → loop.children = 0)
    (helse : kind.elseSeen? ≠ some true)
    (h : Realizes content (before.push name kind span) after) :
    Realizes (.within kind content) before after.pop := by
  obtain ⟨hlevel, hlines, hdiagnostics, htally, hframes⟩ := h
  rw [Session.place_push, Session.tally_push before name span hloop helse] at hlines hdiagnostics htally
  obtain ⟨hleft, hpopped⟩ := Session.tally_pop hframes
  refine ⟨hlevel, hlines, hdiagnostics, ?_, hpopped⟩
  rw [hleft, htally]
  rfl

/-- The end tag behind some content closes the tag that was opened in front of it. -/
theorem closeTag_eq {name : String} {kind : FrameKind} {span : Span}
    (h : Realizes content (before.push name kind span) after) (closing : Span) :
    after.closeTag name closing = after.pop.emit (Frame.close ⟨name, kind, span⟩) := by
  have hframes := h.frames_eq.trans
    (Tally.update_cons after.tally ⟨name, kind, span⟩ before.frames)
  have hclose : Frame.close ⟨name, (kind.withChildren after.tally.children).withElseSeen
      after.tally.elseSeen, span⟩ = Frame.close ⟨name, kind, span⟩ := by
    rcases kind with _ | _ | _ | _ | _ | (_ | _) | _ <;> rfl
  have houter : after.pop.frames = _ := congrArg List.tail hframes
  have hclosed := Session.closeTag_innermost after hframes closing
  refine hclosed.trans ?_
  rw [hclose]
  simp only [List.tail_cons] at houter
  exact congrArg (fun frames => { after.emit (Frame.close ⟨name, kind, span⟩) with frames }) houter.symm

theorem conditional {name condition : String} {span : Span}
    (h : Realizes content (before.openConditional name condition span) after) (closing : Span) :
    Realizes (.conditional condition content) before (after.closeTag name closing) := by
  rw [h.closeTag_eq closing]
  exact block (within (by simp [FrameKind.bodyLoop?]) (by simp [FrameKind.elseSeen?]) h)

theorem skipBlock {condition : String}
    (h : Realizes content (before.emit (openSkipBlock condition)) after) :
    Realizes (.skipBlock condition content) before (after.emit (·.closeBlock blockEnd)) := by
  let skipped := (before.emit (·.openBlock (ifHeader condition))).emit (·.write Script.Call.skip)
  have hskipped : Realizes (.indented (.write Script.Call.skip))
      (before.emit (·.write (ifHeader condition))) (skipped.emit Listing.dedent) :=
    indented (write _ _)
  have hrendered : Realizes (.block elseHeader blockEnd content) (skipped.emit Listing.dedent)
      (after.emit (·.closeBlock blockEnd)) := block h
  exact ((write before _).append hskipped).append hrendered

theorem skippable {skip : Option String} {span : Span}
    (h : Realizes content (before.openOwnSkip skip span) after) :
    Realizes (.skippable skip span content) before
      (after.emit fun listing => if skip.isSome then listing.closeBlock blockEnd else listing) := by
  cases skip with
  | none => exact h
  | some value => exact (checkCondition before "skip" (some value) span).append (skipBlock h)

theorem guarded {condition : Option String} {span : Span}
    (h : Realizes content (before.openGuard condition span) after) :
    Realizes (.guarded condition span content) before
      (after.emit fun listing =>
        if condition.isSome then listing.closeBlock blockEnd else listing) := by
  cases condition with
  | none => exact h
  | some value => exact (checkCondition before "if" (some value) span).append (block h)

theorem loopBlocks {number : Nat} {id : String} {clause : EachClause}
    (h : Realizes content
      (before.emit (openLoopBlocks number (enclosingLoop before.frames) id clause)) after) :
    Realizes (.loopBlocks number id clause content) before (after.emit closeLoop) := by
  let guarded := (before.emit (·.write (targetLine number clause))).emit
    (·.openBlock (ifHeader (targetVariable number ++ " != null")))
  let entered := guarded.emit (·.openBlock (iterationHeader number))
  let bound := entered.emit fun listing => (bindingLines number clause).foldl Listing.write listing
  have hkey : Realizes (.writeKey number id clause) bound
      (bound.emit (·.write (keyLine number (enclosingLoop before.frames) id clause))) :=
    congr (write bound _) rfl
  have hrepeated := ((writeAll entered (bindingLines number clause)).append hkey).append h
  have hcalled : Realizes _ guarded (after.emit (·.closeBlock iterationEnd)) := block hrepeated
  have hguarded : Realizes _ (before.emit (·.write (targetLine number clause)))
    ((after.emit (·.closeBlock iterationEnd)).emit (·.closeBlock blockEnd)) := block hcalled
  exact (write before _).append hguarded

/-- The rule for a loop, which is opened by its iteration if that can be read. -/
theorem looped {setting : Setting} {iteration : Option String} {span : Span}
    {repeated : Option Nat → Meaning}
    (h : Realizes (repeated (Session.openOwnLoop setting before iteration span).2)
      (Session.openOwnLoop setting before iteration span).1 after) :
    Realizes (.looped setting iteration span repeated) before
      (after.emit fun listing =>
        if (Session.openOwnLoop setting before iteration span).2.isSome then closeLoop listing
        else listing) := by
  cases iteration with
  | none => exact h
  | some expression =>
    cases hclause : EachClause.parse? expression with
    | none =>
      have hopened : Session.openOwnLoop setting before (some expression) span =
          (before.report [.invalidIteration expression] span, none) := by
        simp only [Session.openOwnLoop, Session.openLoop, hclause]
      rw [hopened] at h ⊢
      rw [Meaning.looped_of_parse_none hclause]
      exact (report before _ span).append h
    | some clause =>
      let counted : Session :=
        { before with loops := before.loops + 1, drawn := before.drawn + 1 }
      have hopened : Session.openOwnLoop setting before (some expression) span =
          (counted.emit (openLoopBlocks (before.loops + 1) (enclosingLoop before.frames)
            (setting.ids before.drawn) clause), some (before.loops + 1)) := by
        simp only [Session.openOwnLoop, Session.openLoop, hclause]
        rfl
      rw [hopened] at h ⊢
      have hcounted : Realizes (.tallied ({ · with
          loops := before.tally.loops + 1, drawn := before.tally.drawn + 1 })) before counted :=
        tallied rfl rfl rfl before.update_tally.symm
      have hlooped : Realizes (.loopBlocks (before.loops + 1) (setting.ids before.drawn) clause
          (repeated (some (before.loops + 1)))) counted (after.emit closeLoop) := loopBlocks h
      rw [Meaning.looped_of_parse hclause]
      refine congr (hcounted.append hlooped) ?_
      rw [Meaning.tallied_append]
      rfl

theorem takeElementKey (session : Session) (explicit : ExplicitKey) (ownLoop : Option Nat) :
    Realizes (.tallied fun _ => (Meaning.elementKey explicit ownLoop session.place session.tally).2)
        session (session.takeElementKey explicit ownLoop).1 ∧
      (session.takeElementKey explicit ownLoop).2 =
        (Meaning.elementKey explicit ownLoop session.place session.tally).1 := by
  have hkept : Realizes (.tallied fun _ => session.tally) session session :=
    tallied rfl rfl rfl session.update_tally.symm
  unfold Session.takeElementKey Meaning.elementKey
  rw [takeChildKey_eq]
  cases hbody : eachBody session.frames with
  | none =>
    have hplace : session.place.body = none := by simp [Session.place, hbody]
    rw [hplace]
    cases explicit <;> cases ownLoop <;> exact ⟨hkept, rfl⟩
  | some loop =>
    have hplace : session.place.body = some loop.number := by simp [Session.place, hbody]
    have hchildren : session.tally.children = loop.children := by simp [Session.tally, hbody]
    let counted : Session := { session with frames := setChildren (loop.children + 1) session.frames }
    have htally : counted.tally = { session.tally with children := loop.children + 1 } := by
      simp [counted, Session.tally, hbody]
    have hframes : counted.frames = counted.tally.update session.frames := by
      rw [htally, Tally.update, ← setChildren_setElseSeen, Session.setElseSeen_tally]
    have hcounted : Realizes (.tallied fun _ =>
        { session.tally with children := loop.children + 1 }) session counted :=
      tallied rfl rfl htally hframes
    rw [hplace, hchildren]
    cases explicit <;> cases ownLoop <;> first | exact ⟨hkept, rfl⟩ | exact ⟨hcounted, rfl⟩

theorem hoistStatics (setting : Setting) (session : Session) (statics : List Markup.Attribute)
    (key : Option String) :
    Realizes (.tallied fun _ => (Meaning.hoisted setting statics key session.tally).2.2) session
        (Session.hoistStatics setting session statics key).1 ∧
      (Session.hoistStatics setting session statics key).2 =
        ((Meaning.hoisted setting statics key session.tally).1,
          (Meaning.hoisted setting statics key session.tally).2.1) := by
  unfold Session.hoistStatics Meaning.hoisted
  split
  · exact ⟨tallied rfl rfl rfl session.update_tally.symm, rfl⟩
  · cases key <;> exact ⟨tallied rfl rfl rfl session.update_tally.symm, rfl⟩

theorem rendered {setting : Setting} {name : String} {explicit : ExplicitKey}
    {ownLoop : Option Nat} {classified : Classified}
    (h : Realizes content
      (Session.openRendered setting before name explicit ownLoop classified) after) :
    Realizes (.rendered setting name explicit ownLoop classified content) before
      (after.emit (·.closeBlock (Script.Call.elementClose name))) := by
  obtain ⟨hkeyed, hkey⟩ := takeElementKey before explicit ownLoop
  simp only [Session.openRendered] at h
  generalize before.takeElementKey explicit ownLoop = taken at hkeyed hkey h
  obtain ⟨keyed, key⟩ := taken
  obtain ⟨hhoisted, hreference⟩ := hoistStatics setting keyed classified.statics key
  generalize Session.hoistStatics setting keyed classified.statics key = opened
    at hhoisted hreference h
  obtain ⟨hoisted, elementKey, reference⟩ := opened
  obtain ⟨rfl, rfl⟩ := Prod.mk.inj hreference
  have htally : keyed.tally =
      (Meaning.elementKey explicit ownLoop before.place before.tally).2 := hkeyed.tally_eq
  have hkey : key = (Meaning.elementKey explicit ownLoop before.place before.tally).1 := hkey
  rw [htally, hkey] at hhoisted h
  have hblock : Realizes (.block _ (Script.Call.elementClose name) content) hoisted
      (after.emit (·.closeBlock (Script.Call.elementClose name))) := block h
  refine congr (hkeyed.append (hhoisted.append hblock)) ?_
  rw [Meaning.tallied_append, Meaning.tallied_append]
  rfl

/-- The rule for an element: its end tag closes the content that may be skipped, the element itself,
    its loop and its guard, in the reverse order of their opening. -/
theorem element {setting : Setting} {name : String} {attributes : Attributes} {span : Span}
    (h : Realizes content (Session.openElement setting before name attributes span) after)
    (closing : Span) :
    Realizes (.element setting name attributes span content) before
      (after.closeTag name closing) := by
  simp only [Session.openElement] at h
  simp only [Meaning.element]
  generalize ExplicitKey.ofAttribute (attributes.get? "key") = explicit at h ⊢
  generalize Classified.ofAttributes _ _ = classified at h ⊢
  rw [h.closeTag_eq closing]
  have hpushed (opened : Session) (kind : FrameKind) :
      (opened.openOwnSkip classified.skip span).push name kind span =
        (opened.push name kind span).openOwnSkip classified.skip span := by
    cases classified.skip <;> rfl
  rw [hpushed] at h
  have hrendered := rendered (within (by simp [FrameKind.bodyLoop?]) (by simp [FrameKind.elseSeen?])
    (skippable h))
  have hlooped : Realizes (.looped setting classified.iteration span fun ownLoop =>
      .rendered setting name explicit ownLoop classified
        (.within (.element classified.condition.isSome ownLoop classified.skip.isSome)
          (.skippable classified.skip span content)))
      ((before.checkAttributes classified span).openGuard classified.condition span) _ :=
    looped hrendered
  exact ((report before _ span).append (report _ _ span)).append (guarded hlooped)

end Realizes

end TemplateCompiler.Template
