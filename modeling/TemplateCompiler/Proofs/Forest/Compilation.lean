import TemplateCompiler.Compile
import TemplateCompiler.Proofs.Forest.Realization

namespace TemplateCompiler.Template

open Markup (Attributes Event Span)

namespace Realizes

variable {content : Meaning} {before after : Session}

theorem text (session : Session) (content : String) (span : Span) :
    Realizes (.text content span) session (session.addText content span) := by
  unfold Session.addText
  by_cases hblank : Text.allBlank content = true
  · rw [if_pos hblank]
    exact congr (nothing session) (by simp only [Meaning.text, if_pos hblank])
  · rw [if_neg hblank]
    have hscript : session.place.script =
        (session.frames.head?.map Frame.kind).bind FrameKind.script? := by
      unfold Session.place
      cases session.frames <;> rfl
    have hrendered : session.place.script = none →
        Realizes (.text content span) session ((session.reportIssues
          (Interpolation.ofString content).issues span).emit
            (·.write (Script.Call.text (Interpolation.ofString content).expression))) := by
      intro hnone
      have hwritten := (found session ((Interpolation.ofString content).issues.map fun issue =>
        ⟨.textInterpolation issue.message, Session.issueSpan span issue⟩)).append
          (write _ (Script.Call.text (Interpolation.ofString content).expression))
      exact congr hwritten (by simp only [Meaning.text, if_neg hblank, hnone])
    generalize session.frames.head?.map Frame.kind = innermost at hscript ⊢
    cases innermost with
    | none => exact hrendered hscript
    | some kind =>
      cases kind with
      | literal hoisted =>
        cases hoisted with
        | true =>
          have hadded : Realizes (.tallied fun tally =>
              { tally with pool := tally.pool.addLiteral (Text.trimmed content) }) session
              { session with pool := session.pool.addLiteral (Text.trimmed content) } :=
            tallied rfl rfl rfl session.update_tally.symm
          exact congr hadded (by simp [Meaning.text, hblank, hscript, FrameKind.script?])
        | false =>
          exact congr (write session (Text.trimmed content))
            (by simp [Meaning.text, hblank, hscript, FrameKind.script?])
      | _ => exact hrendered hscript

/-- The rule for a branch. Its line is written one level further out, which there is because the
    conditional around has opened a block. -/
theorem branch {isElse : Bool} {name condition : String} {span : Span} (hsettled : before.Settled)
    (h : Realizes content (before.openBranch isElse name condition span) after)
    (closing : Span) :
    Realizes (.branch isElse name condition span content) before
      (after.closeTag name closing) := by
  unfold Session.openBranch at h
  rw [continueChain_eq] at h
  cases hchain : openChain before.frames with
  | none =>
    have hplace : before.place.chained = false := by simp [Session.place, hchain]
    rw [hchain] at h
    have hrefused := (report before _ span).append (h.conditional closing)
    exact congr hrefused (by simp [Meaning.branch, Meaning.refused, hplace])
  | some elseSeen =>
    have hplace : before.place.chained = true := by simp [Session.place, hchain]
    have hseen : before.tally.elseSeen = elseSeen := by simp [Session.tally, hchain]
    rw [hchain] at h
    cases elseSeen with
    | true =>
      have hrefused := (report before _ span).append (h.conditional closing)
      exact congr hrefused (by simp [Meaning.branch, Meaning.refused, hplace, hseen])
    | false =>
      let header := if isElse then elseHeader else elseIfHeader condition
      let continued := before.emit (·.continueBlock header)
      let chosen : Session := { continued with frames := setElseSeen isElse before.frames }
      have hlevel : 0 < before.listing.level := by
        rw [hsettled.level_eq]
        exact debt_pos_of_openChain hchain
      have htally : chosen.tally = { continued.tally with elseSeen := isElse } := by
        simp [chosen, continued, Session.tally, Session.emit, hchain]
      have hframes : chosen.frames = chosen.tally.update continued.frames := by
        rw [htally, Tally.update, Session.setChildren_tally]
        rfl
      have hchosen : Realizes (.tallied ({ · with elseSeen := isElse })) continued chosen :=
        tallied rfl rfl htally hframes
      have hcontent : Realizes content (chosen.push name .branch span) after := h
      have hinside := within (by simp [FrameKind.bodyLoop?]) (by simp [FrameKind.elseSeen?]) hcontent
      have hbranch := ((continueBlock hlevel header).append hchosen).append hinside
      rw [hcontent.closeTag_eq closing]
      exact congr hbranch (by simp [Meaning.branch, Meaning.continued, hplace, hseen, header])

theorem each {setting : Setting} {name expression : String} {span : Span}
    (h : Realizes content ((Session.openLoop setting before expression span).1.push name
      (.each ((Session.openLoop setting before expression span).2.map (⟨·, 0⟩))) span) after)
    (closing : Span) :
    Realizes (.looped setting (some expression) span fun number =>
      .within (.each (number.map (⟨·, 0⟩))) content) before (after.closeTag name closing) := by
  have hclose (number : Option Nat) : Frame.close ⟨name, .each (number.map (⟨·, 0⟩)), span⟩ =
      fun listing => if number.isSome then closeLoop listing else listing := by
    cases number <;> rfl
  have hfresh (number : Option Nat) (loop : Loop)
      (hloop : FrameKind.bodyLoop? (.each (number.map (⟨·, 0⟩))) = some loop) :
      loop.children = 0 := by
    obtain ⟨number, _, rfl⟩ := Option.map_eq_some_iff.mp hloop
    rfl
  rw [h.closeTag_eq closing, hclose]
  exact looped (within (hfresh _) (by simp [FrameKind.elseSeen?]) h)

theorem described (session : Session) (attributes : Attributes) (span : Span) :
    Realizes (.described attributes span) session (session.readMetadata attributes span) :=
  (report session _ span).append (tallied rfl rfl rfl session.update_tally.symm)

/-- The rule for a tag of any kind: what it opens in front of some content, its end tag closes
    behind it. -/
theorem tag {setting : Setting} {name : String} {attributes : Attributes} {span : Span}
    (hsettled : before.Settled)
    (h : Realizes content (Session.openTag setting before name attributes span) after)
    (closing : Span) :
    Realizes (.tag setting name attributes span content) before (after.closeTag name closing) := by
  have hchecked := checkCondition before name (tagCondition attributes) span
  simp only [Session.openTag] at h
  simp only [Meaning.tag]
  generalize TagKind.of name attributes = kind at h ⊢
  cases kind with
  | ifTag => exact hchecked.append (conditional h closing)
  | elseIfTag => exact hchecked.append (branch (hsettled.checkCondition _ _ _) h closing)
  | elseTag => exact hchecked.append (branch (hsettled.checkCondition _ _ _) h closing)
  | eachTag => exact each h closing
  | skipTag =>
    rw [closeTag_eq h closing]
    have hinside := within (by simp [FrameKind.bodyLoop?]) (by simp [FrameKind.elseSeen?]) h
    exact hchecked.append (skipBlock hinside)
  | script =>
    rw [closeTag_eq h closing]
    exact within (by simp [FrameKind.bodyLoop?]) (by simp [FrameKind.elseSeen?]) h
  | metadata =>
    have hfirst : (before.place.outermost = true ∧ before.tally.metadata = none) ↔
        (before.frames = [] ∧ before.metadata = none) := by
      simp [Session.place, Session.tally]
    by_cases htemplate : before.frames = [] ∧ before.metadata = none
    · simp only [if_pos htemplate] at h
      have hinside := within (by simp [FrameKind.bodyLoop?]) (by simp [FrameKind.elseSeen?]) h
      rw [closeTag_eq h closing]
      exact congr ((described before attributes span).append hinside)
        (by simp only [if_pos (hfirst.mpr htemplate)])
    · simp only [if_neg htemplate] at h
      exact congr ((report before [.extraMetadata] span).append (element h closing))
        (by simp only [if_neg (mt hfirst.mp htemplate)])
  | element => exact element h closing

/-- Compiling the events of a forest realizes its meaning. -/
theorem forest (setting : Setting) (forest : Forest) {session : Session}
    (hsettled : session.Settled) :
    Realizes (forest.meaning setting) session (session.feedAll setting forest.events) := by
  induction forest generalizing session with
  | nil => exact nothing session
  | text content span rest ih =>
    exact (text session content span).append (ih (hsettled.addText content span))
  | tag name attributes opening closing children rest ihchildren ihrest =>
    have hopened := hsettled.openTag setting name attributes opening
    have hinside := hopened.feedAll setting children.events
    have hchildren := tag hsettled (ihchildren hopened) closing
    have hrest := ihrest (hinside.closeTag name closing)
    rw [Forest.events, Session.feedAll_cons, Session.feedAll_append, Session.feedAll_cons]
    exact hchildren.append hrest

end Realizes

/-- A session without open tags has nothing left to close. -/
theorem Session.finish_of_frames_eq_nil {session : Session} (hframes : session.frames = [])
    (size : Nat) : session.finish size = session := by
  obtain ⟨listing, pool, frames, loops, drawn, metadata, diagnostics⟩ := session
  cases hframes
  rfl

end TemplateCompiler.Template

namespace TemplateCompiler

open Template (Forest IdSource Realizes Session)

/-- Compiling the events of any forest gives the function that the recursion on the forest gives,
and finds the same problems in the same order. Nothing is assumed about the tags: branches may have
no conditional, loops may have no iteration, and template tags may be anywhere. -/
theorem runSession_forest (options : Options) (ids : IdSource) (size : Nat) (forest : Forest) :
    (runSession options ids size forest.events).program options = forest.program options ids ∧
      (runSession options ids size forest.events).diagnostics =
        (forest.outcome options ids).1.diagnostics := by
  have hrun := Realizes.forest ⟨ids, options.noStatics⟩ forest Session.settled_start
  have hfinished : runSession options ids size forest.events =
      Session.start.feedAll ⟨ids, options.noStatics⟩ forest.events :=
    Session.finish_of_frames_eq_nil hrun.frames_eq size
  rw [hfinished]
  refine ⟨?_, hrun.diagnostics_eq⟩
  generalize Session.start.feedAll ⟨ids, options.noStatics⟩ forest.events = session at hrun ⊢
  have hlines : session.listing.lines = (forest.outcome options ids).1.lines := hrun.lines_eq
  have hmetadata : session.metadata = (forest.outcome options ids).2.metadata :=
    congrArg Template.Tally.metadata hrun.tally_eq
  have hpool : session.pool = (forest.outcome options ids).2.pool :=
    congrArg Template.Tally.pool hrun.tally_eq
  unfold Session.program Forest.program Script.Listing.render
  rw [hlines, hmetadata, hpool]

/-- The directives of one element, in the order in which they are nested. -/
example :
    let span := Markup.Span.point 0
    let attributes := Markup.Attributes.ofList
      [("if", "show"), ("each", "item in items"), ("skip", "item.locked")]
    ((Forest.tag "li" attributes span span (.text "a" span .nil) .nil).program {}
      (IdSource.sequential "k")).body =
      ["if (show) \x7b",
        "  var __target1 = items",
        "  if (__target1 != null) \x7b",
        "    ;(__target1.forEach ? __target1 : Object.keys(__target1)).forEach(" ++
          "function ($value, $item) \x7b",
        "      if (!__target1.forEach) \x7b $item = $value; $value = __target1[$item] \x7d",
        "      var item = $value",
        "      var $key1 = $item + \"_k1\"",
        "      elementOpen(\"li\", $key1)",
        "        if (item.locked) \x7b",
        "          skip()",
        "        \x7d else \x7b",
        "          text(\"a\")",
        "        \x7d",
        "      elementClose(\"li\")",
        "    \x7d, this)",
        "  \x7d",
        "\x7d"] := by decide +kernel

/-- The second else of a conditional is a conditional of its own. -/
example :
    let span := Markup.Span.point 0
    let branch (rest : Forest) := Forest.tag "else" Markup.Attributes.empty span span .nil rest
    ((Forest.tag "if" (Markup.Attributes.ofList [("condition", "a")]) span span
      (branch (branch .nil)) .nil).program {} (IdSource.sequential "k")).body =
      ["if (a) \x7b", "\x7d else \x7b", "  if (true) \x7b", "  \x7d", "\x7d"] := by
  decide +kernel

end TemplateCompiler
