import TemplateCompiler.Proofs.Markup.EventStreams
import TemplateCompiler.Proofs.TextIssues

namespace TemplateCompiler.Markup

/-- A span with at least one byte, inside a source of `size` bytes. -/
def Span.Inside (size : Nat) (span : Span) : Prop :=
  span.start < span.stop ∧ span.stop ≤ size

/-- A span inside a source is pointed at as it is. -/
theorem Span.Inside.location {size : Nat} {span : Span} (h : span.Inside size) :
    1 ≤ (span.location size).length ∧
      (span.location size).offset + (span.location size).length ≤ size := by
  obtain ⟨hne, hstop⟩ := h
  unfold Span.location
  dsimp only
  omega

end TemplateCompiler.Markup

namespace TemplateCompiler.Template.Session

open Markup (Attributes Event EventStream Rules Span)

/-- An opening tag becomes the innermost open tag, and those around it stay in their places. -/
theorem exists_frames_openTag (setting : Setting) (session : Session) (name : String)
    (attributes : Attributes) (span : Span) :
    ∃ kind outer, (openTag setting session name attributes span).frames =
        ⟨name, kind, span⟩ :: outer ∧
      outer.map Frame.span = session.frames.map Frame.span := by
  cases hrendering : session.rendering? (.opened name attributes span) with
  | none =>
    rw [openTag_directive_eq setting hrendering]
    exact ⟨_, _, rfl, session.map_directiveOuter name attributes fun _ _ => rfl⟩
  | some rendering =>
    obtain rfl := session_of_rendering? hrendering
    rw [openTag_rendering_eq setting hrendering]
    exact ⟨_, _, rfl, map_counted setting rendering fun _ _ => rfl⟩

/-- All open tags and all problems of a session are inside a source of `size` bytes. -/
structure Inside (size : Nat) (session : Session) : Prop where
  frames : ∀ frame ∈ session.frames, frame.span.Inside size
  diagnostics : ∀ diagnostic ∈ session.diagnostics, diagnostic.span.Inside size

namespace Inside

variable {size : Nat} {session : Session}

theorem start (size : Nat) : Session.start.Inside size :=
  ⟨List.forall_mem_nil _, List.forall_mem_nil _⟩

theorem openTag (h : session.Inside size) (setting : Setting) (name : String)
    (attributes : Attributes) {span : Span} (hspan : span.Inside size) :
    (Session.openTag setting session name attributes span).Inside size := by
  constructor
  · obtain ⟨kind, outer, hframes, hplaces⟩ :=
      exists_frames_openTag setting session name attributes span
    rw [hframes, List.forall_mem_cons]
    refine ⟨hspan, ?_⟩
    intro frame hframe
    have hmem := List.mem_map_of_mem (f := Frame.span) hframe
    rw [hplaces] at hmem
    obtain ⟨frame', hframe', hsame⟩ := List.mem_map.mp hmem
    exact hsame ▸ h.frames frame' hframe'
  · have hadded := session.diagnostics_feed setting (.opened name attributes span)
    rw [feed] at hadded
    rw [hadded, List.forall_mem_append]
    refine ⟨h.diagnostics, fun diagnostic hreport => ?_⟩
    rw [(session.ofStart_of_mem_reports setting hreport).2]
    exact hspan

/-- A brace is reported where the text has at least one more byte, since a text shows no more than
    its span. -/
theorem addText (h : session.Inside size) {content : String} {span : Span}
    (hshown : Text.byteLength content.toList ≤ span.length) (hstop : span.stop ≤ size) :
    (session.addText content span).Inside size := by
  rw [addText_eq]
  refine ⟨h.frames, List.forall_mem_append.mpr ⟨h.diagnostics, ?_⟩⟩
  intro diagnostic hmem
  split at hmem
  · obtain ⟨issue, hissue, rfl⟩ := List.mem_map.mp hmem
    obtain ⟨shown, more, hcontent, hoffset⟩ := marks_of_cut hissue
    have hbrace := issue.kind.brace.utf8Size_pos
    rw [hcontent, Text.byteLength_append, Text.byteLength_cons, Span.length] at hshown
    change min (span.start + issue.offset) span.stop <
        min (span.start + issue.offset) span.stop + 1 ∧
      min (span.start + issue.offset) span.stop + 1 ≤ size
    omega
  · cases hmem

theorem of_mem_unclosedReports {problem : String → Problem} {place : Frame → Span}
    {frames : List Frame} (hplaces : ∀ frame ∈ frames, (place frame).Inside size) :
    ∀ diagnostic ∈ unclosedReports problem place frames, diagnostic.span.Inside size := by
  intro diagnostic hmem
  obtain ⟨frame, hframe, rfl⟩ := List.mem_map.mp hmem
  exact hplaces frame (List.mem_of_mem_filter hframe)

theorem closeTag (h : session.Inside size) (name : String) {span : Span}
    (hspan : span.Inside size) : (session.closeTag name span).Inside size := by
  have hframes := h.frames
  rw [← session.closedBy_append_frames name span, List.forall_mem_append] at hframes
  refine ⟨hframes.2, ?_⟩
  rw [closeTag_eq]
  refine List.forall_mem_append.mpr ⟨h.diagnostics, ?_⟩
  unfold endReports
  split
  · exact List.forall_mem_singleton.mpr hspan
  · exact of_mem_unclosedReports fun frame hframe =>
      hframes.1 frame (List.mem_of_mem_dropLast hframe)

/-- The end of the innermost open tag is not reported. -/
theorem closeTag_innermost (h : session.Inside size) {frame : Frame} {outer : List Frame}
    (hframes : session.frames = frame :: outer) (span : Span) :
    (session.closeTag frame.name span).Inside size := by
  rw [Session.closeTag_innermost session hframes]
  have hall := h.frames
  rw [hframes] at hall
  exact ⟨(List.forall_mem_cons.mp hall).2, h.diagnostics⟩

/-- What opens and closes at once is reported at its opening tag only. -/
theorem element (h : session.Inside size) (setting : Setting) (name : String)
    (attributes : Attributes) {span : Span} (hspan : span.Inside size) (tagEnd : Span) :
    (session.feedAll setting
      [.opened name attributes span, .closed name tagEnd]).Inside size := by
  obtain ⟨kind, outer, hframes, -⟩ := exists_frames_openTag setting session name attributes span
  exact (h.openTag setting name attributes hspan).closeTag_innermost hframes tagEnd

theorem rawText (h : session.Inside size) (setting : Setting) (name : String)
    (attributes : Attributes) {span : Span} (hspan : span.Inside size) {content : String}
    {textSpan : Span} (hshown : Text.byteLength content.toList ≤ textSpan.length)
    (hstop : textSpan.stop ≤ size) (tagEnd : Span) :
    (session.feedAll setting [.opened name attributes span, .text content textSpan,
      .closed name tagEnd]).Inside size := by
  obtain ⟨kind, outer, hframes, -⟩ := exists_frames_openTag setting session name attributes span
  have htext := (h.openTag setting name attributes hspan).addText hshown hstop
  have hinner := (congrArg Session.frames (addText_eq _ content textSpan)).trans hframes
  exact htext.closeTag_innermost hinner tagEnd

theorem feedAll {rules : Rules} {start : Nat} {events : List Event} (setting : Setting)
    (hstream : EventStream rules size start events) (h : session.Inside size) :
    (session.feedAll setting events).Inside size := by
  induction hstream generalizing session with
  | nil => exact h
  | text _ hshown hrest ih => exact ih (h.addText hshown hrest.ordered.le)
  | opened _ _ _ hspan hrest ih => exact ih (h.openTag setting _ _ ⟨hspan, hrest.ordered.le⟩)
  | closed _ _ hspan hrest ih => exact ih (h.closeTag _ ⟨hspan, hrest.ordered.le⟩)
  | @element _ _ _ span tagEnd _ _ hspan hend hrest ih =>
    have hstop : span.stop ≤ size := (hend.trans tagEnd.start_le_stop).trans hrest.ordered.le
    exact ih (h.element setting _ _ ⟨hspan, hstop⟩ tagEnd)
  | @rawText _ _ _ _ span textSpan tagEnd _ _ _ hspan htext hshown hend hrest ih =>
    have hstop : textSpan.stop ≤ size := (hend.trans tagEnd.start_le_stop).trans hrest.ordered.le
    have hopened : span.stop ≤ size := (htext.trans textSpan.start_le_stop).trans hstop
    exact ih (h.rawText setting _ _ ⟨hspan, hopened⟩ hshown hstop tagEnd)

/-- A tag that is never closed is reported from its start to the end of the source. -/
theorem finish (h : session.Inside size) : (session.finish size).Inside size := by
  have hplaces : ∀ frame ∈ session.frames,
      (Span.ofBounds frame.span.start size).Inside size := by
    intro frame hframe
    obtain ⟨hne, hstop⟩ := h.frames frame hframe
    change frame.span.start < max frame.span.start size ∧ max frame.span.start size ≤ size
    omega
  rw [finish_eq]
  exact ⟨List.forall_mem_nil _,
    List.forall_mem_append.mpr ⟨h.diagnostics, of_mem_unclosedReports hplaces⟩⟩

end Inside

end TemplateCompiler.Template.Session

namespace TemplateCompiler

open Template (IdSource Session)

/-- Every place that a compile reports has at least one byte and ends inside the source. -/
theorem reported_locations_inside (options : Options) (ids : IdSource) (source : String)
    (compiled : Compiled) (hcompiled : compileWith options ids source = .ok compiled) :
    ∀ location ∈ compiled.locations source.utf8ByteSize,
      1 ≤ location.length ∧ location.offset + location.length ≤ source.utf8ByteSize := by
  obtain ⟨events, hread, rfl⟩ := exists_events_of_compileWith hcompiled
  obtain ⟨pieces, hpieces, rfl⟩ := Markup.exists_of_map_eq_ok hread
  have hstream := (Markup.eventStream_of_readSource hpieces).joinTexts
  rw [Nat.zero_add, Markup.byteLength_toList] at hstream
  have hsession := (Session.Inside.feedAll ⟨ids, options.noStatics⟩ hstream
    (Session.Inside.start _)).finish
  intro location hlocation
  obtain ⟨diagnostic, hdiagnostic, rfl⟩ := List.mem_map.mp hlocation
  exact (hsession.diagnostics diagnostic hdiagnostic).location

/-- A condition that cannot be used and a brace behind a byte order mark, an end tag without a start,
    an element that is closed implicitly, and one that is never closed. -/
theorem reported_locations_inside_unbalanced :
    let source := "\uFEFF<p if=\"\x7b\x7d\">\x7d<br/></i><b></p><else>"
    ∃ compiled, compileWith {} (IdSource.sequential "k") source = .ok compiled ∧
      compiled.diagnostics.length = 6 ∧
      ∀ location ∈ compiled.locations source.utf8ByteSize,
        1 ≤ location.length ∧ location.offset + location.length ≤ source.utf8ByteSize := by
  intro source
  have hlength : (compileWith {} (IdSource.sequential "k") source).toOption.map
      (fun compiled => compiled.diagnostics.length) = some 6 := by decide +kernel
  cases hcompiled : compileWith {} (IdSource.sequential "k") source with
  | error failure =>
    rw [hcompiled] at hlength
    cases hlength
  | ok compiled =>
    rw [hcompiled] at hlength
    exact ⟨compiled, rfl, Option.some.inj hlength,
      reported_locations_inside {} _ source compiled hcompiled⟩

end TemplateCompiler
