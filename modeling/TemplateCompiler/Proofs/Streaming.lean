import TemplateCompiler.Proofs.Indentation
import TemplateCompiler.Proofs.LineBreaks
import TemplateCompiler.Proofs.Prologue

namespace TemplateCompiler.Script

open Text (OneLine)

/-- The lines of closers that end all open blocks, the innermost block first. Each closer stands as
    far in as there are blocks around the one that it ends. -/
def closerLines : List String → List Line
  | [] => []
  | closer :: closers =>
    placeLines closers.length false (Text.splitLines closer) ++ closerLines closers

/-- Closers of one line each are the lines. -/
theorem map_text_closerLines {closers : List String}
    (hclosers : ∀ closer ∈ closers, OneLine closer) :
    (closerLines closers).map Line.text = closers := by
  induction closers with
  | nil => rfl
  | cons closer closers ih =>
    obtain ⟨hcloser, hlater⟩ := List.forall_mem_cons.mp hclosers
    rw [closerLines, Text.splitLines_of_oneLine hcloser, List.map_append, ih hlater]
    rfl

namespace Listing

theorem lines_prefix_proceed (listing : Listing) (step : Step) :
    listing.lines <+: (listing.proceed step).lines := by
  rw [lines_proceed]
  exact List.prefix_append _ _

theorem lines_prefix_foldl_write (listing : Listing) (texts : List String) :
    listing.lines <+: (texts.foldl write listing).lines := by
  rw [lines_foldl_write]
  exact List.prefix_append _ _

/-- A listing inside as many blocks as there are closers is closed by their lines. -/
theorem lines_foldl_closeBlock {listing : Listing} {closers : List String}
    (hlevel : listing.level = closers.length) :
    (closers.foldl closeBlock listing).lines = listing.lines ++ closerLines closers := by
  induction closers generalizing listing with
  | nil => exact (List.append_nil _).symm
  | cons closer closers ih =>
    have houter : listing.dedent.level = closers.length := by
      rw [level_dedent, hlevel, List.length_cons, Nat.add_sub_cancel]
    have hclosed : (listing.closeBlock closer).level = closers.length :=
      (level_write _ closer).trans houter
    rw [List.foldl_cons, ih hclosed, closeBlock, lines_write, houter, lines_dedent,
      List.append_assoc, closerLines]

end Listing

end TemplateCompiler.Script

namespace TemplateCompiler.Template

open Markup (Attributes Event Span)
open Script (Call.elementClose Listing closerLines)
open Text (OneLine)

theorem HoistPool.prefix_declarations {pool later : HoistPool}
    (h : pool.statics <+: later.statics) :
    pool.statics.mapIdx declaration <+: later.statics.mapIdx declaration := by
  obtain ⟨statics, hstatics⟩ := h
  rw [← hstatics, List.mapIdx_append]
  exact List.prefix_append _ _

namespace Phrase

/-- A phrase takes no line back. -/
theorem lines_prefix_write (phrase : Phrase) (listing : Listing) :
    listing.lines <+: (phrase.write listing).lines := by
  have hproceed := Listing.lines_prefix_proceed
  have hopen (listing : Listing) (header : String) :
      listing.lines <+: (listing.openBlock header).lines :=
    (hproceed listing _).trans (hproceed _ _)
  have hclose (listing : Listing) (closer : String) :
      listing.lines <+: (listing.closeBlock closer).lines :=
    (hproceed listing _).trans (hproceed _ _)
  have hcontinue (listing : Listing) (header : String) :
      listing.lines <+: (listing.continueBlock header).lines :=
    (hproceed listing _).trans (hopen _ header)
  rcases phrase with _ | _ | _ | _ | (_ | _) | _ | _ | _ | _ | _
  case literal | text | skip => exact hproceed listing _
  case ifStart | elementStart => exact hopen listing _
  case ifTurn.none | ifTurn.some => exact hcontinue listing _
  case ifEnd | elementEnd => exact hclose listing _
  case loopStart =>
    exact (hproceed listing _).trans ((hopen _ _).trans ((hopen _ _).trans
      ((Listing.lines_prefix_foldl_write _ _).trans (hproceed _ _))))
  case loopEnd => exact (hclose listing _).trans (hclose _ _)

theorem lines_prefix_foldl_write (phrases : List Phrase) (listing : Listing) :
    listing.lines <+: (phrases.foldl write listing).lines := by
  induction phrases generalizing listing with
  | nil => exact List.prefix_refl _
  | cons phrase phrases ih => exact (phrase.lines_prefix_write listing).trans (ih _)

/-- An end leaves a block with each of its pieces of script. -/
theorem write_of_isEnd {phrase : Phrase} (hend : phrase.isEnd = true) (listing : Listing) :
    phrase.write listing = phrase.texts.foldl Listing.closeBlock listing := by
  cases phrase with
  | ifEnd | loopEnd | elementEnd => rfl
  | _ => cases hend

theorem foldl_write_of_isEnd {phrases : List Phrase}
    (hends : ∀ phrase ∈ phrases, phrase.isEnd = true) (listing : Listing) :
    phrases.foldl write listing = (phrases.flatMap texts).foldl Listing.closeBlock listing := by
  induction phrases generalizing listing with
  | nil => rfl
  | cons phrase phrases ih =>
    obtain ⟨hend, hlater⟩ := List.forall_mem_cons.mp hends
    rw [List.foldl_cons, ih hlater, write_of_isEnd hend, List.flatMap_cons, List.foldl_append]

end Phrase

/-- The closers that open tags owe, those of the innermost tag first. -/
def closers (frames : List Frame) : List String :=
  (frames.flatMap Frame.closing).flatMap Phrase.texts

theorem Frame.length_texts_closing (frame : Frame) :
    (frame.closing.flatMap Phrase.texts).length = frame.kind.debt := by
  obtain ⟨name, kind, span⟩ := frame
  rcases kind with _ | _ | _ | _ | _ | (_ | loop) | ⟨guarded, loop, skip⟩
  case element => cases guarded <;> cases loop <;> cases skip <;> rfl
  all_goals rfl

/-- There is a closer for every step out that the open tags owe. -/
theorem length_closers (frames : List Frame) : (closers frames).length = debt frames := by
  induction frames with
  | nil => rfl
  | cons frame frames ih =>
    rw [closers, List.flatMap_cons, List.flatMap_append, List.length_append,
      frame.length_texts_closing, debt_cons, ← ih]
    rfl

/-- Open tags are closed by ends of blocks and by calls that close elements of their names. -/
theorem mem_closers {frames : List Frame} {closer : String} (hcloser : closer ∈ closers frames) :
    closer = blockEnd ∨ closer = iterationEnd ∨
      ∃ frame ∈ frames, closer = Call.elementClose frame.name := by
  obtain ⟨phrase, hphrase, htext⟩ := List.mem_flatMap.mp hcloser
  have hend := isEnd_of_mem_closing hphrase
  cases phrase with
  | ifEnd => exact .inl (List.mem_singleton.mp htext)
  | loopEnd number =>
    obtain hfirst | hsecond := List.mem_pair.mp htext
    · exact .inr (.inl hfirst)
    · exact .inl hsecond
  | elementEnd name =>
    obtain ⟨frame, hframe, hclosing⟩ := List.mem_flatMap.mp hphrase
    refine .inr (.inr ⟨frame, hframe, ?_⟩)
    rw [← frame.name_of_elementEnd hclosing]
    exact List.mem_singleton.mp htext
  | _ => cases hend

theorem oneLine_of_mem_closers {frames : List Frame}
    (hnames : ∀ frame ∈ frames, OneLine frame.name) :
    ∀ closer ∈ closers frames, OneLine closer := by
  intro closer hcloser
  obtain ⟨phrase, hphrase, htext⟩ := List.mem_flatMap.mp hcloser
  exact flat_closing hnames phrase hphrase closer htext

namespace Session

variable (setting : Setting) (session : Session)

section Feeding

/-- No line is taken back. -/
theorem lines_prefix_feedAll (events : List Event) :
    session.listing.lines <+: (session.feedAll setting events).listing.lines := by
  rw [listing_feedAll]
  exact Phrase.lines_prefix_foldl_write _ _

/-- No report is taken back. -/
theorem diagnostics_prefix_feedAll (events : List Event) :
    session.diagnostics <+: (session.feedAll setting events).diagnostics := by
  induction events generalizing session with
  | nil => exact List.prefix_refl _
  | cons event events ih =>
    refine List.IsPrefix.trans ?_ (ih (session.feed setting event))
    rw [diagnostics_feed]
    exact List.prefix_append _ _

/-- No hoisted script is taken back. -/
theorem literals_prefix_feedAll (events : List Event) :
    session.pool.literals <+: (session.feedAll setting events).pool.literals := by
  rw [pool_feedAll, HoistPool.literals_run _ (session.clear_notMem_allHoistings setting events)]
  exact List.prefix_append _ _

end Feeding

section Finishing

variable {session}

/-- Finishing adds the lines of the closers that the open tags owe. -/
theorem lines_finish (hsettled : session.Settled) (size : Nat) :
    (session.finish size).listing.lines =
      session.listing.lines ++ closerLines (closers session.frames) := by
  have hlevel : session.listing.level = (closers session.frames).length :=
    hsettled.level_eq.trans (length_closers session.frames).symm
  have hclosing : (session.frames.flatMap Frame.closing).foldl Phrase.write session.listing =
      (closers session.frames).foldl Listing.closeBlock session.listing :=
    Phrase.foldl_write_of_isEnd (fun _ => isEnd_of_mem_closing) session.listing
  rw [finish_eq, hclosing, Listing.lines_foldl_closeBlock hlevel]

end Finishing

end Session

end TemplateCompiler.Template

namespace TemplateCompiler

open Markup (Event Span)
open Script (Call.elementClose Line closerLines)
open Template (HoistPool IdSource Session Setting blockEnd iterationEnd)
open Text (OneLine)

/-- The lines, declarations, hoisted scripts and reports that a list of events leads to are prefixes
of those of every longer list. If there are no more events, the body of the function has these lines
and behind them the closers of the open tags, the innermost tag first, which are ends of blocks and
calls that close elements; nothing more is hoisted, and each open tag that is no branch is reported,
again the innermost one first. -/
theorem output_never_revised (options : Options) (ids : IdSource) (size : Nat)
    (events later : List Event) :
    let setting : Setting := ⟨ids, options.noStatics⟩
    let width := options.indentWidth
    let fed := Session.start.feedAll setting events
    let fedMore := Session.start.feedAll setting (events ++ later)
    let finished := runSession options ids size events
    let closers := Template.closers fed.frames
    fed.listing.render width <+: fedMore.listing.render width ∧
      fed.pool.statics.mapIdx HoistPool.declaration <+:
        fedMore.pool.statics.mapIdx HoistPool.declaration ∧
      fed.pool.literals <+: fedMore.pool.literals ∧
      fed.diagnostics <+: fedMore.diagnostics ∧
      (finished.program options).body =
        fed.listing.render width ++ (closerLines closers).map (Line.render width) ∧
      (∀ closer ∈ closers, closer = blockEnd ∨ closer = iterationEnd ∨
        ∃ frame ∈ fed.frames, closer = Call.elementClose frame.name) ∧
      ((∀ frame ∈ fed.frames, OneLine frame.name) →
        (closerLines closers).map Line.text = closers) ∧
      finished.pool = fed.pool ∧
      finished.diagnostics =
        fed.diagnostics ++ (fed.frames.filter (·.kind ≠ .branch)).map fun frame =>
          ⟨.neverClosed frame.name, Span.ofBounds frame.span.start size⟩ := by
  intro setting width fed fedMore finished closers
  have hmore : fedMore = fed.feedAll setting later :=
    Session.feedAll_append setting Session.start events later
  have hfinished : finished = _ := fed.finish_eq size
  have hsettled : fed.Settled := Session.settled_start.feedAll setting events
  rw [hmore]
  refine ⟨(fed.lines_prefix_feedAll setting later).map _,
    HoistPool.prefix_declarations (fed.statics_prefix_feedAll setting later),
    fed.literals_prefix_feedAll setting later, fed.diagnostics_prefix_feedAll setting later, ?_,
    fun _ => Template.mem_closers, ?_, ?_, ?_⟩
  · rw [Script.Listing.render, ← List.map_append]
    exact congrArg (List.map (Line.render width)) (Session.lines_finish hsettled size)
  · intro hnames
    exact Script.map_text_closerLines (Template.oneLine_of_mem_closers hnames)
  · rw [hfinished]
  · rw [hfinished]
    rfl

/-- A branch inside a conditional, in an element whose content may be skipped, in a loop, all left
open. In the longer list an end tag of the loop follows. -/
theorem output_never_revised_left_open :
    let place (start : Nat) := Span.ofBounds start (start + 1)
    let ids := IdSource.sequential "k"
    let events := [.opened "each" (.ofList [("expression", "x in xs")]) (place 0),
      .opened "b" (.ofList [("skip", "\x7bs\x7d")]) (place 1),
      .opened "if" (.ofList [("condition", "\x7bc\x7d")]) (place 2),
      .opened "else" (.ofList []) (place 3)]
    let fed := Session.start.feedAll ⟨ids, false⟩ events
    let fedMore := Session.start.feedAll ⟨ids, false⟩ (events ++ [.closed "each" (place 4)])
    let finished := runSession {} ids 9 events
    let closers := Template.closers fed.frames
    fed.listing.render 2 <+: fedMore.listing.render 2 ∧
      (∀ frame ∈ fed.frames, OneLine frame.name) ∧
      closers = ["\x7d", "\x7d", "elementClose(\"b\")", "\x7d, this)", "\x7d"] ∧
      (closerLines closers).map Line.text = closers ∧
      (finished.program {}).body = fed.listing.render 2 ++
        ["        \x7d", "      \x7d", "    elementClose(\"b\")", "  \x7d, this)", "\x7d"] ∧
      "elementClose(\"b\")" ∈ closers ∧
      (∃ frame ∈ fed.frames, "elementClose(\"b\")" = Call.elementClose frame.name) ∧
      finished.diagnostics = fed.diagnostics ++ [⟨.neverClosed "if", Span.ofBounds 2 9⟩,
        ⟨.neverClosed "b", Span.ofBounds 1 9⟩, ⟨.neverClosed "each", Span.ofBounds 0 9⟩] := by
  intro place ids events fed fedMore finished closers
  obtain ⟨hlines, -, -, -, hbody, hclosers, htexts, -, hreports⟩ :=
    output_never_revised {} ids 9 events [.closed "each" (place 4)]
  have hframes : fed.frames = [⟨"else", .branch, place 3⟩, ⟨"if", .conditional true, place 2⟩,
      ⟨"b", .element false none true, place 1⟩, ⟨"each", .each (some ⟨1, 1⟩), place 0⟩] := by
    decide +kernel
  have hnames : ∀ frame ∈ fed.frames, OneLine frame.name := by
    rw [hframes]
    decide
  have hlist : closers = ["\x7d", "\x7d", "elementClose(\"b\")", "\x7d, this)", "\x7d"] := by
    simp only [closers, hframes]
    decide +kernel
  have hmem : "elementClose(\"b\")" ∈ closers := by
    rw [hlist]
    decide
  refine ⟨hlines, hnames, hlist, htexts hnames, ?_, hmem, ?_, ?_⟩
  · refine hbody.trans (congrArg (fed.listing.render 2 ++ ·) ?_)
    change (closerLines closers).map (Line.render 2) = _
    rw [hlist]
    decide +kernel
  · have hnotEnd : "elementClose(\"b\")" ≠ blockEnd ∧ "elementClose(\"b\")" ≠ iterationEnd := by
      decide
    exact ((hclosers _ hmem).resolve_left hnotEnd.1).resolve_left hnotEnd.2
  · refine hreports.trans (congrArg (fed.diagnostics ++ ·) ?_)
    change (fed.frames.filter _).map _ = _
    rw [hframes]
    decide

end TemplateCompiler
