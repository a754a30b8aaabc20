import TemplateCompiler.Proofs.Markup.Excerpts
import TemplateCompiler.Proofs.Reports

namespace TemplateCompiler.Template

section Issues

/-- The brace that an issue is about. -/
def IssueKind.brace : IssueKind → Char
  | strayClosingBrace => '\x7d'
  | _ => '\x7b'

/-- The brace of an issue stands at its offset in a text that starts at the byte `start`. -/
def Issue.Marks (start : Nat) (cs : List Char) (issue : Issue) : Prop :=
  ∃ shown more, cs = shown ++ issue.kind.brace :: more ∧
    issue.offset = start + Text.byteLength shown

variable {start : Nat} {cs : List Char} {issue : Issue}

theorem Issue.Marks.append_left {read : List Char}
    (h : issue.Marks (start + Text.byteLength read) cs) : issue.Marks start (read ++ cs) := by
  obtain ⟨shown, more, rfl, hoffset⟩ := h
  refine ⟨read ++ shown, more, (List.append_assoc _ _ _).symm, ?_⟩
  rw [hoffset, Text.byteLength_append, Nat.add_assoc]

theorem Issue.Marks.append_right (h : issue.Marks start cs) (behind : List Char) :
    issue.Marks start (cs ++ behind) := by
  obtain ⟨shown, more, rfl, hoffset⟩ := h
  exact ⟨shown, more ++ behind, List.append_assoc _ _ _, hoffset⟩

theorem marks_of_expressionIssues {source : List Char}
    (h : issue ∈ Interpolation.expressionIssues start source) :
    issue.Marks start ('\x7b' :: source) := by
  unfold Interpolation.expressionIssues at h
  obtain hnested | hempty := List.mem_append.mp h
  · split at hnested
    · rename_i before behind hsplit
      obtain rfl := List.mem_singleton.mp hnested
      refine ⟨'\x7b' :: before, behind, ?_, Nat.add_assoc _ _ _⟩
      rw [Text.eq_append_of_splitOnce hsplit]
      simp [IssueKind.brace]
    · cases hnested
  · split at hempty
    · obtain rfl := List.mem_singleton.mp hempty
      exact ⟨[], source, rfl, rfl⟩
    · cases hempty

theorem eq_append_of_dropWhile {brace : Char} {rest : List Char}
    (hrest : cs.dropWhile (!Interpolation.isBrace ·) = brace :: rest) :
    cs = cs.takeWhile (!Interpolation.isBrace ·) ++ brace :: rest ∧
      (brace ≠ '\x7d' → brace = '\x7b') := by
  have hhead := List.head?_dropWhile_not (!Interpolation.isBrace ·) cs
  rw [hrest] at hhead
  refine ⟨?_, ?_⟩
  · rw [← hrest, List.takeWhile_append_dropWhile]
  · intro hclosing
    simpa [Interpolation.isBrace, hclosing] using hhead

/-- The brace of every issue of a text stands at its offset. -/
theorem marks_of_cut {literal : List Char}
    (h : issue ∈ (Interpolation.cut literal start cs).issues) :
    issue.Marks start cs := by
  fun_induction Interpolation.cut literal start cs with
  | case1 => cases h
  | case2 literal start cs plain position rest hrest following ih =>
    obtain ⟨hcs, -⟩ := eq_append_of_dropWhile hrest
    rw [hcs]
    obtain rfl | hlater := List.mem_cons.mp h
    · exact ⟨plain, rest, rfl, rfl⟩
    · have hbehind : issue.Marks (start + Text.byteLength plain + Text.byteLength ['\x7d']) rest :=
        ih hlater
      exact hbehind.append_left.append_left
  | case3 literal start cs plain position brace rest hrest hbrace hclose =>
    obtain ⟨hcs, hopening⟩ := eq_append_of_dropWhile hrest
    obtain rfl := List.mem_singleton.mp h
    rw [hcs, hopening hbrace]
    exact ⟨plain, rest, rfl, rfl⟩
  | case4 literal start cs plain position brace rest hrest hbrace source behind hclose following ih =>
    obtain ⟨hcs, hopening⟩ := eq_append_of_dropWhile hrest
    rw [hcs, hopening hbrace, Text.eq_append_of_splitOnce hclose]
    obtain hsource | hlater := List.mem_append.mp h
    · have hmarks := (marks_of_expressionIssues hsource).append_right (['\x7d'] ++ behind)
      rw [List.append_assoc]
      exact hmarks.append_left
    · have hread : position + Text.byteLength source + 2 =
          start + Text.byteLength (plain ++ '\x7b' :: (source ++ ['\x7d'])) := by
        have hbraces : Char.utf8Size '\x7b' = 1 ∧ Char.utf8Size '\x7d' = 1 := by decide
        rw [Text.byteLength_append, Text.byteLength_cons, Text.byteLength_append,
          Text.byteLength_cons, Text.byteLength_nil]
        omega
      have hbehind := ih hlater
      rw [hread] at hbehind
      have hmarks := hbehind.append_left
      rw [List.append_assoc] at hmarks
      exact hmarks

end Issues

end TemplateCompiler.Template

namespace TemplateCompiler

open Markup (Event Excerpt Letter Span byteOrderMark letters tokenize)
open Template (IdSource Interpolation Issue Session Setting)

/-- No problem of an opening tag is one of a text. -/
theorem Problem.OfStart.ne_textInterpolation {problem : Problem} (h : problem.OfStart)
    (reason : String) : problem ≠ .textInterpolation reason := by
  intro hsame
  cases h with
  | condition directive reason' =>
    obtain ⟨hcontext, -⟩ := Problem.unsupportedInterpolation.inj hsame
    have hchars := congrArg String.toList hcontext
    simp at hchars
  | value name reason' =>
    obtain ⟨hcontext, -⟩ := Problem.unsupportedInterpolation.inj hsame
    have hchars := congrArg String.toList hcontext
    simp at hchars
  | _ => cases hsame

theorem Problem.OfEnd.ne_textInterpolation {problem : Problem} (h : problem.OfEnd)
    (reason : String) : problem ≠ .textInterpolation reason := by
  intro hsame
  cases h <;> cases hsame

namespace Template.Session

variable {setting : Setting} {session : Session} {diagnostic : Diagnostic} {reason : String}

/-- A problem of a text is found by the event of that text. -/
theorem mem_feed (hproblem : diagnostic.problem = .textInterpolation reason) {event : Event}
    (hmem : diagnostic ∈ (session.feed setting event).diagnostics) :
    diagnostic ∈ session.diagnostics ∨
      ∃ content span, event = .text content span ∧ diagnostic ∈ textReports content span := by
  rw [diagnostics_feed] at hmem
  refine (List.mem_append.mp hmem).imp id fun hreport => ?_
  cases event with
  | opened name attributes span =>
    obtain ⟨hstart, -⟩ := session.ofStart_of_mem_reports setting hreport
    exact (hstart.ne_textInterpolation reason hproblem).elim
  | text content span =>
    exact ⟨content, span, rfl, session.textReports_of_mem_reports setting hreport⟩
  | closed name span =>
    have hend := session.ofEnd_of_mem_endReports diagnostic hreport
    exact (hend.ne_textInterpolation reason hproblem).elim

theorem mem_feedAll (hproblem : diagnostic.problem = .textInterpolation reason)
    {events : List Event} (hmem : diagnostic ∈ (session.feedAll setting events).diagnostics) :
    diagnostic ∈ session.diagnostics ∨
      ∃ content span, .text content span ∈ events ∧ diagnostic ∈ textReports content span := by
  induction events generalizing session with
  | nil => exact .inl hmem
  | cons event events ih =>
    obtain hfed | ⟨content, span, htext, hissue⟩ := ih hmem
    · obtain hold | ⟨content, span, rfl, hissue⟩ := mem_feed hproblem hfed
      · exact .inl hold
      · exact .inr ⟨content, span, List.mem_cons_self, hissue⟩
    · exact .inr ⟨content, span, List.mem_cons_of_mem event htext, hissue⟩

end Template.Session

theorem exists_text_of_mem_runSession {diagnostic : Diagnostic} {reason : String}
    (hproblem : diagnostic.problem = .textInterpolation reason)
    {options : Options} {ids : IdSource} {size : Nat} {events : List Event}
    (hmem : diagnostic ∈ (runSession options ids size events).diagnostics) :
    ∃ content span, .text content span ∈ events ∧
      diagnostic ∈ Template.textReports content span := by
  obtain hfed | hend := Session.ofEnd_of_mem_finish _ hmem
  · obtain hold | htext := Session.mem_feedAll hproblem hfed
    · cases hold
    · exact htext
  · exact (hend.ne_textInterpolation reason hproblem).elim

/-- The problems that a compile gives back, with its result or instead of one. -/
def returned : Except Failure Compiled → List Diagnostic
  | .ok compiled => compiled.diagnostics
  | .error (.reported diagnostic) => [diagnostic]
  | .error (.insideCharacter _) => []

theorem mem_of_mem_returned {options : Options} {ids : IdSource} {size : Nat}
    {events : List Event} {diagnostic : Diagnostic}
    (hmem : diagnostic ∈ returned (compileEvents options ids size events)) :
    diagnostic ∈ (runSession options ids size events).diagnostics := by
  obtain hreturned | ⟨-, first, hfirst, hfailed⟩ := compileEvents_cases options ids size events
  · rw [hreturned] at hmem
    exact hmem
  · rw [hfailed] at hmem
    rwa [List.mem_singleton.mp hmem]

/-- Where the brace of an issue in a text stands in the source: behind `before`, which ends where the
    text starts, and behind the `stretch` of the text that is shown as `shown`. -/
structure BraceAt (source : List Char) (events : List Event) (content : String) (span : Span)
    (issue : Issue) (before stretch shown : List Char) : Prop where
  issue_mem : issue ∈ (Interpolation.ofString content).issues
  offset_eq : issue.offset = Text.byteLength shown
  content_eq : ∃ more, content.toList = shown ++ issue.kind.brace :: more
  start_eq : span.start = Text.byteLength before
  place_lt_stop : Text.byteLength (before ++ stretch) < span.stop
  source_eq : ∃ behind, source = before ++ stretch ++ issue.kind.brace :: behind
  /-- The brace is the letter of the source that follows those of the earlier texts and `shown`. -/
  letter : ∃ front back earlier run later, events = front ++ .text content span :: back ∧
    letters {} source = earlier ++ run ++
      ⟨issue.kind.brace, Text.byteLength (before ++ stretch)⟩ :: later ∧
    earlier.map Letter.char = front.flatMap Event.shown ∧ run.map Letter.char = shown ∧
    Excerpt {} (Text.byteLength before) stretch run

theorem exists_braceAt {source : String} {events : List Event}
    (hmark : byteOrderMark ∉ source.toList) (hread : tokenize {} source = .ok events)
    {content : String} {span : Span} (htext : .text content span ∈ events) {issue : Issue}
    (hissue : issue ∈ (Interpolation.ofString content).issues) :
    ∃ before stretch shown,
      BraceAt source.toList events content span issue before stretch shown := by
  obtain ⟨front, back, rfl⟩ := List.append_of_mem htext
  have hstart : Markup.ContinuesAt source.toList 0 source.toList := ⟨[], rfl, rfl⟩
  obtain ⟨earlier, run, more, before, markup, behind, hletters, hearlier, hrun, hsource, hexcerpt,
    hspan⟩ := (Markup.retells_of_tokenize hmark hread).exists_of_append hstart
  obtain ⟨shown, rest, hcontent, hoffset⟩ := Template.marks_of_cut hissue
  rw [hcontent] at hrun
  obtain ⟨run, tail, rfl, hshown, htail⟩ := List.map_eq_append_iff.mp hrun
  obtain ⟨letter, later, rfl, hletter, -⟩ := List.map_eq_cons_iff.mp htail
  obtain ⟨stretch, inside, rfl, hplace, hstretch⟩ := hexcerpt.exists_of_append
  have hletter : letter = ⟨issue.kind.brace, Text.byteLength (before ++ stretch)⟩ := by
    rw [Text.byteLength_append, ← hplace, ← hletter]
  rw [hletter] at hletters hsource hspan
  refine ⟨before, stretch, shown, hissue, ?_, ⟨rest, hcontent⟩, ?_, ?_, ⟨inside ++ behind, ?_⟩,
    ⟨front, back, earlier, run, later ++ more, rfl, ?_, hearlier, hshown, hstretch⟩⟩
  · rw [hoffset, Nat.zero_add]
  · rw [hspan]
    rfl
  · have hpos := issue.kind.brace.utf8Size_pos
    rw [hspan, Text.byteLength_append]
    change _ < _ + Text.byteLength (stretch ++ issue.kind.brace :: inside)
    rw [Text.byteLength_append, Text.byteLength_cons]
    omega
  · rw [hsource]
    simp
  · rw [hletters]
    simp

namespace BraceAt

variable {source before stretch shown : List Char} {events : List Event} {content : String}
  {span : Span} {issue : Issue}

theorem byteLength_eq_iff (h : BraceAt source events content span issue before stretch shown) :
    Text.byteLength shown = Text.byteLength stretch ↔ stretch = shown := by
  obtain ⟨front, back, earlier, run, later, -, -, -, rfl, hexcerpt⟩ := h.letter
  exact hexcerpt.byteLength_eq_iff

/-- The report of an issue is as far behind the start of the text as the brace is in the text. -/
theorem issueSpan_eq (h : BraceAt source events content span issue before stretch shown) :
    Session.issueSpan span issue =
      Span.ofLength (Text.byteLength before + Text.byteLength shown) 1 := by
  obtain ⟨front, back, earlier, run, later, -, -, -, hshown, hexcerpt⟩ := h.letter
  have hle := hexcerpt.byteLength_le
  have hlt := h.place_lt_stop
  rw [hshown] at hle
  rw [Text.byteLength_append] at hlt
  unfold Session.issueSpan
  rw [h.start_eq, h.offset_eq, Nat.min_eq_left (by omega)]

end BraceAt

/-- A brace in a text is reported as many bytes behind the start of the text as are shown before it.
    The report marks the brace if and only if these are all bytes before it. -/
theorem text_report_marks_brace_iff (options : Options) (ids : IdSource) (source : String)
    (events : List Event) (hmark : byteOrderMark ∉ source.toList)
    (hread : tokenize {} source = .ok events) (diagnostic : Diagnostic) (reason : String)
    (hreturned : diagnostic ∈ returned (compileWith options ids source))
    (hproblem : diagnostic.problem = .unsupportedInterpolation "text" reason) :
    ∃ content span issue before stretch shown,
      BraceAt source.toList events content span issue before stretch shown ∧
      reason = issue.kind.message ∧
      diagnostic.span = Span.ofLength (Text.byteLength before + Text.byteLength shown) 1 ∧
      (diagnostic.span = Span.ofLength (Text.byteLength (before ++ stretch)) 1 ↔
        stretch = shown) := by
  rw [compileWith, hread] at hreturned
  obtain ⟨content, span, htext, hreport⟩ :=
    exists_text_of_mem_runSession hproblem (mem_of_mem_returned hreturned)
  obtain ⟨issue, hissue, rfl⟩ := List.mem_map.mp hreport
  obtain ⟨-, hreason⟩ := Problem.unsupportedInterpolation.inj hproblem
  obtain ⟨before, stretch, shown, hplace⟩ := exists_braceAt hmark hread htext hissue
  refine ⟨content, span, issue, before, stretch, shown, hplace, hreason.symm, hplace.issueSpan_eq,
    ?_⟩
  rw [hplace.issueSpan_eq, ← hplace.byteLength_eq_iff, Text.byteLength_append]
  constructor
  · intro hsame
    have hstart := congrArg Span.start hsame
    exact Nat.add_left_cancel hstart
  · intro hbytes
    rw [hbytes]

/-- A brace behind a stray angle and in front of a comment. -/
theorem text_report_marks_brace_iff_before_comment :
    let source := "é < \x7b<!-- -->"
    let diagnostic : Diagnostic :=
      ⟨.textInterpolation "`\x7b` is never closed", Span.ofLength 5 1⟩
    byteOrderMark ∉ source.toList ∧
      diagnostic ∈ returned (compileWith {} (IdSource.sequential "k") source) ∧
      ∃ events, tokenize {} source = .ok events ∧ ∃ content span issue before stretch shown,
        BraceAt source.toList events content span issue before stretch shown ∧
        "`\x7b` is never closed" = issue.kind.message ∧
        diagnostic.span = Span.ofLength (Text.byteLength before + Text.byteLength shown) 1 ∧
        (diagnostic.span = Span.ofLength (Text.byteLength (before ++ stretch)) 1 ↔
          stretch = shown) := by
  intro source diagnostic
  have hmark : byteOrderMark ∉ source.toList := by decide +kernel
  have hreturned : diagnostic ∈ returned (compileWith {} (IdSource.sequential "k") source) := by
    decide +kernel
  have hok : (tokenize {} source).toOption.isSome = true := by decide +kernel
  cases hread : tokenize {} source with
  | error failure =>
    rw [hread] at hok
    cases hok
  | ok events =>
    exact ⟨hmark, hreturned, events, rfl, text_report_marks_brace_iff {} _ source events hmark hread
      diagnostic _ hreturned rfl⟩

/-- A comment in front of a brace moves the report to the angle that starts the comment. -/
theorem text_report_at_comment :
    let source := "a<!-- -->\x7b"
    returned (compile {} source) =
        [⟨.textInterpolation "`\x7b` is never closed", Span.ofLength 1 1⟩] ∧
      (Span.ofLength 1 1).Holds source.toList ['<'] ∧
      (Span.ofLength 9 1).Holds source.toList ['\x7b'] ∧ source.toList.count '\x7b' = 1 := by
  intro source
  refine ⟨by decide +kernel, ⟨['a'], "!-- -->\x7b".toList, ?_⟩, ⟨"a<!-- -->".toList, [], ?_⟩, ?_⟩
  all_goals decide +kernel

end TemplateCompiler
