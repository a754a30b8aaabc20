import TemplateCompiler.Proofs.TextIssues

namespace TemplateCompiler.Template

/-- What stands between two braces, with the braces. -/
def braced (source : List Char) : List Char :=
  '\x7b' :: (source ++ ['\x7d'])

/-- A segment as it is written in a text. -/
def Segment.written : Segment → List Char
  | literal text => text
  | expression source => braced source

/-- A text without braces. -/
def BraceFree (cs : List Char) : Prop :=
  '\x7b' ∉ cs ∧ '\x7d' ∉ cs

instance (cs : List Char) : Decidable (BraceFree cs) :=
  inferInstanceAs (Decidable (_ ∧ _))

theorem braceFree_append {cs ds : List Char} :
    BraceFree (cs ++ ds) ↔ BraceFree cs ∧ BraceFree ds := by
  simp only [BraceFree, List.mem_append]
  tauto

/-- The first brace of a text is where it is. -/
theorem BraceFree.append_inj {plain plain' rest rest' : List Char} {brace brace' : Char}
    (hplain : BraceFree plain) (hplain' : BraceFree plain')
    (hbrace : Interpolation.isBrace brace = true) (hbrace' : Interpolation.isBrace brace' = true)
    (heq : plain ++ brace :: rest = plain' ++ brace' :: rest') :
    brace = brace' ∧ rest = rest' := by
  have hdrop {plain rest : List Char} {brace : Char} (hplain : BraceFree plain)
      (hbrace : Interpolation.isBrace brace = true) :
      (plain ++ brace :: rest).dropWhile (!Interpolation.isBrace ·) = brace :: rest := by
    rw [List.dropWhile_append_of_pos, List.dropWhile_cons]
    · simp [hbrace]
    · intro c hc
      have hopening : c ≠ '\x7b' := fun hsame => hplain.1 (hsame ▸ hc)
      have hclosing : c ≠ '\x7d' := fun hsame => hplain.2 (hsame ▸ hc)
      simp [Interpolation.isBrace, hopening, hclosing]
  have hsame : brace :: rest = brace' :: rest' := by
    rw [← hdrop hplain hbrace, heq, hdrop hplain' hbrace']
  exact List.cons.inj hsame

/-- A part of a text whose braces come in pairs around expressions: a literal without braces, or an
    expression without braces that is not blank. -/
def Segment.Proper : Segment → Prop
  | literal text => BraceFree text
  | expression source => BraceFree source ∧ source.all Text.isBlank = false

/-- Puts brace pairs with blank texts between them into a text, each at its byte offset. An offset
    counts the pairs that are put in before. -/
def insertBlank? : List (Nat × List Char) → List Char → Option (List Char)
  | [], cs => some cs
  | pair :: pairs, cs =>
    (Text.splitAtByte? pair.1 cs).bind fun parts =>
      insertBlank? pairs (parts.1 ++ braced pair.2 ++ parts.2)

namespace Interpolation

/-- The offsets at which a brace pair with nothing between its braces is reported. -/
def blankOffsets (interpolation : Interpolation) : List Nat :=
  (interpolation.issues.filter (·.kind = .emptyExpression)).map Issue.offset

/-- How a text is cut that starts at byte `offset` and follows an unfinished literal, by what its
    first brace is. -/
inductive Cuts : List Char → Nat → List Char → Interpolation → Prop
  | plain {literal cs : List Char} {offset : Nat} (hcs : BraceFree cs) :
    Cuts literal offset cs ⟨literalSegments (literal ++ cs), []⟩
  | stray {literal plain rest : List Char} {offset : Nat} {following : Interpolation}
    (hplain : BraceFree plain)
    (hrest : Cuts (literal ++ (plain ++ ['\x7d'])) (offset + Text.byteLength plain + 1) rest
      following) :
    Cuts literal offset (plain ++ '\x7d' :: rest) ⟨following.segments,
      ⟨.strayClosingBrace, offset + Text.byteLength plain⟩ :: following.issues⟩
  | unclosed {literal plain rest : List Char} {offset : Nat} (hplain : BraceFree plain)
    (hrest : '\x7d' ∉ rest) :
    Cuts literal offset (plain ++ '\x7b' :: rest)
      ⟨literalSegments (literal ++ (plain ++ '\x7b' :: rest)),
        [⟨.unclosedBrace, offset + Text.byteLength plain⟩]⟩
  | pair {literal plain source behind : List Char} {offset : Nat} {following : Interpolation}
    (hplain : BraceFree plain) (hsource : '\x7d' ∉ source)
    (hbehind : Cuts [] (offset + Text.byteLength plain + Text.byteLength source + 2) behind
      following) :
    Cuts literal offset (plain ++ (braced source ++ behind))
      ⟨literalSegments (literal ++ plain) ++ expressionSegments source ++ following.segments,
        expressionIssues (offset + Text.byteLength plain) source ++ following.issues⟩

theorem braceFree_takeWhile (cs : List Char) : BraceFree (cs.takeWhile (!isBrace ·)) := by
  have hnone {c : Char} (hc : c ∈ cs.takeWhile (!isBrace ·)) : isBrace c = false := by
    simpa using List.all_eq_true.mp List.all_takeWhile c hc
  refine ⟨fun hopening => ?_, fun hclosing => ?_⟩
  · cases hnone hopening
  · cases hnone hclosing

theorem cuts_cut (literal : List Char) (offset : Nat) (cs : List Char) :
    Cuts literal offset cs (cut literal offset cs) := by
  fun_induction cut literal offset cs with
  | case1 literal offset cs plain hrest =>
    have hplain : plain = cs := by
      have hwhole := List.takeWhile_append_dropWhile (p := (!isBrace ·)) (l := cs)
      rw [hrest, List.append_nil] at hwhole
      exact hwhole
    rw [hplain]
    exact .plain (hplain ▸ braceFree_takeWhile cs)
  | case2 literal offset cs plain position rest hrest following ih =>
    obtain ⟨hcs, -⟩ := eq_append_of_dropWhile hrest
    have hfollowing : Cuts (literal ++ (plain ++ ['\x7d'])) (position + 1) rest following := by
      rw [← List.append_assoc]
      exact ih
    rw [hcs]
    exact .stray (braceFree_takeWhile cs) hfollowing
  | case3 literal offset cs plain position brace rest hrest hbrace hclose =>
    obtain ⟨hcs, hopening⟩ := eq_append_of_dropWhile hrest
    rw [hcs, List.append_assoc, hopening hbrace]
    exact .unclosed (braceFree_takeWhile cs) (Text.splitOnce_singleton_eq_none_iff.mp hclose)
  | case4 literal offset cs plain position brace rest hrest hbrace source behind hclose following ih =>
    obtain ⟨hcs, hopening⟩ := eq_append_of_dropWhile hrest
    obtain ⟨hparts, hsource⟩ := Text.splitOnce_singleton_eq_some_iff.mp hclose
    have hpair : '\x7b' :: rest = braced source ++ behind := by simp [braced, hparts]
    rw [hcs, hopening hbrace, hpair]
    exact .pair (braceFree_takeWhile cs) hsource ih

theorem flatMap_written_literalSegments (text : List Char) :
    (literalSegments text).flatMap Segment.written = text := by
  cases text <;> simp [literalSegments, Segment.written]

/-- What stands between two braces is blank and left out, or has a brace inside, or is a proper
    expression. -/
theorem expression_cases (offset : Nat) (source : List Char) :
    (source.all Text.isBlank = true ∧ expressionSegments source = [] ∧
        expressionIssues offset source = [⟨.emptyExpression, offset⟩]) ∨
      source.all Text.isBlank = false ∧ expressionSegments source = [.expression source] ∧
        ('\x7b' ∉ source ∧ expressionIssues offset source = [] ∨
          ∃ before behind, source = before ++ '\x7b' :: behind ∧
            expressionIssues offset source =
              [⟨.nestedBrace, offset + 1 + Text.byteLength before⟩]) := by
  unfold expressionSegments expressionIssues
  cases hblank : source.all Text.isBlank with
  | true =>
    have hnone : '\x7b' ∉ source := by
      intro hmem
      cases List.all_eq_true.mp hblank _ hmem
    rw [Text.splitOnce_singleton_eq_none_iff.mpr hnone]
    exact .inl ⟨rfl, rfl, rfl⟩
  | false =>
    refine .inr ⟨rfl, rfl, ?_⟩
    cases hcut : Text.splitOnce ['\x7b'] source with
    | none => exact .inl ⟨Text.splitOnce_singleton_eq_none_iff.mp hcut, rfl⟩
    | some cut =>
      obtain ⟨hsource, -⟩ := Text.splitOnce_singleton_eq_some_iff.mp hcut
      exact .inr ⟨cut.1, cut.2, hsource, rfl⟩

/-- At most one issue is about a brace pair, and it stands before the closing brace. -/
theorem exists_expressionIssues_eq (offset : Nat) (source : List Char) :
    ∃ found : Option Issue, expressionIssues offset source = found.toList ∧
      ∀ issue ∈ found, offset ≤ issue.offset ∧
        issue.offset < offset + Text.byteLength source + 2 ∧ issue.kind ≠ .unclosedBrace := by
  obtain ⟨-, -, hissues⟩ | ⟨-, -, ⟨-, hissues⟩ | ⟨before, inside, hparts, hissues⟩⟩ :=
    expression_cases offset source
  · refine ⟨some ⟨.emptyExpression, offset⟩, hissues, ?_⟩
    intro issue hissue
    obtain rfl := Option.mem_some.mp hissue
    exact ⟨Nat.le_refl _, by dsimp only; omega, IssueKind.noConfusion⟩
  · exact ⟨none, hissues, by simp⟩
  · refine ⟨some ⟨.nestedBrace, offset + 1 + Text.byteLength before⟩, hissues, ?_⟩
    intro issue hissue
    obtain rfl := Option.mem_some.mp hissue
    rw [hparts, Text.byteLength_append]
    exact ⟨by dsimp only; omega, by dsimp only; omega, IssueKind.noConfusion⟩

namespace Cuts

variable {literal cs : List Char} {offset : Nat} {interpolation : Interpolation}

/-- The segments are the text once the blank brace pairs are put in again. In front of the cut text
    there may stand another one, if the offsets count it. -/
theorem restores (h : Cuts literal offset cs interpolation) :
    ∃ pairs, pairs.map Prod.fst = interpolation.blankOffsets ∧
      (∀ pair ∈ pairs, pair.2.all Text.isBlank = true) ∧
      ∀ front, offset = Text.byteLength (front ++ literal) →
        insertBlank? pairs (front ++ interpolation.segments.flatMap Segment.written) =
          some (front ++ literal ++ cs) := by
  induction h with
  | plain hcs =>
    refine ⟨[], rfl, by simp, ?_⟩
    intro front _
    simp [insertBlank?, flatMap_written_literalSegments]
  | @stray literal plain rest offset following hplain hrest ih =>
    obtain ⟨pairs, hoffsets, hblank, hrestored⟩ := ih
    refine ⟨pairs, hoffsets, hblank, ?_⟩
    intro front hfront
    have hbyte : Char.utf8Size '\x7d' = 1 := by decide
    rw [hrestored front (by simp [hfront, hbyte]; omega)]
    simp
  | unclosed hplain hrest =>
    refine ⟨[], rfl, by simp, ?_⟩
    intro front _
    simp [insertBlank?, flatMap_written_literalSegments]
  | @pair literal plain source behind offset following hplain hsource hbehind ih =>
    obtain ⟨pairs, hoffsets, hblank, hrestored⟩ := ih
    have hbytes : Char.utf8Size '\x7b' = 1 ∧ Char.utf8Size '\x7d' = 1 := by decide
    have hbehindFront (front : List Char) (hfront : offset = Text.byteLength (front ++ literal)) :
        insertBlank? pairs (front ++ literal ++ plain ++ braced source ++
          following.segments.flatMap Segment.written) =
            some (front ++ literal ++ plain ++ braced source ++ behind) := by
      rw [hrestored, List.append_nil]
      simp [hfront, hbytes, braced]
      omega
    obtain ⟨hall, hsegments, hissues⟩ | ⟨-, hsegments, hissues⟩ :=
      expression_cases (offset + Text.byteLength plain) source
    · refine ⟨(offset + Text.byteLength plain, source) :: pairs, ?_, ?_, ?_⟩
      · simpa [blankOffsets, hissues] using hoffsets
      · exact List.forall_mem_cons.mpr ⟨hall, hblank⟩
      · intro front hfront
        -- The pair goes behind all that is written before it.
        have hplace : offset + Text.byteLength plain =
            Text.byteLength (front ++ literal ++ plain) := by
          rw [hfront, Text.byteLength_append (front ++ literal)]
        have hwritten : front ++ (literalSegments (literal ++ plain) ++ expressionSegments source ++
            following.segments).flatMap Segment.written =
              front ++ literal ++ plain ++ following.segments.flatMap Segment.written := by
          simp [hsegments, flatMap_written_literalSegments]
        rw [insertBlank?, hwritten, hplace, Markup.splitAtByte?_byteLength, Option.bind_some,
          hbehindFront front hfront]
        simp
    · refine ⟨pairs, ?_, hblank, ?_⟩
      · obtain ⟨-, hissues⟩ | ⟨before, inside, -, hissues⟩ := hissues <;>
          simp [blankOffsets, hissues, hoffsets]
      · intro front hfront
        have hwritten : front ++ (literalSegments (literal ++ plain) ++ expressionSegments source ++
            following.segments).flatMap Segment.written =
              front ++ literal ++ plain ++ braced source ++
                following.segments.flatMap Segment.written := by
          simp [hsegments, flatMap_written_literalSegments, Segment.written]
        rw [hwritten, hbehindFront front hfront]
        simp

theorem expression_mem (h : Cuts literal offset cs interpolation) {source : List Char}
    (hmem : .expression source ∈ interpolation.segments) :
    source.all Text.isBlank = false ∧ '\x7d' ∉ source := by
  have hliteral {text : List Char} (hmem : .expression source ∈ literalSegments text) : False := by
    cases text with
    | nil => cases hmem
    | cons c text => simp [literalSegments] at hmem
  induction h with
  | plain hcs => exact (hliteral hmem).elim
  | stray hplain hrest ih => exact ih hmem
  | unclosed hplain hrest => exact (hliteral hmem).elim
  | @pair literal plain other behind offset following hplain hsource hbehind ih =>
    obtain hfront | hlater := List.mem_append.mp hmem
    · obtain hplain | hmem := List.mem_append.mp hfront
      · exact (hliteral hplain).elim
      · unfold expressionSegments at hmem
        split at hmem
        · cases hmem
        · rename_i hblank
          cases List.mem_singleton.mp hmem
          exact ⟨Bool.eq_false_iff.mpr hblank, hsource⟩
    · exact ih hlater

/-- Issues come in the order of the text, and none behind a brace that is never closed. -/
theorem pairwise_issues (h : Cuts literal offset cs interpolation) :
    (∀ issue ∈ interpolation.issues, offset ≤ issue.offset) ∧
      interpolation.issues.Pairwise fun issue later =>
        issue.offset < later.offset ∧ issue.kind ≠ .unclosedBrace := by
  induction h with
  | plain hcs => exact ⟨by simp, List.Pairwise.nil⟩
  | stray hplain hrest ih =>
    obtain ⟨hstart, hpairs⟩ := ih
    refine ⟨?_, List.pairwise_cons.mpr ⟨?_, hpairs⟩⟩
    · refine List.forall_mem_cons.mpr ⟨Nat.le_add_right _ _, ?_⟩
      intro issue hissue
      have hle := hstart issue hissue
      omega
    · intro later hlater
      exact ⟨hstart later hlater, IssueKind.noConfusion⟩
  | unclosed hplain hrest => exact ⟨by simp, List.pairwise_singleton _ _⟩
  | @pair literal plain source behind offset following hplain hsource hbehind ih =>
    obtain ⟨hstart, hpairs⟩ := ih
    obtain ⟨found, hissues, hinside⟩ :=
      exists_expressionIssues_eq (offset + Text.byteLength plain) source
    have hlater (issue : Issue) (hissue : issue ∈ following.issues) : offset ≤ issue.offset := by
      have hle := hstart issue hissue
      omega
    rw [hissues]
    cases found with
    | none => exact ⟨hlater, hpairs⟩
    | some issue =>
      obtain ⟨hle, hlt, hkind⟩ := hinside issue rfl
      refine ⟨List.forall_mem_cons.mpr ⟨by omega, hlater⟩, List.pairwise_cons.mpr ⟨?_, hpairs⟩⟩
      intro later hmem
      exact ⟨Nat.lt_of_lt_of_le hlt (hstart later hmem), hkind⟩

/-- If nothing is reported, all segments are proper. -/
theorem proper (h : Cuts literal offset cs interpolation) (hliteral : BraceFree literal)
    (hissues : interpolation.issues = []) :
    ∀ segment ∈ interpolation.segments, segment.Proper := by
  have hplainSegments {text : List Char} (htext : BraceFree text) :
      ∀ segment ∈ literalSegments text, segment.Proper := by
    cases text with
    | nil => simp [literalSegments]
    | cons c text => exact List.forall_mem_singleton.mpr htext
  induction h with
  | plain hcs => exact hplainSegments (braceFree_append.mpr ⟨hliteral, hcs⟩)
  | stray hplain hrest ih => cases hissues
  | unclosed hplain hrest => cases hissues
  | @pair literal plain source behind offset following hplain hsource hbehind ih =>
    obtain ⟨hpair, hlater⟩ := List.append_eq_nil_iff.mp hissues
    obtain ⟨-, -, hsome⟩ | ⟨hblank, hsegments, ⟨hnested, -⟩ | ⟨before, inside, -, hsome⟩⟩ :=
      expression_cases (offset + Text.byteLength plain) source
    · rw [hsome] at hpair
      cases hpair
    · rw [hsegments, List.append_assoc]
      intro segment hmem
      obtain hmem | hmem := List.mem_append.mp hmem
      · exact hplainSegments (braceFree_append.mpr ⟨hliteral, hplain⟩) segment hmem
      · obtain rfl | hmem := List.mem_cons.mp hmem
        · exact ⟨⟨hnested, hsource⟩, hblank⟩
        · exact ih (by decide) hlater segment hmem
    · rw [hsome] at hpair
      cases hpair

/-- A text of proper parts starts with a brace-free stretch, and then is at its end or at a proper
    expression with proper parts behind it. -/
theorem exists_stretch {parts : List Segment} (hparts : ∀ part ∈ parts, part.Proper) :
    ∃ plain, BraceFree plain ∧ (parts.flatMap Segment.written = plain ∨
      ∃ source, ∃ later : List Segment, BraceFree source ∧ source.all Text.isBlank = false ∧
        (∀ part ∈ later, part.Proper) ∧ parts.flatMap Segment.written =
          plain ++ (braced source ++ later.flatMap Segment.written)) := by
  induction parts with
  | nil => exact ⟨[], by decide, .inl rfl⟩
  | cons part parts ih =>
    obtain ⟨hpart, hlater⟩ := List.forall_mem_cons.mp hparts
    cases part with
    | literal text =>
      obtain ⟨plain, hplain, hwhole | ⟨source, later, hsource, hblank, hproper, hwhole⟩⟩ := ih hlater
      · refine ⟨text ++ plain, braceFree_append.mpr ⟨hpart, hplain⟩, .inl ?_⟩
        rw [List.flatMap_cons, hwhole]
        rfl
      · refine ⟨text ++ plain, braceFree_append.mpr ⟨hpart, hplain⟩,
          .inr ⟨source, later, hsource, hblank, hproper, ?_⟩⟩
        rw [List.flatMap_cons, hwhole, List.append_assoc]
        rfl
    | expression source =>
      exact ⟨[], by decide, .inr ⟨source, parts, hpart.1, hpart.2, hlater, rfl⟩⟩

/-- Nothing is reported in a text of proper parts. -/
theorem issues_eq_nil (h : Cuts literal offset cs interpolation) {parts : List Segment}
    (hparts : ∀ part ∈ parts, part.Proper) (hwritten : parts.flatMap Segment.written = cs) :
    interpolation.issues = [] := by
  induction h generalizing parts with
  | plain hcs => rfl
  | @stray literal plain rest offset following hplain hrest ih =>
    obtain ⟨stretch, hstretch, hwhole | ⟨source, later, hsource, hblank, hlater, hwhole⟩⟩ :=
      exists_stretch hparts
    · rw [hwritten] at hwhole
      exact (hstretch.2 (by simp [← hwhole])).elim
    · rw [hwritten] at hwhole
      cases (hplain.append_inj hstretch rfl rfl hwhole).1
  | @unclosed literal plain rest offset hplain hrest =>
    obtain ⟨stretch, hstretch, hwhole | ⟨source, later, hsource, hblank, hlater, hwhole⟩⟩ :=
      exists_stretch hparts
    · rw [hwritten] at hwhole
      exact (hstretch.1 (by simp [← hwhole])).elim
    · rw [hwritten] at hwhole
      obtain ⟨-, hclosed⟩ := hplain.append_inj hstretch rfl rfl hwhole
      exact (hrest (by simp [hclosed])).elim
  | @pair literal plain source behind offset following hplain hsource hbehind ih =>
    obtain ⟨stretch, hstretch, hwhole | ⟨inner, later, hinner, hblank, hlater, hwhole⟩⟩ :=
      exists_stretch hparts
    · rw [hwritten] at hwhole
      exact (hstretch.1 (by simp [← hwhole, braced])).elim
    · rw [hwritten] at hwhole
      obtain ⟨-, hclosed⟩ := hplain.append_inj hstretch rfl rfl hwhole
      have hcut : Text.splitOnce ['\x7d'] (source ++ ['\x7d'] ++ behind) = some (source, behind) :=
        Text.splitOnce_singleton_eq_some_iff.mpr ⟨by simp, hsource⟩
      obtain ⟨hsame, hfree⟩ : source = inner ∧ behind = later.flatMap Segment.written := by
        have hcut' : Text.splitOnce ['\x7d'] (source ++ ['\x7d'] ++ behind) =
            some (inner, later.flatMap Segment.written) :=
          Text.splitOnce_singleton_eq_some_iff.mpr ⟨by simpa using hclosed, hinner.2⟩
        rw [hcut] at hcut'
        exact Prod.mk.inj (Option.some.inj hcut')
      subst hsame
      obtain ⟨hall, -⟩ | ⟨-, -, ⟨-, hnone⟩ | ⟨before, inside, hnested, -⟩⟩ :=
        expression_cases (offset + Text.byteLength plain) source
      · rw [hall] at hblank
        cases hblank
      · rw [hnone, ih hlater hfree.symm]
        rfl
      · exact (hinner.1 (by simp [hnested])).elim

end Cuts

end Interpolation

/-- A text is cut into segments from which it can be written again, once the reported brace pairs
with nothing between them are put back. Every expression has something in it, and ends at the first
closing brace. Nothing is reported if and only if the text consists of literals without braces and
of brace pairs around expressions without braces that are not blank, and then these are the
segments. The offsets of the issues ascend, and each is that of the brace in question. A brace that
is never closed is the last issue. -/
theorem text_cut_losslessly (text : String) :
    let interpolation := Interpolation.ofString text
    (∃ pairs, pairs.map Prod.fst = interpolation.blankOffsets ∧
        (∀ pair ∈ pairs, pair.2.all Text.isBlank = true) ∧
        insertBlank? pairs (interpolation.segments.flatMap Segment.written) = some text.toList) ∧
      (∀ source, .expression source ∈ interpolation.segments →
        source.all Text.isBlank = false ∧ '\x7d' ∉ source) ∧
      (interpolation.issues = [] ↔ ∃ parts : List Segment,
        (∀ part ∈ parts, part.Proper) ∧ parts.flatMap Segment.written = text.toList) ∧
      (interpolation.issues = [] → ∀ segment ∈ interpolation.segments, segment.Proper) ∧
      (interpolation.issues.map Issue.offset).Pairwise (· < ·) ∧
      (∀ issue ∈ interpolation.issues, issue.Marks 0 text.toList) ∧
      ∀ front issue back, interpolation.issues = front ++ issue :: back →
        issue.kind = .unclosedBrace → back = [] := by
  intro interpolation
  have hcuts : Interpolation.Cuts [] 0 text.toList interpolation :=
    Interpolation.cuts_cut [] 0 text.toList
  obtain ⟨pairs, hoffsets, hblank, hrestored⟩ := hcuts.restores
  have hrestored : insertBlank? pairs (interpolation.segments.flatMap Segment.written) =
      some text.toList := hrestored [] rfl
  have hproper := hcuts.proper (by decide)
  obtain ⟨-, hpairwise⟩ := hcuts.pairwise_issues
  refine ⟨⟨pairs, hoffsets, hblank, hrestored⟩, fun source => hcuts.expression_mem, ⟨?_, ?_⟩,
    hproper, ?_, fun issue => marks_of_cut, ?_⟩
  · intro hnone
    -- Without issues there is no pair to put back.
    have hpairs : pairs = [] := by
      rw [← List.map_eq_nil_iff, hoffsets, Interpolation.blankOffsets, hnone]
      rfl
    rw [hpairs] at hrestored
    exact ⟨interpolation.segments, hproper hnone, Option.some.inj hrestored⟩
  · rintro ⟨parts, hparts, hwritten⟩
    exact hcuts.issues_eq_nil hparts hwritten
  · exact List.pairwise_map.mpr (hpairwise.imp And.left)
  · intro front issue back hissues hkind
    rw [hissues, List.pairwise_append, List.pairwise_cons] at hpairwise
    cases back with
    | nil => rfl
    | cons later back => exact ((hpairwise.2.1.1 later List.mem_cons_self).2 hkind).elim

/-- A text with every kind of issue, and one with none. -/
theorem text_cut_losslessly_issues :
    let text := "é\x7d\x7b \x7d\x7ba\x7bb\x7d\x7bc\x7d\x7bd"
    let interpolation := Interpolation.ofString text
    let issues : List Issue := [⟨.strayClosingBrace, 2⟩, ⟨.emptyExpression, 3⟩, ⟨.nestedBrace, 8⟩]
    interpolation.issues = issues ++ [⟨.unclosedBrace, 14⟩] ∧
      .expression ['c'] ∈ interpolation.segments ∧ '\x7d' ∉ ['c'] ∧
      Issue.Marks 0 text.toList ⟨.nestedBrace, 8⟩ ∧
      (∀ back, interpolation.issues = issues ++ ⟨.unclosedBrace, 14⟩ :: back → back = []) ∧
      (Interpolation.ofString "x \x7ba\x7d").issues = [] ∧
      ∀ segment ∈ (Interpolation.ofString "x \x7ba\x7d").segments, segment.Proper := by
  intro text interpolation issues
  obtain ⟨-, hsources, -, -, -, hmarks, hlast⟩ := text_cut_losslessly text
  obtain ⟨-, -, -, hproper, -⟩ := text_cut_losslessly "x \x7ba\x7d"
  have hissues : interpolation.issues = issues ++ [⟨.unclosedBrace, 14⟩] := by decide +kernel
  have hmem : .expression ['c'] ∈ interpolation.segments := by decide +kernel
  have hnested : ⟨.nestedBrace, 8⟩ ∈ interpolation.issues := by decide +kernel
  have hnone : (Interpolation.ofString "x \x7ba\x7d").issues = [] := by decide +kernel
  exact ⟨hissues, hmem, (hsources _ hmem).2, hmarks _ hnested, fun back hback =>
    hlast issues ⟨.unclosedBrace, 14⟩ back hback rfl, hnone, hproper hnone⟩

end TemplateCompiler.Template
