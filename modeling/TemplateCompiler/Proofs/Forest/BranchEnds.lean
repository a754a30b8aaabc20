import TemplateCompiler.Proofs.Forest.OpenBranches
import TemplateCompiler.Proofs.Spans

namespace TemplateCompiler.Template

open Markup (Attributes Event Span)
open Script (Listing)

/-- How the end of a branch is written: by an end tag behind its content, by an end tag directly
    behind its start tag, so that its content follows, or not at all. -/
inductive BranchEnd where
  | endTag
  | selfClosed
  | omitted
deriving DecidableEq, Repr

/-- The events of a branch with its end written in one of the three ways. -/
def BranchEnd.spell (opening closing : Event) (content : List Event) : BranchEnd → List Event
  | endTag => opening :: (content ++ [closing])
  | selfClosed => opening :: closing :: content
  | omitted => opening :: content

/-- The ways to write a forest inside a conditional or none, with the end of every branch that
    continues a conditional written in any way; what was left out is restricted by the names of the
    branch and of the conditional. Behind the forest the conditional may have had its else. -/
inductive Spelled (mayOmit : String → String → Prop) :
    Option Chain → Forest → List Event → Option Chain → Prop where
  | nil (chain : Option Chain) : Spelled mayOmit chain .nil [] chain
  | text {chain final : Option Chain} {rest : Forest} {events : List Event} (content : String)
      (span : Span) (hrest : Spelled mayOmit chain rest events final) :
      Spelled mayOmit chain (.text content span rest) (.text content span :: events) final
  | tag {chain inner final : Option Chain} {children rest : Forest} {content events : List Event}
      (name : String) (attributes : Attributes) (opening closing : Span)
      (hown : continuesChain chain name attributes = false)
      (hchildren : Spelled mayOmit (chainInside name attributes) children content inner)
      (hrest : Spelled mayOmit chain rest events final) :
      Spelled mayOmit chain (.tag name attributes opening closing children rest)
        (.opened name attributes opening :: (content ++ .closed name closing :: events)) final
  | branch {conditional : String} {middle final : Option Chain} {children rest : Forest}
      {content events : List Event} (name : String) (attributes : Attributes)
      (opening closing : Span) (ending : BranchEnd)
      (hbranch : (TagKind.of name attributes).isBranch = true)
      (hending : ending = .omitted → mayOmit name conditional)
      (hchildren : Spelled mayOmit
        (some ⟨conditional, decide (TagKind.of name attributes = .elseTag)⟩) children content middle)
      (hrest : Spelled mayOmit middle rest events final) :
      Spelled mayOmit (some ⟨conditional, false⟩)
        (.tag name attributes opening closing children rest)
        (ending.spell (.opened name attributes opening) (.closed name closing) content ++ events)
        final

/-- With every end tag behind the content a forest can be written anywhere. -/
theorem exists_spelled_events (mayOmit : String → String → Prop) (chain : Option Chain)
    (forest : Forest) :
    ∃ final, Spelled mayOmit chain forest forest.events final ∧ (chain = none → final = none) := by
  induction forest generalizing chain with
  | nil => exact ⟨chain, .nil chain, id⟩
  | text content span rest ih =>
    obtain ⟨final, hrest, hnone⟩ := ih chain
    exact ⟨final, .text content span hrest, hnone⟩
  | tag name attributes opening closing children rest ihchildren ihrest =>
    cases hcontinues : continuesChain chain name attributes with
    | false =>
      obtain ⟨inner, hchildren, -⟩ := ihchildren (chainInside name attributes)
      obtain ⟨final, hrest, hnone⟩ := ihrest chain
      exact ⟨final, .tag name attributes opening closing hcontinues hchildren hrest, hnone⟩
    | true =>
      obtain ⟨hbranch, conditional, rfl⟩ := exists_of_continuesChain hcontinues
      obtain ⟨middle, hchildren, -⟩ :=
        ihchildren (some ⟨conditional, decide (TagKind.of name attributes = .elseTag)⟩)
      obtain ⟨final, hrest, -⟩ := ihrest middle
      have hwritten := Spelled.branch name attributes opening closing .endTag hbranch
        (fun homitted => by cases homitted) hchildren hrest
      rw [BranchEnd.spell, List.cons_append, List.append_assoc, List.singleton_append] at hwritten
      exact ⟨final, hwritten, fun hchain => by cases hchain⟩

theorem exists_chain_of_realizes {meaning : Meaning} {before after : Session} {chain : Chain}
    (h : Realizes meaning before after) (hchain : chain ∈ chainOf after.frames) :
    ∃ earlier ∈ chainOf before.frames, earlier.name = chain.name := by
  rw [h.frames_eq, Tally.update, chainOf_setElseSeen, chainOf_setChildren] at hchain
  obtain ⟨earlier, hearlier, rfl⟩ := Option.map_eq_some_iff.mp hchain
  exact ⟨earlier, hearlier, rfl⟩

/-- From a session with branches on top a run has come to what the meaning makes of the session
    without them. Further branches may have been left open, but none of the name of the conditional
    that it continues. -/
def Yields (meaning : Meaning) (core : Session) (branches : List Frame) (final : Option Chain)
    (after : Session) : Prop :=
  ∃ left core', after = core'.covered (left ++ branches) ∧ Covers (left ++ branches) core'.frames ∧
    Realizes meaning core core' ∧ chainOf core'.frames = final ∧
    ∀ frame ∈ left, ∃ chain ∈ chainOf core.frames, frame.name ≠ chain.name

/-- Events that yield a meaning inside a given conditional or none, whatever branches are open on
    top. -/
def Carries (setting : Setting) (chain : Option Chain) (meaning : Meaning) (events : List Event)
    (final : Option Chain) : Prop :=
  ∀ (core : Session) (branches : List Frame), Covers branches core.frames →
    (core.covered branches).Settled → chainOf core.frames = chain →
    Yields meaning core branches final ((core.covered branches).feedAll setting events)

theorem Yields.of_realizes {meaning : Meaning} {core after : Session} {branches : List Frame}
    (hcovers : Covers branches core.frames) (h : Realizes meaning (core.covered branches) after)
    (hchain : chainOf after.frames = chainOf core.frames) :
    Yields meaning core branches (chainOf core.frames) after := by
  obtain ⟨core', rfl, hrealizes, hcovers'⟩ := h.uncover hcovers
  refine ⟨[], core', rfl, hcovers', hrealizes, ?_, List.forall_mem_nil _⟩
  rw [← hchain, Session.covered, chainOf_branches hcovers'.kind_eq]

namespace Carries

variable {setting : Setting} {chain middle final : Option Chain} {meaning later : Meaning}
  {events rest content : List Event}

theorem nil (setting : Setting) (chain : Option Chain) : Carries setting chain .nothing [] chain := by
  intro core branches hcovers _ hchain
  exact ⟨[], core, rfl, hcovers, .nothing core, hchain, List.forall_mem_nil _⟩

theorem append (hfirst : Carries setting chain meaning events middle)
    (hsecond : Carries setting middle later rest final) :
    Carries setting chain (meaning ++ later) (events ++ rest) final := by
  intro core branches hcovers hsettled hchain
  obtain ⟨left, between, hbetween, hcovers', hrealizes, hmiddle, hleft⟩ :=
    hfirst core branches hcovers hsettled hchain
  have hsettled' := hsettled.feedAll setting events
  rw [hbetween] at hsettled'
  obtain ⟨added, after, hafter, hcovered, hlater, hfinal, hadded⟩ :=
    hsecond between (left ++ branches) hcovers' hsettled' hmiddle
  rw [← List.append_assoc] at hafter hcovered
  refine ⟨added ++ left, after, ?_, hcovered, hrealizes.append hlater, hfinal, ?_⟩
  · rw [Session.feedAll_append, hbetween, hafter]
  · intro frame hframe
    obtain hframe | hframe := List.mem_append.mp hframe
    · obtain ⟨inner, hinner, hne⟩ := hadded frame hframe
      obtain ⟨outer, houter, hname⟩ := exists_chain_of_realizes hrealizes hinner
      exact ⟨outer, houter, hname ▸ hne⟩
    · exact hleft frame hframe

theorem text (setting : Setting) (chain : Option Chain) (content : String) (span : Span) :
    Carries setting chain (.text content span) [.text content span] chain := by
  intro core branches hcovers _ hchain
  have hkept : chainOf ((core.covered branches).addText content span).frames =
      chainOf core.frames := by
    rw [Session.addText_eq]
    exact chainOf_branches hcovers.kind_eq _
  exact hchain ▸ .of_realizes hcovers (.text _ content span) hkept

theorem tag {name : String} {attributes : Attributes} {inner : Option Chain} (opening closing : Span)
    (hown : continuesChain chain name attributes = false)
    (hcontent : Carries setting (chainInside name attributes) meaning content inner) :
    Carries setting chain (.tag setting name attributes opening meaning)
      (.opened name attributes opening :: (content ++ [.closed name closing])) chain := by
  intro core branches hcovers hsettled hchain
  let opened := Session.openTag setting (core.covered branches) name attributes opening
  have hcovered : chainOf (core.covered branches).frames = chain := by
    rw [Session.covered, chainOf_branches hcovers.kind_eq, hchain]
  rw [← hcovered] at hown
  obtain ⟨kind, outer, hframes, -, hinside, -⟩ :=
    Session.frames_openTag_own setting opening hown
  rw [← hframes] at hinside
  obtain ⟨left, core', hafter, hcovers', hrealizes, -, hleft⟩ :=
    hcontent opened [] (covers_nil _) (hsettled.openTag setting name attributes opening) hinside
  rw [List.append_nil] at hafter hcovers'
  rw [hinside] at hleft
  obtain ⟨hclosed, hkept⟩ :=
    Realizes.closeTag_own hsettled hown hrealizes hcovers'.kind_eq hleft closing
  have hfed : (core.covered branches).feedAll setting
      (.opened name attributes opening :: (content ++ [.closed name closing])) =
        (core'.covered left).closeTag name closing := by
    rw [Session.feedAll_cons, Session.feedAll_append, ← hafter]
    rfl
  rw [hfed, ← hchain]
  exact .of_realizes hcovers hclosed (hkept.trans (hcovered.trans hchain.symm))

/-- The rule for a branch, however its end is written. -/
theorem branch {conditional name : String} {attributes : Attributes} (opening closing : Span)
    {ending : BranchEnd} (hbranch : (TagKind.of name attributes).isBranch = true)
    (hending : ending = .omitted → name ≠ conditional)
    (hcontent : Carries setting
      (some ⟨conditional, decide (TagKind.of name attributes = .elseTag)⟩) meaning content final) :
    Carries setting (some ⟨conditional, false⟩) (.tag setting name attributes opening meaning)
      (ending.spell (.opened name attributes opening) (.closed name closing) content) final := by
  intro core branches hcovers hsettled hchain
  let branch : Frame := ⟨name, .branch, opening⟩
  obtain ⟨opened, hopened, hcovers', hchain', hmeaning⟩ :=
    Realizes.openTag_branch setting opening hcovers hsettled hchain hbranch
  have hsettled' := hsettled.openTag setting name attributes opening
  rw [hopened] at hsettled'
  have hname {frame : Frame} {inner : Chain} (hinner : inner ∈ chainOf opened.frames)
      (hne : frame.name ≠ inner.name) : ∃ chain ∈ chainOf core.frames, frame.name ≠ chain.name := by
    rw [hchain'] at hinner
    obtain rfl := Option.some.inj hinner
    exact ⟨_, hchain, hne⟩
  have hchained := hcovers'.chained (List.cons_ne_nil _ _)
  have hinside := hcontent opened (branch :: branches) hcovers' hsettled' hchain'
  cases ending with
  | endTag =>
    obtain ⟨left, core', hafter, hcovered, hrealizes, hfinal, hleft⟩ := hinside
    obtain ⟨kept, hclosed, hkept⟩ := core'.closeTag_branch hcovered.kind_eq closing
    refine ⟨kept, core', ?_, ⟨?_, ?_⟩, hmeaning _ _ hrealizes, hfinal, ?_⟩
    · rw [BranchEnd.spell, Session.feedAll_cons, Session.feedAll_append, Session.feed, hopened,
        hafter]
      exact hclosed
    · intro frame hframe
      obtain hframe | hframe := List.mem_append.mp hframe
      · exact (hkept frame hframe).1
      · exact hcovers.kind_eq frame hframe
    · intro _
      exact hcovered.chained (List.append_ne_nil_of_right_ne_nil _ (List.cons_ne_nil _ _))
    · intro frame hframe
      obtain ⟨-, other, hother, hsame⟩ := hkept frame hframe
      obtain ⟨inner, hinner, hne⟩ := hleft other hother
      exact hname hinner (hsame ▸ hne)
  | selfClosed =>
    have hframes : (opened.covered (branch :: branches)).frames =
        branch :: (branches ++ opened.frames) := rfl
    have hclosed : (opened.covered (branch :: branches)).closeTag name closing =
        opened.covered branches :=
      Session.closeTag_innermost _ hframes closing
    have hsettled'' := hsettled'.closeTag name closing
    rw [hclosed] at hsettled''
    obtain ⟨left, core', hafter, hcovered, hrealizes, hfinal, hleft⟩ :=
      hcontent opened branches ⟨hcovers.kind_eq, fun _ => hchained⟩ hsettled'' hchain'
    refine ⟨left, core', ?_, hcovered, hmeaning _ _ hrealizes, hfinal, ?_⟩
    · rw [BranchEnd.spell, Session.feedAll_cons, Session.feedAll_cons, Session.feed, hopened,
        Session.feed, hclosed, hafter]
    · intro frame hframe
      obtain ⟨inner, hinner, hne⟩ := hleft frame hframe
      exact hname hinner hne
  | omitted =>
    obtain ⟨left, core', hafter, hcovered, hrealizes, hfinal, hleft⟩ := hinside
    rw [List.append_cons] at hafter hcovered
    refine ⟨left ++ [branch], core', ?_, hcovered, hmeaning _ _ hrealizes, hfinal, ?_⟩
    · rw [BranchEnd.spell, Session.feedAll_cons, Session.feed, hopened, hafter]
    · intro frame hframe
      obtain hframe | hframe := List.mem_append.mp hframe
      · obtain ⟨inner, hinner, hne⟩ := hleft frame hframe
        exact hname hinner hne
      · obtain rfl := List.mem_singleton.mp hframe
        exact ⟨_, hchain, hending rfl⟩

end Carries

/-- However the ends of its branches are written, a forest is compiled to what it means. -/
theorem Spelled.carries (setting : Setting) {chain final : Option Chain} {forest : Forest}
    {events : List Event} (h : Spelled (· ≠ ·) chain forest events final) :
    Carries setting chain (forest.meaning setting) events final := by
  induction h with
  | nil chain => exact .nil setting chain
  | text content span _ ihrest => exact (Carries.text setting _ content span).append ihrest
  | tag name attributes opening closing hown _ _ ihchildren ihrest =>
    have htag := (Carries.tag opening closing hown ihchildren).append ihrest
    rwa [List.cons_append, List.append_assoc, List.singleton_append] at htag
  | branch name attributes opening closing ending hbranch hending _ _ ihchildren ihrest =>
    exact (Carries.branch opening closing hbranch hending ihchildren).append ihrest

/-- A meaning leads from one session to the same function and the same problems always. -/
theorem Realizes.outcome_unique {meaning : Meaning} {before after other : Session}
    (h : Realizes meaning before after) (hother : Realizes meaning before other)
    (options : Options) :
    after.program options = other.program options ∧ after.diagnostics = other.diagnostics := by
  have htally : after.tally = other.tally := h.tally_eq.trans hother.tally_eq.symm
  have hmetadata : after.metadata = other.metadata := congrArg Tally.metadata htally
  have hpool : after.pool = other.pool := congrArg Tally.pool htally
  refine ⟨?_, h.diagnostics_eq.trans hother.diagnostics_eq.symm⟩
  unfold Session.program Listing.render
  rw [h.lines_eq, hother.lines_eq, hmetadata, hpool]

/-- Outside every conditional no branch is left open. -/
theorem Spelled.realizes (setting : Setting) {forest : Forest} {events : List Event}
    {final : Option Chain} (h : Spelled (· ≠ ·) none forest events final) :
    Realizes (forest.meaning setting) Session.start (Session.start.feedAll setting events) := by
  obtain ⟨left, core, hfed, -, hrealizes, -, hleft⟩ :=
    h.carries setting Session.start [] (covers_nil _) Session.settled_start rfl
  obtain rfl : left = [] := by
    refine List.eq_nil_iff_forall_not_mem.mpr fun frame hframe => ?_
    obtain ⟨chain, hchain, -⟩ := hleft frame hframe
    cases hchain
  exact hfed ▸ hrealizes

end TemplateCompiler.Template

namespace TemplateCompiler

open Markup (Attributes Event Span)
open Template (Forest IdSource Realizes Session Spelled alike_runSession exists_spelled_events)

/-- Where the branches of conditionals end does not matter: with the end tag of every branch behind
its content, which is one way to write any forest, directly behind its start tag or left out, a forest
is compiled to the same function, and the same problems are found in the same order. Spans may be any.
The end tag may be left out unless the branch continues a conditional of the same name, which is a
branch that was itself refused. -/
theorem branch_ends_agree (options : Options) (ids : IdSource) (size size' : Nat) {forest : Forest}
    {spelled events : List Event} (hspelled : Spelled (· ≠ ·) none forest spelled none)
    (hevents : events.map Event.unplaced = spelled.map Event.unplaced) :
    Spelled (· ≠ ·) none forest forest.events none ∧
      (runSession options ids size events).program options =
        (runSession options ids size' forest.events).program options ∧
      (runSession options ids size events).diagnostics.map Diagnostic.problem =
        (runSession options ids size' forest.events).diagnostics.map Diagnostic.problem := by
  have hforest := Realizes.forest ⟨ids, options.noStatics⟩ forest Session.settled_start
  have hwritten := hspelled.realizes ⟨ids, options.noStatics⟩
  have hfinished : runSession options ids size' forest.events =
      Session.start.feedAll ⟨ids, options.noStatics⟩ forest.events :=
    Session.finish_of_frames_eq_nil hforest.frames_eq size'
  have hspelledFinished : runSession options ids size' spelled =
      Session.start.feedAll ⟨ids, options.noStatics⟩ spelled :=
    Session.finish_of_frames_eq_nil hwritten.frames_eq size'
  obtain ⟨hprogram, hdiagnostics⟩ := hwritten.outcome_unique hforest options
  rw [← hfinished, ← hspelledFinished] at hprogram hdiagnostics
  have halike := alike_runSession options ids size size' hevents
  obtain ⟨final, hwhole, hnone⟩ := exists_spelled_events (· ≠ ·) none forest
  obtain rfl := hnone rfl
  exact ⟨hwhole, (halike.program_eq options).trans hprogram,
    halike.problems_eq.trans (congrArg _ hdiagnostics)⟩

/-- In a loop body, a conditional with two branches left open, one of them around a refused else with
    a branch of its own left open, and with a branch that ends directly behind its start tag. -/
theorem branch_ends_agree_open_branches :
    let span := Span.point 0
    let place := Span.point 1
    let condition (value : String) := Attributes.ofList [("condition", value)]
    let leaf (name : String) (rest : Forest) := Forest.tag name .empty span span .nil rest
    let refused := Forest.tag "else" .empty span span
      (.tag "elseif" (condition "d") span span (.text "d" span .nil) .nil) .nil
    let conditional := Forest.tag "if" (condition "a") span span
      (.tag "elseif" (condition "b") span span (leaf "b" .nil)
        (.tag "elseif" (condition "c") span span (.text "c" span .nil)
          (.tag "else" .empty span span (leaf "i" refused) .nil))) (leaf "u" .nil)
    let forest := Forest.tag "each" (.ofList [("expression", "row in rows")]) span span conditional
      .nil
    let events : List Event := [.opened "each" (.ofList [("expression", "row in rows")]) place,
      .opened "if" (condition "a") place, .opened "elseif" (condition "b") place,
      .opened "b" .empty place, .closed "b" place, .opened "elseif" (condition "c") place,
      .closed "elseif" place, .text "c" place, .opened "else" .empty place,
      .opened "i" .empty place, .closed "i" place, .opened "else" .empty place,
      .opened "elseif" (condition "d") place, .text "d" place, .closed "else" place,
      .closed "if" place, .opened "u" .empty place, .closed "u" place, .closed "each" place]
    (∃ spelled, Spelled (· ≠ ·) none forest spelled none ∧
      events.map Event.unplaced = spelled.map Event.unplaced) ∧
      (runSession {} (IdSource.sequential "k") 9 events).program {} =
        (runSession {} (IdSource.sequential "k") 0 forest.events).program {} ∧
      (runSession {} (IdSource.sequential "k") 9 events).diagnostics.map Diagnostic.problem =
        [.unmatchedDirective "else" (Template.ChainRefusal.message .elseSeen)] := by
  intro span place condition leaf refused conditional forest events
  have hleaf {chain : Option Template.Chain} {rest : Forest} {later : List Event}
      {final : Option Template.Chain} (name : String)
      (hown : Template.continuesChain chain name .empty = false)
      (hrest : Spelled (· ≠ ·) chain rest later final) :
      Spelled (· ≠ ·) chain (leaf name rest)
        (.opened name .empty span :: .closed name span :: later) final :=
    .tag name .empty span span hown (.nil _) hrest
  have hrefused : Spelled (· ≠ ·) (some ⟨"if", true⟩) refused _ _ :=
    .tag "else" .empty span span rfl
      (.branch "elseif" (condition "d") span span .omitted rfl (by decide)
        (.text "d" span (.nil _)) (.nil _)) (.nil _)
  have hbranches : Spelled (· ≠ ·) (some ⟨"if", false⟩) _ _ _ :=
    .branch "elseif" (condition "b") span span .omitted rfl (by decide) (hleaf "b" rfl (.nil _))
      (.branch "elseif" (condition "c") span span .selfClosed rfl (by decide)
        (.text "c" span (.nil _))
        (.branch "else" .empty span span .omitted rfl (by decide) (hleaf "i" rfl hrefused) (.nil _)))
  have hspelled : Spelled (· ≠ ·) none forest _ none :=
    .tag "each" _ span span rfl
      (.tag "if" (condition "a") span span rfl hbranches (hleaf "u" rfl (.nil _))) (.nil _)
  have hevents : events.map Event.unplaced = _ := rfl
  obtain ⟨-, hprogram, hproblems⟩ :=
    branch_ends_agree {} (IdSource.sequential "k") 9 0 hspelled hevents
  refine ⟨⟨_, hspelled, hevents⟩, hprogram, ?_⟩
  rw [hproblems]
  decide +kernel

/-- Inside a refused branch of the same name a branch needs its end tag: without it, the end tag of
    the refused branch closes the branch. -/
theorem branch_end_required_in_namesake :
    let span := Span.point 0
    let forest := Forest.tag "else" .empty span span
      (.tag "else" .empty span span (.text "x" span .nil) .nil) (.text "y" span .nil)
    let events : List Event := [.opened "else" .empty span, .opened "else" .empty span,
      .text "x" span, .closed "else" span, .text "y" span]
    Spelled (fun _ _ => True) none forest events none ∧
      ((runSession {} (IdSource.sequential "k") 0 events).program {}).body =
        ["if (true) \x7b", "\x7d else \x7b", "  text(\"x\")", "  text(\"y\")", "\x7d"] ∧
      ((runSession {} (IdSource.sequential "k") 0 forest.events).program {}).body =
        ["if (true) \x7b", "\x7d else \x7b", "  text(\"x\")", "\x7d", "text(\"y\")"] := by
  intro span forest events
  have hspelled : Spelled (fun _ _ => True) none forest _ none :=
    .tag "else" .empty span span rfl
      (.branch "else" .empty span span .omitted rfl (fun _ => trivial) (.text "x" span (.nil _))
        (.nil _)) (.text "y" span (.nil none))
  exact ⟨hspelled, by decide +kernel, by decide +kernel⟩

end TemplateCompiler
