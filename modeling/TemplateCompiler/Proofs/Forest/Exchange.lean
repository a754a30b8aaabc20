import TemplateCompiler.Proofs.Forest.Compilation
import TemplateCompiler.Proofs.Resumption

namespace TemplateCompiler.Template

open Markup (Attributes Event Span)
open Script (Line Listing)

namespace Meaning

/-- Two meanings that differ at most in the problems found. -/
def SameScript (meaning other : Meaning) : Prop :=
  ∀ place tally, (meaning place tally).1.lines = (other place tally).1.lines ∧
    (meaning place tally).2 = (other place tally).2

namespace SameScript

variable {first second third other : Meaning}

theorem refl (meaning : Meaning) : SameScript meaning meaning :=
  fun _ _ => ⟨rfl, rfl⟩

theorem symm (h : SameScript first second) : SameScript second first :=
  fun place tally => ⟨(h place tally).1.symm, (h place tally).2.symm⟩

theorem trans (h : SameScript first second) (h' : SameScript second third) :
    SameScript first third :=
  fun place tally => ⟨(h place tally).1.trans (h' place tally).1,
    (h place tally).2.trans (h' place tally).2⟩

theorem append (h : SameScript first second) (h' : SameScript third other) :
    SameScript (first ++ third) (second ++ other) := by
  intro place tally
  obtain ⟨hlines, htally⟩ := h place tally
  obtain ⟨hlines', htally'⟩ := h' place (first place tally).2
  rw [htally] at hlines' htally'
  refine ⟨?_, ?_⟩
  · change (first place tally).1.lines ++ (third place (first place tally).2).1.lines =
      (second place tally).1.lines ++ (other place (second place tally).2).1.lines
    rw [htally, hlines, hlines']
  · change (third place (first place tally).2).2 = (other place (second place tally).2).2
    rw [htally, htally']

/-- Problems in front of a part do not change its script. -/
theorem report_append (problems : List Problem) (span : Span) (meaning : Meaning) :
    SameScript (report problems span ++ meaning) meaning :=
  fun _ _ => ⟨rfl, rfl⟩

theorem checkCondition_append (directive : String) (value : Option String) (span : Span)
    (meaning : Meaning) : SameScript (checkCondition directive value span ++ meaning) meaning :=
  report_append _ span meaning

theorem indented (h : SameScript first second) :
    SameScript (.indented first) (.indented second) :=
  fun place tally => h { place with level := place.level + 1 } tally

theorem block (h : SameScript first second) (header closer : String) :
    SameScript (.block header closer first) (.block header closer second) :=
  ((refl _).append h.indented).append (refl _)

theorem within (h : SameScript first second) (kind : FrameKind) :
    SameScript (.within kind first) (.within kind second) := by
  intro place tally
  obtain ⟨hlines, htally⟩ := h (place.enter kind) (tally.enter kind)
  exact ⟨hlines, congrArg (tally.leave kind) htally⟩

theorem skipBlock (h : SameScript first second) (condition : String) :
    SameScript (.skipBlock condition first) (.skipBlock condition second) :=
  (refl _).append (h.block _ _)

theorem loopBlocks (h : SameScript first second) (number : Nat) (id : String)
    (clause : EachClause) :
    SameScript (.loopBlocks number id clause first) (.loopBlocks number id clause second) :=
  (refl _).append ((((refl _).append h).block _ _).block _ _)

theorem guarded (h : SameScript first second) (condition : Option String) (span span' : Span) :
    SameScript (.guarded condition span first) (.guarded condition span' second) := by
  cases condition with
  | none => exact h
  | some value => exact (report_append _ _ _).trans ((h.block _ _).trans (report_append _ _ _).symm)

theorem skippable (h : SameScript first second) (skip : Option String) (span span' : Span) :
    SameScript (.skippable skip span first) (.skippable skip span' second) := by
  cases skip with
  | none => exact h
  | some value =>
    exact (report_append _ _ _).trans ((h.skipBlock _).trans (report_append _ _ _).symm)

theorem numbered {repeated repeated' : Nat → Meaning}
    (h : ∀ number, SameScript (repeated number) (repeated' number)) (setting : Setting)
    (clause : EachClause) :
    SameScript (.numbered setting clause repeated) (.numbered setting clause repeated') := by
  intro place tally
  exact (h (tally.loops + 1)).loopBlocks (tally.loops + 1) (setting.ids tally.drawn) clause place _

theorem looped {repeated repeated' : Option Nat → Meaning}
    (h : ∀ number, SameScript (repeated number) (repeated' number)) (setting : Setting)
    (iteration : Option String) (span span' : Span) :
    SameScript (.looped setting iteration span repeated)
      (.looped setting iteration span' repeated') := by
  cases iteration with
  | none => exact h none
  | some expression =>
    cases hclause : EachClause.parse? expression with
    | none =>
      rw [looped_of_parse_none hclause, looped_of_parse_none hclause]
      exact (report_append _ _ _).trans ((h none).trans (report_append _ _ _).symm)
    | some clause =>
      rw [looped_of_parse hclause, looped_of_parse hclause]
      exact numbered (fun number => h (some number)) setting clause

theorem rendered (h : SameScript first second) (setting : Setting) (name : String)
    (explicit : ExplicitKey) (ownLoop : Option Nat) (classified : Classified) :
    SameScript (.rendered setting name explicit ownLoop classified first)
      (.rendered setting name explicit ownLoop classified second) :=
  fun place _ => h.block _ _ place _

theorem arranged (h : SameScript first second) (setting : Setting) (name : String)
    (explicit : ExplicitKey) (classified : Classified) (span span' : Span) :
    SameScript (.arranged setting name explicit classified span first)
      (.arranged setting name explicit classified span' second) := by
  refine guarded (looped (fun ownLoop => ?_) setting _ span span') _ span span'
  exact ((h.skippable classified.skip span span').within _).rendered setting name explicit ownLoop
    classified

end SameScript

/-- A meaning that does not ask whether it is outermost, in a script or in a conditional. -/
def Detached (meaning : Meaning) : Prop :=
  ∀ (place : Place) (tally : Tally) (outermost : Bool) (script : Option Bool)
    (chained elseSeen : Bool),
    meaning { place with outermost, script, chained } { tally with elseSeen } =
      ((meaning place tally).1, { (meaning place tally).2 with elseSeen })

namespace Detached

variable {first second content : Meaning}

theorem append (hfirst : Detached first) (hsecond : Detached second) :
    Detached (first ++ second) := by
  intro place tally outermost script chained elseSeen
  change ((first _ _).1 ++ (second _ (first _ _).2).1, (second _ (first _ _).2).2) = _
  rw [hfirst place tally outermost script chained elseSeen]
  dsimp only
  rw [hsecond place (first place tally).2 outermost script chained elseSeen]
  rfl

theorem write (text : String) : Detached (.write text) :=
  fun _ _ _ _ _ _ => rfl

theorem writeAll (texts : List String) : Detached (.writeAll texts) := by
  induction texts with
  | nil => exact fun _ _ _ _ _ _ => rfl
  | cons text texts ih => exact (write text).append ih

theorem report (problems : List Problem) (span : Span) : Detached (.report problems span) :=
  fun _ _ _ _ _ _ => rfl

theorem indented (h : Detached content) : Detached (.indented content) :=
  fun place tally outermost script chained elseSeen =>
    h { place with level := place.level + 1 } tally outermost script chained elseSeen

theorem block (h : Detached content) (header closer : String) :
    Detached (.block header closer content) :=
  ((write header).append h.indented).append (write closer)

/-- What a tag encloses is told where it is by the tag. -/
theorem within {kind : FrameKind} (hbranch : kind.isBranch = false) (content : Meaning) :
    Detached (.within kind content) := by
  intro place tally outermost script chained elseSeen
  have hplace : Place.enter { place with outermost, script, chained } kind = place.enter kind := by
    simp only [Place.enter, hbranch]
    rfl
  have htally : Tally.enter { tally with elseSeen } kind = tally.enter kind := by
    simp only [Tally.enter, hbranch]
    rfl
  unfold Meaning.within
  rw [hplace, htally]
  simp only [Tally.leave, hbranch]
  rfl

theorem loopBlocks (h : Detached content) (number : Nat) (id : String) (clause : EachClause) :
    Detached (.loopBlocks number id clause content) := by
  have hkey : Detached (.writeKey number id clause) := fun _ _ _ _ _ _ => rfl
  exact (write _).append (((((writeAll _).append hkey).append h).block _ _).block _ _)

theorem guarded (h : Detached content) (condition : Option String) (span : Span) :
    Detached (.guarded condition span content) := by
  cases condition with
  | none => exact h
  | some value => exact (report _ span).append (h.block _ _)

theorem numbered {repeated : Nat → Meaning} (h : ∀ number, Detached (repeated number))
    (setting : Setting) (clause : EachClause) : Detached (.numbered setting clause repeated) := by
  intro place tally outermost script chained elseSeen
  have hblocks := (h (tally.loops + 1)).loopBlocks (tally.loops + 1) (setting.ids tally.drawn) clause
  exact hblocks place { tally with loops := tally.loops + 1, drawn := tally.drawn + 1 } outermost script
    chained elseSeen

theorem looped {repeated : Option Nat → Meaning} (h : ∀ number, Detached (repeated number))
    (setting : Setting) (iteration : Option String) (span : Span) :
    Detached (.looped setting iteration span repeated) := by
  cases iteration with
  | none => exact h none
  | some expression =>
    cases hclause : EachClause.parse? expression with
    | none =>
      rw [looped_of_parse_none hclause]
      exact (report _ span).append (h none)
    | some clause =>
      rw [looped_of_parse hclause]
      exact numbered (fun number => h (some number)) setting clause

theorem rendered (h : Detached content) (setting : Setting) (name : String)
    (explicit : ExplicitKey) (ownLoop : Option Nat) (classified : Classified) :
    Detached (.rendered setting name explicit ownLoop classified content) := by
  intro place tally outermost script chained elseSeen
  have hkey : elementKey explicit ownLoop { place with outermost, script, chained }
      { tally with elseSeen } =
      ((elementKey explicit ownLoop place tally).1,
        { (elementKey explicit ownLoop place tally).2 with elseSeen }) := by
    unfold elementKey
    cases explicit <;> cases ownLoop <;> cases place.body <;> rfl
  have hstatics (key : Option String) (tally : Tally) :
      hoisted setting classified.statics key { tally with elseSeen } =
        ((hoisted setting classified.statics key tally).1,
          (hoisted setting classified.statics key tally).2.1,
          { (hoisted setting classified.statics key tally).2.2 with elseSeen }) := by
    unfold hoisted
    split
    · rfl
    · cases key <;> rfl
  simp only [Meaning.rendered, hkey, hstatics]
  exact h.block _ _ place _ outermost script chained elseSeen

theorem arranged (setting : Setting) (name : String) (explicit : ExplicitKey)
    (classified : Classified) (span : Span) (content : Meaning) :
    Detached (.arranged setting name explicit classified span content) :=
  guarded (looped (fun _ => rendered (within rfl _) setting name explicit _ classified) setting _ span)
    _ span

/-- In a conditional of its own, such a meaning is what it is outside. -/
theorem within_conditional (h : Detached content) :
    Meaning.within (.conditional false) content = content := by
  funext place tally
  have hinside : content (place.enter (.conditional false)) (tally.enter (.conditional false)) =
      ((content place tally).1, { (content place tally).2 with elseSeen := false }) :=
    h place tally false none true false
  have hkept : content place tally =
      ((content place tally).1, { (content place tally).2 with elseSeen := tally.elseSeen }) :=
    h place tally place.outermost place.script place.chained tally.elseSeen
  unfold Meaning.within
  rw [hinside, hkept]
  rfl

end Detached

end Meaning

/-- Two ways to go on from one state that hand on the same lead to the same state, apart from what
    was written and found. -/
theorem Realizes.core_eq {meaning other : Meaning} {before after after' : Session}
    (h : Realizes meaning before after) (h' : Realizes other before after')
    (htally : (meaning before.place before.tally).2 = (other before.place before.tally).2) :
    after.core = after'.core := by
  have hafter : after.tally = after'.tally := by rw [h.tally_eq, h'.tally_eq, htally]
  have hframes : after.frames = after'.frames := by rw [h.frames_eq, h'.frames_eq, hafter]
  have hpool : after.pool = after'.pool := congrArg Tally.pool hafter
  have hloops : after.loops = after'.loops := congrArg Tally.loops hafter
  have hdrawn : after.drawn = after'.drawn := congrArg Tally.drawn hafter
  have hmetadata : after.metadata = after'.metadata := congrArg Tally.metadata hafter
  unfold Session.core
  rw [hframes, hpool, hloops, hdrawn, hmetadata]

/-- What follows a state adds lines behind those that are written, and what it adds depends on the
    core and the level only. -/
theorem Session.program_finish_feedAll (options : Options) (setting : Setting) (size : Nat)
    (session : Session) (events : List Event) :
    let resumed := (session.core.feedAll setting events).finish size
    ((session.feedAll setting events).finish size).program options =
      { resumed.program options with
        body := session.listing.render options.indentWidth ++
          (Script.placeSteps session.listing.level resumed.listing.steps).map
            (Line.render options.indentWidth) } := by
  intro resumed
  have hresumed : (session.feedAll setting events).finish size =
      resumed.behind session.listing.steps session.diagnostics := by
    rw [feedAll_eq_behind_core, finish_behind]
  have hlines := Listing.lines_behind session.listing resumed.listing
  rw [hresumed]
  unfold Session.program Listing.render
  rw [← List.map_append, ← hlines]
  rfl

/-- From two states with the same core at the same level, the same events lead to programs that
    differ at most in what was written before. -/
theorem Session.exists_program_eq {session other : Session} (hcore : session.core = other.core)
    (hlevel : session.listing.level = other.listing.level) (options : Options) (setting : Setting)
    (size : Nat) (events : List Event) :
    let program (session : Session) :=
      ((session.feedAll setting events).finish size).program options
    ∃ after,
      program session =
          { program other with body := session.listing.render options.indentWidth ++ after } ∧
        (program other).body = other.listing.render options.indentWidth ++ after := by
  intro program
  have hsession := program_finish_feedAll options setting size session events
  have hother := program_finish_feedAll options setting size other events
  rw [hcore, hlevel] at hsession
  refine ⟨_, ?_, congrArg Package.Program.body hother⟩
  change program session = _ at hsession
  change program other = _ at hother
  rw [hsession, hother]

/-- Of forests that hand on the same, either can be next: the programs differ at most in the lines
    of the forests. -/
theorem Session.exists_program_exchange {start : Session} (hsettled : start.Settled)
    (setting : Setting) {forest other : Forest} {lines lines' : List Line}
    (hlines : start.listing.lines ++
      (forest.meaning setting start.place start.tally).1.lines = lines)
    (hlines' : start.listing.lines ++
      (other.meaning setting start.place start.tally).1.lines = lines')
    (htally : (forest.meaning setting start.place start.tally).2 =
      (other.meaning setting start.place start.tally).2)
    (options : Options) (size : Nat) (events : List Event) :
    let program (forest : Forest) :=
      (((start.feedAll setting forest.events).feedAll setting events).finish size).program options
    ∃ after,
      program forest =
          { program other with body := lines.map (Line.render options.indentWidth) ++ after } ∧
        (program other).body = lines'.map (Line.render options.indentWidth) ++ after := by
  have hforest := Realizes.forest setting forest hsettled
  have hother := Realizes.forest setting other hsettled
  rw [← hlines, ← hlines', ← hforest.lines_eq, ← hother.lines_eq]
  exact exists_program_eq (hforest.core_eq hother htally)
    (hforest.level_eq.trans hother.level_eq.symm) options setting size events

end TemplateCompiler.Template

namespace TemplateCompiler

open Markup (Event)
open Template (Forest IdSource Session Setting)

/-- A run goes through the events of a forest between those before and those behind it. -/
theorem runSession_append (options : Options) (ids : IdSource) (size : Nat)
    (before events behind : List Event) :
    let setting : Setting := ⟨ids, options.noStatics⟩
    runSession options ids size (before ++ events ++ behind) =
      (((Session.start.feedAll setting before).feedAll setting events).feedAll setting
        behind).finish size := by
  rw [runSession, Session.feedAll_append, Session.feedAll_append]

/-- Forests that differ at most in the problems found in them may be exchanged in any template,
balanced or not. -/
theorem program_exchange {forest other : Forest}
    (hsame : ∀ setting, (forest.meaning setting).SameScript (other.meaning setting))
    (options : Options) (ids : IdSource) (size : Nat) (before behind : List Event) :
    (runSession options ids size (before ++ forest.events ++ behind)).program options =
      (runSession options ids size (before ++ other.events ++ behind)).program options := by
  let setting : Setting := ⟨ids, options.noStatics⟩
  let start := Session.start.feedAll setting before
  have hsettled : start.Settled := Session.settled_start.feedAll setting before
  obtain ⟨hlines, htally⟩ := hsame setting start.place start.tally
  obtain ⟨after, hprogram, hbody⟩ := Session.exists_program_exchange hsettled setting
    (congrArg (start.listing.lines ++ ·) hlines) rfl htally options size behind
  rw [← hbody] at hprogram
  rw [runSession_append, runSession_append]
  exact hprogram

end TemplateCompiler
