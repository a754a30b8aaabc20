import TemplateCompiler.Proofs.EventSteps
import TemplateCompiler.Proofs.Numerals

namespace TemplateCompiler.Template

open Markup (Attributes Event Span)
open Script (Listing)

namespace Phrase

/-- The iteration and the number of the loop that a phrase starts. -/
def header? : Phrase → Option (EachClause × Nat)
  | loopStart number _ _ clause => some (clause, number)
  | _ => none

/-- The number of the loop that a phrase ends. -/
def loopEnd? : Phrase → Option Nat
  | loopEnd number => some number
  | _ => none

/-- The loops whose key variable a phrase refers to. -/
def loopKeys : Phrase → List Nat
  | loopStart _ outer _ _ => outer.toList
  | elementStart _ key _ _ => (key.bind ElementKey.loop?).toList
  | _ => []

/-- A phrase that has nothing to do with loops. -/
def Plain (phrase : Phrase) : Prop :=
  phrase.header? = none ∧ phrase.loopEnd? = none ∧ phrase.loopKeys = []

end Phrase

/-- The loops whose header is among the phrases. -/
def startedLoops (phrases : List Phrase) : List Nat :=
  (phrases.filterMap Phrase.header?).map Prod.snd

theorem startedLoops_cons (phrase : Phrase) (phrases : List Phrase) :
    startedLoops (phrase :: phrases) =
      phrase.header?.toList.map Prod.snd ++ startedLoops phrases := by
  unfold startedLoops
  rw [List.filterMap_cons]
  cases phrase.header? <;> rfl

theorem startedLoops_cons_of_none {phrase : Phrase} {phrases : List Phrase}
    (hnone : phrase.header? = none) : startedLoops (phrase :: phrases) = startedLoops phrases := by
  rw [startedLoops_cons, hnone]
  rfl

/-- Phrases that may stand where `loops` are open, and leave `final` open: loops end innermost first,
    and only the key of the innermost one is referred to. -/
inductive Scoped : List Nat → List Phrase → List Nat → Prop where
  | nil (loops : List Nat) : Scoped loops [] loops
  | loopStart {loops final : List Nat} {phrases : List Phrase} (number : Nat) (id : String)
      (clause : EachClause) (hrest : Scoped (number :: loops) phrases final) :
      Scoped loops (.loopStart number loops.head? id clause :: phrases) final
  | loopEnd {loops final : List Nat} {phrases : List Phrase} (number : Nat)
      (hrest : Scoped loops phrases final) :
      Scoped (number :: loops) (.loopEnd number :: phrases) final
  | inside {loops final : List Nat} {phrase : Phrase} {phrases : List Phrase}
      (hstart : phrase.header? = none) (hend : phrase.loopEnd? = none)
      (hkeys : ∀ number ∈ phrase.loopKeys, loops.head? = some number)
      (hrest : Scoped loops phrases final) : Scoped loops (phrase :: phrases) final

/-- Loops with falling numbers from the innermost one on, none above `last`. -/
def Descending (last : Nat) (loops : List Nat) : Prop :=
  loops.Pairwise (· > ·) ∧ ∀ number ∈ loops, number ≤ last

theorem Descending.next {last : Nat} {loops : List Nat} (h : Descending last loops) :
    Descending (last + 1) ((last + 1) :: loops) := by
  obtain ⟨hfalling, hbound⟩ := h
  refine ⟨List.pairwise_cons.mpr ⟨?_, hfalling⟩, ?_⟩
  · intro number hnumber
    exact Nat.lt_succ_of_le (hbound number hnumber)
  · intro number hnumber
    obtain rfl | hnumber := List.mem_cons.mp hnumber
    · exact Nat.le_refl _
    · exact Nat.le_succ_of_le (hbound number hnumber)

namespace Scoped

variable {loops middle final : List Nat} {phrases later : List Phrase}

theorem append (h : Scoped loops phrases middle) (hlater : Scoped middle later final) :
    Scoped loops (phrases ++ later) final := by
  induction h with
  | nil loops => exact hlater
  | loopStart number id clause hrest ih => exact loopStart number id clause (ih hlater)
  | loopEnd number hrest ih => exact loopEnd number (ih hlater)
  | inside hstart hend hkeys hrest ih => exact inside hstart hend hkeys (ih hlater)

theorem of_plain (loops : List Nat) {phrases : List Phrase}
    (hplain : ∀ phrase ∈ phrases, phrase.Plain) : Scoped loops phrases loops := by
  induction phrases with
  | nil => exact nil loops
  | cons phrase phrases ih =>
    obtain ⟨hstart, hend, hkeys⟩ := hplain phrase List.mem_cons_self
    refine inside hstart hend ?_ (ih fun other hother =>
      hplain other (List.mem_cons_of_mem _ hother))
    rw [hkeys]
    exact List.forall_mem_nil _

theorem exists_of_append (h : Scoped loops (phrases ++ later) final) :
    ∃ middle, Scoped loops phrases middle ∧ Scoped middle later final := by
  induction phrases generalizing loops with
  | nil => exact ⟨loops, nil loops, h⟩
  | cons phrase phrases ih =>
    cases h with
    | loopStart number id clause hrest =>
      obtain ⟨middle, hphrases, hlater⟩ := ih hrest
      exact ⟨middle, loopStart number id clause hphrases, hlater⟩
    | loopEnd number hrest =>
      obtain ⟨middle, hphrases, hlater⟩ := ih hrest
      exact ⟨middle, loopEnd number hphrases, hlater⟩
    | inside hstart hend hkeys hrest =>
      obtain ⟨middle, hphrases, hlater⟩ := ih hrest
      exact ⟨middle, inside hstart hend hkeys hphrases, hlater⟩

/-- If loops are numbered as they start, the open ones have falling numbers from the innermost one
    on. -/
theorem descending (h : Scoped loops phrases final) {last count : Nat}
    (hnumbers : startedLoops phrases = List.range' (last + 1) count)
    (hloops : Descending last loops) : Descending (last + count) final := by
  induction h generalizing last count with
  | nil loops =>
    obtain ⟨hfalling, hbound⟩ := hloops
    exact ⟨hfalling, fun number hnumber => Nat.le_add_right_of_le (hbound number hnumber)⟩
  | loopStart number id clause hrest ih =>
    cases count with
    | zero => cases hnumbers
    | succ count =>
      rw [List.range'_succ] at hnumbers
      obtain ⟨hnumber, hrestNumbers⟩ := List.cons.inj hnumbers
      obtain rfl : number = last + 1 := hnumber
      have hfinal := ih hrestNumbers hloops.next
      rw [Nat.add_right_comm, Nat.add_assoc] at hfinal
      exact hfinal
  | loopEnd number hrest ih =>
    obtain ⟨hfalling, hbound⟩ := hloops
    exact ih hnumbers ⟨hfalling.tail, fun other hother =>
      hbound other (List.mem_cons_of_mem _ hother)⟩
  | inside hstart hend hkeys hrest ih =>
    rw [startedLoops_cons_of_none hstart] at hnumbers
    exact ih hnumbers hloops

end Scoped

section Declarations

section Lines

end Lines

/-- The pieces of script in which a template may declare variables of its own. -/
def Phrase.given : Phrase → List String
  | literal code => [code]
  | loopStart number _ _ clause => (bindingLines number clause).tail
  | _ => []

end Declarations

section OpenTags

/-- The numbers of the loops that the open tags run, innermost first. -/
def loopNumbers (frames : List Frame) : List Nat :=
  frames.filterMap Frame.loop?

theorem loopNumbers_cons (frame : Frame) (frames : List Frame) :
    loopNumbers (frame :: frames) = frame.loop?.toList ++ loopNumbers frames := by
  unfold loopNumbers
  cases hloop : frame.loop? with
  | none => rw [List.filterMap_cons_none hloop]; rfl
  | some number => rw [List.filterMap_cons_some hloop]; rfl

theorem loopNumbers_eq (frames : List Frame) :
    loopNumbers frames = (frames.map Frame.loop?).filterMap id := by
  rw [List.filterMap_map]
  rfl

@[simp]
theorem loopNumbers_setElseSeen (elseSeen : Bool) (frames : List Frame) :
    loopNumbers (setElseSeen elseSeen frames) = loopNumbers frames := by
  rw [loopNumbers_eq, loopNumbers_eq, setElseSeen, map_changeReached (loop?_withElseSeen elseSeen)]

theorem enclosingLoop_eq_head? (frames : List Frame) :
    enclosingLoop frames = (loopNumbers frames).head? :=
  List.head?_filterMap.symm

/-- The loop whose body a child stands in is the innermost one, since the tags in between run none. -/
theorem head?_loopNumbers_of_eachBody {frames : List Frame} {loop : Loop}
    (hbody : eachBody frames = some loop) : (loopNumbers frames).head? = some loop.number := by
  induction frames with
  | nil => cases hbody
  | cons frame frames ih =>
    rw [eachBody_cons] at hbody
    obtain ⟨name, kind, span⟩ := frame
    cases kind with
    | conditional | branch | skip => exact ih hbody
    | each own =>
      have hown : own = some loop := hbody
      rw [hown]
      rfl
    | template | literal | element => cases hbody

theorem plain_if (closed : Bool) :
    ∀ phrase ∈ if closed then [Phrase.ifEnd] else [], phrase.Plain := by
  cases closed with
  | false => exact List.forall_mem_nil _
  | true =>
    intro phrase hphrase
    obtain rfl := List.mem_singleton.mp hphrase
    exact ⟨rfl, rfl, rfl⟩

theorem plain_singleton {phrase : Phrase} (hplain : phrase.Plain) :
    ∀ other ∈ [phrase], other.Plain := by
  intro other hother
  obtain rfl := List.mem_singleton.mp hother
  exact hplain

theorem plain_skipPhrases (condition : String) :
    ∀ phrase ∈ skipPhrases condition, phrase.Plain := by
  simp [skipPhrases, Phrase.Plain, Phrase.header?, Phrase.loopEnd?, Phrase.loopKeys]

theorem headers_of_plain {phrases : List Phrase} (hplain : ∀ phrase ∈ phrases, phrase.Plain) :
    phrases.filterMap Phrase.header? = [] :=
  List.filterMap_eq_nil_iff.mpr fun phrase hphrase => (hplain phrase hphrase).1

/-- Closing a tag ends the loop that it runs. -/
theorem Frame.scoped_closing (frame : Frame) (loops : List Nat) :
    Scoped (frame.loop?.toList ++ loops) frame.closing loops := by
  obtain ⟨name, kind, span⟩ := frame
  rcases kind with _ | _ | _ | _ | _ | (_ | loop) | ⟨guarded, loop, skip⟩
  case template | literal | branch | each.none => exact .nil loops
  case conditional | skip => exact .of_plain loops (plain_singleton ⟨rfl, rfl, rfl⟩)
  case each.some => exact .loopEnd loop.number (.nil loops)
  case element =>
    have hloop : Scoped (loop.toList ++ loops) (loop.toList.map .loopEnd) loops := by
      cases loop with
      | none => exact .nil loops
      | some number => exact .loopEnd number (.nil loops)
    have helement : (Phrase.elementEnd name).Plain := ⟨rfl, rfl, rfl⟩
    refine Scoped.append (.of_plain _ (plain_if skip)) ?_
    rw [List.singleton_append.symm]
    refine Scoped.append (.of_plain _ (plain_singleton helement)) ?_
    exact hloop.append (.of_plain _ (plain_if guarded))

theorem headers_closing (frames : List Frame) :
    (frames.flatMap Frame.closing).filterMap Phrase.header? = [] := by
  rw [List.filterMap_eq_nil_iff]
  intro phrase hphrase
  have hend := isEnd_of_mem_closing hphrase
  cases phrase with
  | loopStart => cases hend
  | _ => rfl

/-- Closing open tags ends the loops that they run. -/
theorem scoped_closing (frames outer : List Frame) :
    Scoped (loopNumbers (frames ++ outer)) (frames.flatMap Frame.closing) (loopNumbers outer) := by
  induction frames with
  | nil => exact .nil _
  | cons frame frames ih =>
    rw [List.flatMap_cons, List.cons_append, loopNumbers_cons]
    exact (frame.scoped_closing _).append ih

end OpenTags

namespace Rendering

variable (setting : Setting) (rendering : Rendering)

/-- Where an element is opened, the loop that its key refers to is the innermost one: its own, or
    the loop whose body it stands in if it has none. -/
theorem head?_of_loop?_key {number : Nat}
    (hkey : (rendering.key setting).bind ElementKey.loop? = some number) :
    ((rendering.ownLoop? setting).toList ++ loopNumbers rendering.session.frames).head? =
      some number := by
  obtain ⟨key, hkey, hloop⟩ := Option.bind_eq_some_iff.mp hkey
  obtain ⟨text, rfl⟩ | ⟨id, rfl⟩ | ⟨own, rfl, hown⟩ | ⟨loop, rfl, -, hnone, hbody⟩ := key_cases hkey
  · cases hloop
  · cases hloop
  · rw [hown]
    exact hloop
  · rw [hnone]
    exact (head?_loopNumbers_of_eachBody hbody).trans hloop

theorem plain_guard (condition : Option String) :
    ∀ phrase ∈ condition.toList.map fun value =>
      Phrase.ifStart (conditionExpression (some value)), phrase.Plain := by
  intro phrase hphrase
  obtain ⟨value, -, rfl⟩ := List.mem_map.mp hphrase
  exact ⟨rfl, rfl, rfl⟩

theorem plain_behind : ∀ phrase ∈ rendering.behind setting, phrase.Plain := by
  intro phrase hphrase
  obtain ⟨value, -, hskip⟩ := List.mem_flatMap.mp hphrase
  exact plain_skipPhrases _ phrase hskip

/-- The phrases of an element open its own loop, and refer to the innermost loop only. -/
theorem scoped_phrases :
    Scoped (loopNumbers rendering.session.frames) (rendering.phrases setting)
      ((rendering.ownLoop? setting).toList ++ loopNumbers rendering.session.frames) := by
  have hbefore : Scoped (loopNumbers rendering.session.frames) (rendering.before setting)
      ((rendering.ownLoop? setting).toList ++ loopNumbers rendering.session.frames) := by
    refine Scoped.append (.of_plain _ (plain_guard _)) ?_
    unfold ownLoop?
    cases rendering.clause? setting with
    | none => exact .nil _
    | some clause =>
      rw [enclosingLoop_eq_head?]
      exact .loopStart _ _ _ (.nil _)
  refine hbefore.append (.inside rfl rfl ?_ (.of_plain _ (rendering.plain_behind setting)))
  intro number hnumber
  exact rendering.head?_of_loop?_key setting (Option.mem_toList.mp hnumber)

theorem headers_phrases :
    (rendering.phrases setting).filterMap Phrase.header? =
      (rendering.clause? setting).toList.zipIdx (rendering.session.loops + 1) := by
  have hbehind := headers_of_plain (rendering.plain_behind setting)
  have hstart : (rendering.start setting).header? = none := rfl
  rw [phrases, List.filterMap_append, List.filterMap_cons_none hstart, hbehind, List.append_nil,
    before, List.filterMap_append, headers_of_plain (plain_guard _), List.nil_append]
  cases rendering.clause? setting with
  | none => rfl
  | some clause => rfl

theorem loopNumbers_counted :
    loopNumbers (rendering.counted setting) = loopNumbers rendering.session.frames := by
  rw [loopNumbers_eq, Session.map_counted setting rendering loop?_withChildren, ← loopNumbers_eq]

end Rendering

namespace Session

variable (setting : Setting) (session : Session)

theorem plain_branchPhrase (isElse : Bool) (condition : String) (frames : List Frame) :
    (branchPhrase isElse condition frames).Plain := by
  unfold branchPhrase
  split <;> exact ⟨rfl, rfl, rfl⟩

/-- A tag that is no element writes nothing about loops, unless it runs one. -/
theorem directivePhrases_cases (name : String) (attributes : Attributes) :
    (∃ clause, eachClause? name attributes = some clause ∧
      session.directivePhrases setting name attributes =
        [.loopStart (session.loops + 1) (enclosingLoop session.frames) (setting.ids session.drawn)
          clause]) ∨
      eachClause? name attributes = none ∧
        ∀ phrase ∈ session.directivePhrases setting name attributes, phrase.Plain := by
  cases hclause : eachClause? name attributes with
  | some clause =>
    refine .inl ⟨clause, rfl, ?_⟩
    unfold eachClause? at hclause
    split at hclause
    · rename_i hkind
      simp only [directivePhrases, hkind, eachClause?, if_true, hclause]
      rfl
    · cases hclause
  | none =>
    refine .inr ⟨rfl, ?_⟩
    unfold directivePhrases
    rw [hclause]
    cases TagKind.of name attributes with
    | ifTag => exact plain_singleton ⟨rfl, rfl, rfl⟩
    | elseIfTag | elseTag => exact plain_singleton (plain_branchPhrase _ _ _)
    | skipTag => exact plain_skipPhrases _
    | eachTag | script | metadata | element => exact List.forall_mem_nil _

theorem plain_textPhrases (content : String) :
    ∀ phrase ∈ session.textPhrases content, phrase.Plain := by
  unfold textPhrases
  split
  · exact List.forall_mem_nil _
  · split
    · exact List.forall_mem_nil _
    · exact plain_singleton ⟨rfl, rfl, rfl⟩
    · exact plain_singleton ⟨rfl, rfl, rfl⟩

/-- The phrases of an event are scoped by the loops of the open tags before and behind it. -/
theorem scoped_phrases (event : Event) :
    Scoped (loopNumbers session.frames) (session.phrases setting event)
      (loopNumbers (session.feed setting event).frames) := by
  cases event with
  | opened name attributes span =>
    rw [feed]
    cases hrendering : session.rendering? (.opened name attributes span) with
    | none =>
      obtain ⟨kind, elseSeen, hframes, hloop, -⟩ := exists_frames_directive setting hrendering
      have hopen : (⟨name, kind, span⟩ : Frame).loop? = _ := hloop
      rw [phrases_of_directive setting hrendering, hframes, loopNumbers_cons,
        loopNumbers_setElseSeen, hopen]
      obtain ⟨clause, hclause, hphrases⟩ | ⟨hclause, hplain⟩ :=
        session.directivePhrases_cases setting name attributes
      · rw [hclause, hphrases, enclosingLoop_eq_head?]
        exact .loopStart _ _ _ (.nil _)
      · rw [hclause]
        exact .of_plain _ hplain
    | some rendering =>
      obtain rfl := session_of_rendering? hrendering
      rw [phrases_of_rendering setting hrendering, openTag_rendering_eq setting hrendering,
        loopNumbers_cons, rendering.loopNumbers_counted]
      exact rendering.scoped_phrases setting
  | text content span =>
    rw [feed, addText_eq]
    exact .of_plain _ (session.plain_textPhrases content)
  | closed name span =>
    have hclosing := scoped_closing (session.closedBy name) (session.closeTag name span).frames
    rw [closedBy_append_frames] at hclosing
    exact hclosing

/-- The iteration that an event opens a loop for. -/
def iteration? (event : Event) : Option EachClause :=
  match session.rendering? event, event with
  | some rendering, _ => rendering.clause? setting
  | none, .opened name attributes _ => eachClause? name attributes
  | none, _ => none

/-- The iterations that a list of events opens loops for, in document order. -/
def iterations (setting : Setting) : Session → List Event → List EachClause
  | _, [] => []
  | session, event :: events =>
    (session.iteration? setting event).toList ++
      iterations setting (session.feed setting event) events

/-- An event that can be iterated takes the next number for its loop. -/
theorem headers_phrases (event : Event) :
    (session.phrases setting event).filterMap Phrase.header? =
        (session.iteration? setting event).toList.zipIdx (session.loops + 1) ∧
      (session.feed setting event).loops =
        session.loops + (session.iteration? setting event).toList.length := by
  cases event with
  | opened name attributes span =>
    rw [feed]
    cases hrendering : session.rendering? (.opened name attributes span) with
    | none =>
      have hiteration : session.iteration? setting (.opened name attributes span) =
          eachClause? name attributes := by simp only [iteration?, hrendering]
      rw [phrases_of_directive setting hrendering, openTag_directive_eq setting hrendering,
        hiteration]
      refine ⟨?_, rfl⟩
      obtain ⟨clause, hclause, hphrases⟩ | ⟨hclause, hplain⟩ :=
        session.directivePhrases_cases setting name attributes
      · rw [hclause, hphrases]
        rfl
      · rw [hclause]
        exact headers_of_plain hplain
    | some rendering =>
      obtain rfl := session_of_rendering? hrendering
      have hiteration : rendering.session.iteration? setting (.opened name attributes span) =
          rendering.clause? setting := by simp only [iteration?, hrendering]
      rw [phrases_of_rendering setting hrendering, openTag_rendering_eq setting hrendering,
        hiteration]
      exact ⟨rendering.headers_phrases setting, rfl⟩
  | text content span =>
    rw [feed, addText_eq]
    exact ⟨headers_of_plain (session.plain_textPhrases content), rfl⟩
  | closed name span =>
    rw [feed, closeTag_eq]
    exact ⟨headers_closing _, rfl⟩

theorem scoped_script (events : List Event) :
    Scoped (loopNumbers session.frames) (session.script setting events)
      (loopNumbers (session.feedAll setting events).frames) := by
  induction events generalizing session with
  | nil => exact .nil _
  | cons event events ih => exact (session.scoped_phrases setting event).append (ih _)

theorem headers_script (events : List Event) :
    (session.script setting events).filterMap Phrase.header? =
        (session.iterations setting events).zipIdx (session.loops + 1) ∧
      (session.feedAll setting events).loops =
        session.loops + (session.iterations setting events).length := by
  induction events generalizing session with
  | nil => exact ⟨rfl, rfl⟩
  | cons event events ih =>
    obtain ⟨hheaders, hloops⟩ := session.headers_phrases setting event
    obtain ⟨hlater, hall⟩ := ih (session.feed setting event)
    rw [hloops] at hlater hall
    constructor
    · rw [script, List.filterMap_append, hheaders, hlater, iterations, List.zipIdx_append,
        Nat.add_right_comm]
    · rw [feedAll_cons, hall, iterations, List.length_append, Nat.add_assoc]

/-- The open tags have loops with falling numbers from the innermost one on, since a loop takes a
    number above all that were taken before it. -/
theorem descending_feedAll {session : Session}
    (hsession : Descending session.loops (loopNumbers session.frames)) (events : List Event) :
    Descending (session.feedAll setting events).loops
      (loopNumbers (session.feedAll setting events).frames) := by
  obtain ⟨hheaders, hloops⟩ := session.headers_script setting events
  have hnumbers : startedLoops (session.script setting events) =
      List.range' (session.loops + 1) (session.iterations setting events).length := by
    rw [startedLoops, hheaders, List.zipIdx_map_snd]
  rw [hloops]
  exact (session.scoped_script setting events).descending hnumbers hsession

theorem descending_start : Descending start.loops (loopNumbers start.frames) :=
  ⟨List.Pairwise.nil, nofun⟩

end Session

end TemplateCompiler.Template
