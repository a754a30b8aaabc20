import TemplateCompiler.Proofs.ChildKeys
import TemplateCompiler.Proofs.PoolOperations
import TemplateCompiler.Proofs.StaticAttributes

namespace TemplateCompiler.Template

open Markup (Attribute Attributes Event Span)

theorem sortByName_eq_nil_iff {entries : List Attribute} :
    sortByName entries = [] ↔ entries = [] := by
  constructor
  · intro hnil
    have hperm := sortByName_perm entries
    rw [hnil] at hperm
    exact hperm.nil_eq.symm
  · rintro rfl
    rfl

namespace Rendering

/-- The static attributes of an element, in the order in which they are declared. -/
def literals (setting : Setting) (rendering : Rendering) : List Attribute :=
  if rendering.explicit = .empty ∨ setting.noStatics = true then []
  else (rendering.attributes.erase "key").entries.filter fun entry =>
    AttributeRole.ofAttribute entry = .literal

/-- The text of the array of an element's static attributes, if it has any. -/
def array? (setting : Setting) (rendering : Rendering) : Option String :=
  if rendering.literals setting = [] then none
  else some (serializeStatics (sortByName (rendering.literals setting)))

variable (setting : Setting) (rendering : Rendering)

theorem statics_classified :
    (rendering.classified setting).statics = sortByName (rendering.literals setting) := by
  simp only [classified, literals]
  by_cases hnone : rendering.explicit = .empty ∨ setting.noStatics = true
  · rw [if_pos hnone]
    have hflag : (decide (rendering.explicit = .empty) || setting.noStatics) = true := by
      simpa using hnone
    rw [hflag]
    rfl
  · rw [if_neg hnone]
    have hflag : (decide (rendering.explicit = .empty) || setting.noStatics) = false := by
      simpa using hnone
    rw [hflag]
    rfl

theorem array?_eq_none_iff :
    rendering.array? setting = none ↔ rendering.literals setting = [] := by
  simp [array?]

theorem eq_of_array?_eq_some {setting : Setting} {rendering : Rendering} {array : String}
    (harray : rendering.array? setting = some array) :
    array = serializeStatics (sortByName (rendering.literals setting)) :=
  (Option.some.inj (Option.ite_none_left_eq_some.mp harray).2).symm

/-- An element is opened with the identifier that its array has when its tag is met. -/
theorem identifier_eq :
    rendering.identifier setting =
      (rendering.array? setting).map rendering.session.pool.identifierOf := by
  simp only [identifier, array?, statics_classified, sortByName_eq_nil_iff]
  split <;> rfl

end Rendering

/-- An open tag: its name, and whether it is a hoisted script. -/
structure OpenTag where
  name : String
  hoisted : Bool
deriving DecidableEq, Repr

namespace OpenTag

/-- A tag once it is opened. -/
def ofTag (name : String) (attributes : Attributes) : OpenTag :=
  ⟨name, TagKind.of name attributes == .script && attributes.contains "hoisted"⟩

/-- What is kept of a tag while it is open. -/
def ofFrame (frame : Frame) : OpenTag :=
  ⟨frame.name, frame.kind.script? == some true⟩

/-- The open tags behind an event, innermost first. An end tag closes the innermost tag of its name
    with all tags inside it, or nothing if there is none. -/
def after (tags : List OpenTag) : Event → List OpenTag
  | .opened name attributes _ => ofTag name attributes :: tags
  | .text _ _ => tags
  | .closed name _ =>
    match tags.dropWhile (·.name != name) with
    | [] => tags
    | _ :: outer => outer

/-- The trimmed text of an event directly inside a hoisted script, unless it is blank. -/
def hoistedText? (tags : List OpenTag) : Event → Option String
  | .text content _ =>
    if tags.head?.map hoisted = some true ∧ ¬Text.allBlank content then
      some (Text.trimmed content)
    else none
  | _ => none

/-- The texts of the hoisted scripts, in document order. -/
def hoistedTexts : List OpenTag → List Event → List String
  | _, [] => []
  | tags, event :: events =>
    (hoistedText? tags event).toList ++ hoistedTexts (after tags event) events

end OpenTag

namespace Session

open HoistPool (Operation)

variable (setting : Setting) (session : Session)

section OpenTags

/-- The open tags of a session. -/
def openTags : List OpenTag :=
  session.frames.map OpenTag.ofFrame

theorem ofFrame_directiveKind (name : String) (attributes : Attributes) (span : Span) :
    OpenTag.ofFrame ⟨name, session.directiveKind name attributes, span⟩ =
      OpenTag.ofTag name attributes := by
  simp only [OpenTag.ofFrame, OpenTag.ofTag, directiveKind]
  cases TagKind.of name attributes with
  | script => cases hhoisted : attributes.contains "hoisted" <;> rfl
  | elseIfTag | elseTag =>
    dsimp only
    split <;> rfl
  | ifTag | eachTag | skipTag | metadata | element => rfl

theorem openTags_openTag (name : String) (attributes : Attributes) (span : Span) :
    (openTag setting session name attributes span).openTags =
      OpenTag.ofTag name attributes :: session.openTags := by
  unfold openTags
  cases hrendering : session.rendering? (.opened name attributes span) with
  | some rendering =>
    obtain rfl := session_of_rendering? hrendering
    obtain ⟨-, hkind⟩ := rendering?_eq_some hrendering
    have htag : OpenTag.ofFrame ⟨name, rendering.frameKind setting, span⟩ =
        OpenTag.ofTag name attributes := by
      obtain hkind | hkind := hkind <;> simp [OpenTag.ofFrame, OpenTag.ofTag, hkind,
        Rendering.frameKind, FrameKind.script?]
    have houter := map_counted setting rendering (f := OpenTag.ofFrame) fun count frame => by
      simp only [OpenTag.ofFrame, script?_withChildren]
    rw [openTag_rendering_eq setting hrendering, List.map_cons, htag, houter]
  | none =>
    have houter := session.map_directiveOuter name attributes (f := OpenTag.ofFrame)
      fun elseSeen frame => by simp only [OpenTag.ofFrame, script?_withElseSeen]
    rw [openTag_directive_eq setting hrendering, List.map_cons, ofFrame_directiveKind, houter]

theorem openTags_closeTag (name : String) (span : Span) :
    (session.closeTag name span).openTags = OpenTag.after session.openTags (.closed name span) := by
  have hbehind : session.openTags.dropWhile (·.name != name) =
      (session.frames.dropWhile (·.name != name)).map OpenTag.ofFrame := List.dropWhile_map
  simp only [closeTag, OpenTag.after, hbehind]
  cases session.frames.dropWhile (·.name != name) with
  | nil => rfl
  | cons frame outer => rfl

/-- The open tags of a session are those of the events. -/
theorem openTags_feed (event : Event) :
    (session.feed setting event).openTags = OpenTag.after session.openTags event := by
  cases event with
  | opened name attributes span => exact session.openTags_openTag setting name attributes span
  | text content span =>
    rw [feed, addText_eq]
    rfl
  | closed name span => exact session.openTags_closeTag name span

end OpenTags

section Pool

/-- What an event does to the pool of hoisted declarations. -/
def hoistings (event : Event) : List Operation :=
  ((session.rendering? event).bind (Rendering.array? setting)).toList.map .addStatics ++
    (OpenTag.hoistedText? session.openTags event).toList.map .addLiteral

/-- The array of an element is declared, and nothing else. -/
theorem hoisted_eq_run (rendering : Rendering) :
    rendering.hoisted setting =
      rendering.session.pool.run ((rendering.array? setting).toList.map .addStatics) := by
  simp only [Rendering.hoisted, Rendering.array?, Rendering.statics_classified,
    sortByName_eq_nil_iff]
  split <;> rfl

theorem hoisted_head?_openTags :
    session.openTags.head?.map OpenTag.hoisted = some true ↔
      session.frames.head?.map Frame.kind = some (.literal true) := by
  unfold openTags
  cases session.frames with
  | nil => simp
  | cons frame frames =>
    cases hkind : frame.kind <;> simp [OpenTag.ofFrame, FrameKind.script?, hkind]

theorem textPool_eq_run (content : String) (span : Span) :
    session.textPool content = session.pool.run
      ((OpenTag.hoistedText? session.openTags (.text content span)).toList.map .addLiteral) := by
  simp only [textPool, OpenTag.hoistedText?, hoisted_head?_openTags]
  split <;> rfl

theorem pool_feed (event : Event) :
    (session.feed setting event).pool = session.pool.run (session.hoistings setting event) := by
  unfold hoistings
  cases event with
  | opened name attributes span =>
    cases hrendering : session.rendering? (.opened name attributes span) with
    | none =>
      rw [feed, openTag_directive_eq setting hrendering]
      rfl
    | some rendering =>
      obtain rfl := session_of_rendering? hrendering
      rw [feed, openTag_rendering_eq setting hrendering, hoisted_eq_run, Option.bind_some,
        show OpenTag.hoistedText? _ (.opened name attributes span) = none from rfl,
        Option.toList_none, List.map_nil, List.append_nil]
  | text content span =>
    rw [feed, addText_eq, session.textPool_eq_run content span]
    rfl
  | closed name span =>
    rw [feed, closeTag_eq]
    rfl

/-- What a list of events does to the pool. -/
def allHoistings : Session → List Event → List Operation
  | _, [] => []
  | session, event :: events =>
    session.hoistings setting event ++ allHoistings (session.feed setting event) events

theorem pool_feedAll (events : List Event) :
    (session.feedAll setting events).pool =
      session.pool.run (session.allHoistings setting events) := by
  induction events generalizing session with
  | nil => rfl
  | cons event events ih =>
    rw [feedAll_cons, ih, pool_feed, allHoistings, HoistPool.run_append]

/-- Nothing that is hoisted is ever taken out of the pool. -/
theorem clear_notMem_allHoistings (events : List Event) :
    .clear ∉ session.allHoistings setting events := by
  induction events generalizing session with
  | nil => exact List.not_mem_nil
  | cons event events ih =>
    rw [allHoistings, List.mem_append, not_or]
    refine ⟨?_, ih _⟩
    simp [hoistings]

/-- No declaration is taken back. -/
theorem statics_prefix_feedAll (events : List Event) :
    session.pool.statics <+: (session.feedAll setting events).pool.statics := by
  rw [pool_feedAll]
  exact HoistPool.statics_prefix_run _ (session.clear_notMem_allHoistings setting events)

/-- The arrays that are hoisted are those of the rendered elements. -/
theorem arrays_allHoistings (events : List Event) :
    (session.allHoistings setting events).filterMap Operation.array? =
      (session.renderings setting events).filterMap (Rendering.array? setting) := by
  have hevent (session : Session) (event : Event) :
      (session.hoistings setting event).filterMap Operation.array? =
        (session.rendering? event).toList.filterMap (Rendering.array? setting) := by
    rw [hoistings, HoistPool.arrays_operations]
    cases session.rendering? event with
    | none => rfl
    | some rendering =>
      rw [Option.bind_some, Option.toList_some, List.filterMap_cons, List.filterMap_nil]
      cases rendering.array? setting <;> rfl
  induction events generalizing session with
  | nil => rfl
  | cons event events ih =>
    rw [allHoistings, List.filterMap_append, hevent, ih, renderings, List.filterMap_append]

/-- The pieces of script that are hoisted are the texts of the hoisted scripts. -/
theorem literals_allHoistings (events : List Event) :
    (session.allHoistings setting events).filterMap Operation.literal? =
      OpenTag.hoistedTexts session.openTags events := by
  have hevent (session : Session) (event : Event) :
      (session.hoistings setting event).filterMap Operation.literal? =
        (OpenTag.hoistedText? session.openTags event).toList :=
    HoistPool.literals_operations _ _
  induction events generalizing session with
  | nil => rfl
  | cons event events ih =>
    rw [allHoistings, List.filterMap_append, hevent, ih, openTags_feed, OpenTag.hoistedTexts]

theorem statics_feedAll (events : List Event) :
    (start.feedAll setting events).pool.statics =
      ((start.renderings setting events).filterMap (Rendering.array? setting)).eraseDups := by
  rw [pool_feedAll, ← arrays_allHoistings]
  exact HoistPool.statics_run_empty (start.clear_notMem_allHoistings setting events)

theorem literals_feedAll (events : List Event) :
    (start.feedAll setting events).pool.literals = OpenTag.hoistedTexts [] events := by
  rw [pool_feedAll, HoistPool.literals_run _ (start.clear_notMem_allHoistings setting events),
    literals_allHoistings]
  rfl

theorem nodup_statics_feedAll (events : List Event) :
    (start.feedAll setting events).pool.statics.Nodup := by
  rw [pool_feedAll]
  exact HoistPool.nodup_run List.nodup_nil _

/-- The array of an element is declared in the end. -/
theorem array_mem_statics {events : List Event} {rendering : Rendering} {array : String}
    (hmem : rendering ∈ start.renderings setting events)
    (harray : rendering.array? setting = some array) :
    array ∈ (start.feedAll setting events).pool.statics := by
  rw [statics_feedAll, List.mem_eraseDups]
  exact List.mem_filterMap.mpr ⟨rendering, hmem, harray⟩

/-- Behind a tag that is met, its array has the identifier with which the element is opened. -/
theorem identifier_of_rendering? {session : Session} {event : Event} {rendering : Rendering}
    (hrendering : session.rendering? event = some rendering) (events : List Event) :
    rendering.identifier setting = (rendering.array? setting).map
      ((session.feed setting event).feedAll setting events).pool.identifierOf := by
  cases event with
  | text content span => cases hrendering
  | closed name span => cases hrendering
  | opened name attributes span =>
    obtain rfl := session_of_rendering? hrendering
    rw [Rendering.identifier_eq]
    cases harray : rendering.array? setting with
    | none => rfl
    | some text =>
      -- The identifier is the one of the declaration that follows, and is kept from there on.
      have hadded : (rendering.session.feed setting (.opened name attributes span)).pool =
          rendering.session.pool.addStatics text := by
        rw [feed, openTag_rendering_eq setting hrendering, hoisted_eq_run, harray]
        rfl
      have hlater := (rendering.session.feed setting
        (.opened name attributes span)).statics_prefix_feedAll setting events
      rw [hadded] at hlater
      have hkept := HoistPool.identifierOf_eq_of_prefix hlater
        (rendering.session.pool.mem_addStatics text)
      rw [Option.map_some, Option.map_some, hkept, HoistPool.identifierOf_addStatics]

/-- The elements are opened with the identifiers that their arrays have in the end. -/
theorem identifier_of_mem_renderings {events : List Event} {rendering : Rendering}
    (hmem : rendering ∈ session.renderings setting events) :
    rendering.identifier setting =
      (rendering.array? setting).map (session.feedAll setting events).pool.identifierOf := by
  induction events generalizing session with
  | nil => cases hmem
  | cons event events ih =>
    obtain hmem | hmem := List.mem_append.mp hmem
    · exact identifier_of_rendering? setting (Option.mem_toList.mp hmem) events
    · exact ih _ hmem

end Pool

end Session

end TemplateCompiler.Template

namespace TemplateCompiler

open Markup (Event Span)
open Script (Listing)
open Template (Ascending HoistPool IdSource OpenTag Phrase Rendering Session Setting
  ascending_sortByName serializeStatics sortByName sortByName_perm)
open Template.HoistPool (Indexed Operation)

theorem pool_runSession (options : Options) (ids : IdSource) (size : Nat) (events : List Event) :
    (runSession options ids size events).pool =
      (Session.start.feedAll ⟨ids, options.noStatics⟩ events).pool := by
  rw [runSession, Session.finish_eq]

/-- The prologue of a compile declares the arrays of the elements' static attributes, each once and
in the order of first use, and then has the texts of the hoisted scripts. An element is opened with
the identifier of a declaration if it has static attributes, and what is declared under it is the
array of just these in the order of their names. Every declaration is referred to by an element.
Whatever is done to a pool, two requests between which it is not cleared get the same identifier if
and only if they are for the same text, and a pool with an index answers and renders alike. -/
theorem prologue_declares_references (options : Options) (ids : IdSource) (size : Nat)
    (events : List Event) :
    let setting : Setting := ⟨ids, options.noStatics⟩
    let program := (runSession options ids size events).program options
    let script := Session.wholeScript setting events
    let elements := Session.start.renderings setting events
    let arrays := (elements.filterMap (Rendering.array? setting)).eraseDups
    let identifier (index : Nat) := "hoisted" ++ toString (index + 1)
    program.prologue = Text.joinLines
        (arrays.mapIdx (fun index array => "var " ++ identifier index ++ " = " ++ array) ++
          OpenTag.hoistedTexts [] events) ∧
      arrays.Nodup ∧
      program.body = (script.foldl Phrase.write Listing.empty).render options.indentWidth ∧
      script.filter Phrase.isElementStart = elements.map (Rendering.start setting) ∧
      (∀ element ∈ elements, element.identifier setting = none ↔ element.literals setting = []) ∧
      (∀ element ∈ elements, ∀ reference, element.identifier setting = some reference →
        ∃ index sorted, reference = identifier index ∧
          arrays[index]? = some (serializeStatics sorted) ∧
          sorted.Perm (element.literals setting) ∧ Ascending sorted) ∧
      (∀ index < arrays.length, ∃ element ∈ elements,
        element.identifier setting = some (identifier index)) ∧
      (∀ (earlier between : List Operation) (text other : String), .clear ∉ between →
        let pool := HoistPool.empty.run earlier
        let later := pool.run (.addStatics text :: between)
        (pool.answer? (.addStatics text) = later.answer? (.addStatics other) ↔ text = other)) ∧
      ∀ operations : List Operation,
        let pool := HoistPool.empty.run operations
        let indexed := Indexed.empty.run operations
        indexed.render = pool.render ∧
          ∀ operation, indexed.answer? operation = pool.answer? operation := by
  intro setting program script elements arrays identifier
  let pool := (Session.start.feedAll setting events).pool
  have harrays : pool.statics = arrays := Session.statics_feedAll setting events
  have hidentifier {element : Rendering} (helement : element ∈ elements) :
      element.identifier setting =
        (element.array? setting).map fun array => identifier (arrays.idxOf array) := by
    rw [← harrays]
    exact Session.identifier_of_mem_renderings setting Session.start helement
  have hnodup : arrays.Nodup := harrays ▸ Session.nodup_statics_feedAll setting events
  refine ⟨?_, hnodup, ?_, Session.filter_wholeScript setting events, ?_, ?_, ?_, ?_, ?_⟩
  · change HoistPool.render (runSession options ids size events).pool = _
    rw [pool_runSession, HoistPool.render, harrays, Session.literals_feedAll setting events]
    rfl
  · exact congrArg (Listing.render options.indentWidth)
      (Session.listing_finish setting events size)
  · intro element helement
    rw [hidentifier helement, Option.map_eq_none_iff, Rendering.array?_eq_none_iff]
  · intro element helement reference hreference
    rw [hidentifier helement] at hreference
    obtain ⟨array, harray, rfl⟩ := Option.map_eq_some_iff.mp hreference
    have hdeclared : array ∈ arrays := harrays ▸ Session.array_mem_statics setting helement harray
    refine ⟨arrays.idxOf array, sortByName (element.literals setting), rfl, ?_,
      sortByName_perm _, ascending_sortByName _⟩
    rw [List.getElem?_idxOf hdeclared, Rendering.eq_of_array?_eq_some harray]
  · intro index hindex
    have hdeclared := List.mem_eraseDups.mp (List.getElem_mem hindex)
    obtain ⟨element, helement, harray⟩ := List.mem_filterMap.mp hdeclared
    refine ⟨element, helement, ?_⟩
    rw [hidentifier helement, harray, Option.map_some, hnodup.idxOf_getElem]
  · intro earlier between text other hclear pool later
    rw [HoistPool.answer?, HoistPool.answer?, Option.some.injEq]
    exact HoistPool.identifierOf_run_eq_iff pool text other hclear
  · intro operations pool indexed
    have hshows : indexed.Shows pool := HoistPool.Indexed.shows_empty.run operations
    exact ⟨hshows.render_eq, hshows.answer?_eq⟩

/-- Two elements that share an array with a third element and a hoisted script between them, and a
pool in which an array is asked for again behind another one. -/
theorem prologue_declares_references_shared :
    let span := Span.point 0
    let ids := IdSource.sequential "k"
    let setting : Setting := ⟨ids, false⟩
    let events := [.opened "p" (.ofList [("class", "x")]) span, .closed "p" span,
      .opened "script" (.ofList [("hoisted", "")]) span, .text " var a; " span,
      .closed "script" span, .opened "b" (.ofList [("id", "1"), ("class", "x")]) span,
      .opened "p" (.ofList [("class", "x")]) span]
    let elements := Session.start.renderings setting events
    let arrays := (elements.filterMap (Rendering.array? setting)).eraseDups
    let between := [Operation.addStatics "b", Operation.addLiteral "c"]
    let pool := HoistPool.empty.run [.addStatics "d", .clear]
    let later := pool.run (.addStatics "a" :: between)
    ((runSession {} ids 9 events).program {}).prologue = Text.joinLines
        ["var hoisted1 = [\"class\", \"x\"]",
          "var hoisted2 = [\"class\", \"x\", \"id\", \"1\"]", "var a;"] ∧
      (∃ element ∈ elements, element.identifier setting = some "hoisted2" ∧
        ∃ index sorted, "hoisted2" = HoistPool.identifier index ∧
          arrays[index]? = some (serializeStatics sorted) ∧
          sorted.Perm (element.literals setting) ∧ Ascending sorted) ∧
      1 < arrays.length ∧ (∃ element ∈ elements, element.identifier setting = some "hoisted1") ∧
      .clear ∉ between ∧
      (pool.answer? (.addStatics "a") = later.answer? (.addStatics "a") ∧
        pool.answer? (.addStatics "a") ≠ later.answer? (.addStatics "b")) := by
  intro span ids setting events elements arrays between pool later
  obtain ⟨hprologue, -, -, -, -, hdeclared, hused, hanswers, -⟩ :=
    prologue_declares_references {} ids 9 events
  have hclear : Operation.clear ∉ between := by decide
  have harrays : arrays = ["[\"class\", \"x\"]", "[\"class\", \"x\", \"id\", \"1\"]"] := by
    decide +kernel
  have htexts : OpenTag.hoistedTexts [] events = ["var a;"] := by decide +kernel
  have hlength : 1 < arrays.length := by
    rw [harrays]
    decide
  obtain ⟨element, hmem, hreference⟩ := hused 1 hlength
  refine ⟨?_, ⟨element, hmem, hreference, hdeclared element hmem _ hreference⟩, hlength,
    hused 0 (Nat.lt_of_succ_lt hlength), hclear, ?_, ?_⟩
  · refine hprologue.trans ?_
    change Text.joinLines (arrays.mapIdx HoistPool.declaration ++ _) = _
    rw [harrays, htexts]
    rfl
  · exact (hanswers [.addStatics "d", .clear] between "a" "a" hclear).mpr rfl
  · exact mt (hanswers [.addStatics "d", .clear] between "a" "b" hclear).mp (by decide)

end TemplateCompiler
