import TemplateCompiler.Proofs.ChildKeys
import TemplateCompiler.Proofs.QuotedTexts
import TemplateCompiler.Proofs.Reports

namespace TemplateCompiler.Template

open Markup (Attributes Event Span)
open Script (Listing)

/-- What an id is drawn for. -/
inductive Draw where
  | loop (clause : EachClause)
  | element (name : String)
deriving DecidableEq, Repr

namespace Draw

/-- The iteration of the loop that an id is drawn for. -/
def clause? : Draw → Option EachClause
  | loop clause => some clause
  | element _ => none

/-- The name of the element that an id is drawn for. -/
def element? : Draw → Option String
  | loop _ => none
  | element name => some name

end Draw

/-- The id that a phrase holds, and what it was drawn for. -/
def Phrase.drawn? : Phrase → Option (Draw × String)
  | loopStart _ _ id clause => some (.loop clause, id)
  | elementStart name (some (.generated id)) _ _ => some (.element name, id)
  | _ => none

/-- The ids in the script of a compile, in the order in which they are written. -/
def generated (setting : Setting) (events : List Event) : List (Draw × String) :=
  (Session.wholeScript setting events).filterMap Phrase.drawn?

namespace Rendering

/-- Whether an element needs a generated id: it has static attributes, but no key and no iteration
    that can be read, and it is no child of a loop's body. -/
def needsId (setting : Setting) (rendering : Rendering) : Bool :=
  (rendering.classified setting).statics != [] &&
    (rendering.attributes.get? "key").getD "" == "" &&
    (rendering.attributes.get? "each").bind EachClause.parse? == none &&
    eachBody rendering.session.frames == none

variable (setting : Setting) (rendering : Rendering)

theorem needsId_iff :
    rendering.needsId setting = true ↔
      (rendering.classified setting).statics ≠ [] ∧ rendering.placedKey setting = none := by
  rw [placedKey_eq, clause?_eq, needsId]
  generalize eachBody rendering.session.frames = body
  by_cases hkey : (rendering.attributes.get? "key").getD "" = ""
  · cases (rendering.attributes.get? "each").bind EachClause.parse? with
    | none => cases body <;> simp [hkey]
    | some clause => simp [hkey]
  · have hgiven : rendering.attributes.get? "key" ≠ none := by
      intro hnone
      rw [hnone] at hkey
      exact hkey rfl
    simp [hkey, hgiven]

theorem clause?_eq_none_of_needsId (hneeds : rendering.needsId setting = true) :
    rendering.clause? setting = none := by
  have hloop := ownLoop?_eq_none ((rendering.needsId_iff setting).mp hneeds).2
  exact Option.map_eq_none_iff.mp hloop

/-- The key of an element is a generated id if and only if it needs one. -/
theorem drawn?_start :
    (rendering.start setting).drawn? =
      if rendering.needsId setting then
        some (.element rendering.name, setting.ids rendering.session.drawn)
      else none := by
  by_cases hneeds : rendering.needsId setting = true
  · obtain ⟨hstatics, hplaced⟩ := (rendering.needsId_iff setting).mp hneeds
    rw [if_pos hneeds, start, key, hplaced, Option.none_or, if_neg hstatics]
    rfl
  · have hkey (id : String) : rendering.key setting ≠ some (.generated id) := by
      intro hkey
      apply hneeds
      rw [needsId_iff]
      unfold key at hkey
      cases hplaced : rendering.placedKey setting with
      | none =>
        rw [hplaced, Option.none_or] at hkey
        refine ⟨?_, rfl⟩
        intro hstatics
        rw [if_pos hstatics] at hkey
        cases hkey
      | some placed =>
        rw [hplaced, Option.some_or] at hkey
        obtain rfl := Option.some.inj hkey
        unfold placedKey at hplaced
        split at hplaced <;> cases hplaced
    rw [if_neg hneeds, start]
    cases hfound : rendering.key setting with
    | none => rfl
    | some found =>
      cases found with
      | generated id => exact (hkey id hfound).elim
      | given | ofLoop | ofChild => rfl

theorem drawn_phrases :
    (rendering.phrases setting).filterMap Phrase.drawn? =
      (((rendering.clause? setting).map Draw.loop).or
        (if rendering.needsId setting then some (.element rendering.name) else none)).toList.map
          (·, setting.ids rendering.session.drawn) := by
  have hguard : ((rendering.classified setting).condition.toList.map fun value =>
      Phrase.ifStart (conditionExpression (some value))).filterMap Phrase.drawn? = [] := by
    cases (rendering.classified setting).condition <;> rfl
  have hbehind : (rendering.behind setting).filterMap Phrase.drawn? = [] := by
    unfold behind
    cases (rendering.classified setting).skip <;> rfl
  have hstart := rendering.drawn?_start setting
  rw [phrases, before, List.filterMap_append, List.filterMap_append, hguard, List.nil_append,
    List.filterMap_cons, hbehind, hstart]
  cases hneeds : rendering.needsId setting with
  | true =>
    rw [rendering.clause?_eq_none_of_needsId setting hneeds]
    rfl
  | false => cases rendering.clause? setting <;> rfl

/-- An element draws an id for its own loop, or for itself if it needs one. -/
theorem idCount_eq :
    rendering.idCount setting =
      (((rendering.clause? setting).map Draw.loop).or
        (if rendering.needsId setting then some (.element rendering.name) else none)).toList.length
      := by
  have hneeds := rendering.needsId_iff setting
  simp only [idCount, ← hneeds]
  by_cases hown : rendering.needsId setting = true
  · rw [rendering.clause?_eq_none_of_needsId setting hown, if_pos hown, if_pos hown]
    rfl
  · rw [if_neg hown, if_neg hown]
    cases rendering.clause? setting <;> rfl

end Rendering

/-- Nothing is drawn where open tags close. -/
theorem drawn_closing (frames : List Frame) :
    (frames.flatMap Frame.closing).filterMap Phrase.drawn? = [] := by
  rw [List.filterMap_eq_nil_iff]
  intro phrase hphrase
  have hend := isEnd_of_mem_closing hphrase
  cases phrase with
  | loopStart | elementStart => cases hend
  | _ => rfl

namespace Session

variable (setting : Setting) (session : Session)

/-- What an event draws an id for: a loop, or else an element. -/
def draw? (event : Event) : Option Draw :=
  ((session.iteration? setting event).map Draw.loop).or
    (((session.rendering? event).filter (Rendering.needsId setting)).map fun rendering =>
      .element rendering.name)

/-- What a list of events draws ids for, in document order. -/
def draws (setting : Setting) : Session → List Event → List Draw
  | _, [] => []
  | session, event :: events =>
    (session.draw? setting event).toList ++ draws setting (session.feed setting event) events

theorem draw?_of_rendering {event : Event} {rendering : Rendering}
    (hrendering : session.rendering? event = some rendering) :
    session.draw? setting event =
      ((rendering.clause? setting).map Draw.loop).or
        (if rendering.needsId setting then some (.element rendering.name) else none) := by
  simp only [draw?, iteration?, hrendering, Option.filter_some]
  cases rendering.needsId setting <;> rfl

theorem drawn_directivePhrases (name : String) (attributes : Attributes) :
    (session.directivePhrases setting name attributes).filterMap Phrase.drawn? =
      (eachClause? name attributes).toList.map (Draw.loop ·, setting.ids session.drawn) := by
  have hbranch (isElse : Bool) (condition : String) :
      (branchPhrase isElse condition session.frames).drawn? = none := by
    unfold branchPhrase
    split <;> rfl
  unfold directivePhrases
  cases hkind : TagKind.of name attributes with
  | eachTag => cases eachClause? name attributes <;> rfl
  | elseIfTag | elseTag =>
    simp only [eachClause?, hkind]
    exact List.filterMap_cons_none (hbranch _ _)
  | ifTag | skipTag | script | metadata | element =>
    simp only [eachClause?, hkind]
    rfl

/-- An event takes the next id of the source if it draws one, and none otherwise. -/
theorem drawn_feed (event : Event) :
    (session.phrases setting event).filterMap Phrase.drawn? =
        (session.draw? setting event).toList.map (·, setting.ids session.drawn) ∧
      (session.feed setting event).drawn =
        session.drawn + (session.draw? setting event).toList.length := by
  cases event with
  | opened name attributes span =>
    rw [feed]
    cases hrendering : session.rendering? (.opened name attributes span) with
    | none =>
      rw [phrases_of_directive setting hrendering, drawn_directivePhrases,
        openTag_directive_eq setting hrendering]
      simp only [draw?, iteration?, hrendering]
      cases eachClause? name attributes <;> exact ⟨rfl, rfl⟩
    | some rendering =>
      obtain rfl := session_of_rendering? hrendering
      rw [phrases_of_rendering setting hrendering, rendering.drawn_phrases,
        openTag_rendering_eq setting hrendering, draw?_of_rendering setting _ hrendering,
        rendering.idCount_eq]
      exact ⟨rfl, rfl⟩
  | text content span =>
    rw [feed, addText_eq]
    refine ⟨?_, rfl⟩
    simp only [phrases, rendering?, textPhrases]
    split
    · rfl
    · split <;> rfl
  | closed name span =>
    rw [feed, closeTag_eq]
    exact ⟨drawn_closing _, rfl⟩

/-- The draws of a list of events take the ids of the source one after the other. -/
theorem drawn_feedAll (events : List Event) :
    (session.script setting events).filterMap Phrase.drawn? =
        ((session.draws setting events).zipIdx session.drawn).map
          (fun draw => (draw.1, setting.ids draw.2)) ∧
      (session.feedAll setting events).drawn =
        session.drawn + (session.draws setting events).length := by
  induction events generalizing session with
  | nil => exact ⟨rfl, rfl⟩
  | cons event events ih =>
    obtain ⟨hphrases, hdrawn⟩ := session.drawn_feed setting event
    obtain ⟨hlater, hall⟩ := ih (session.feed setting event)
    rw [hdrawn] at hlater hall
    have hnext : (session.draw? setting event).toList.map (·, setting.ids session.drawn) =
        ((session.draw? setting event).toList.zipIdx session.drawn).map
          (fun draw => (draw.1, setting.ids draw.2)) := by
      cases session.draw? setting event <;> rfl
    constructor
    · rw [script, List.filterMap_append, hphrases, hlater, hnext, draws, List.zipIdx_append,
        List.map_append]
    · rw [feedAll_cons, hall, draws, List.length_append, Nat.add_assoc]

/-- The draws for loops are the iterations. -/
theorem filterMap_clause?_draws (events : List Event) :
    (session.draws setting events).filterMap Draw.clause? = session.iterations setting events := by
  induction events generalizing session with
  | nil => rfl
  | cons event events ih =>
    have hevent : (session.draw? setting event).toList.filterMap Draw.clause? =
        (session.iteration? setting event).toList := by
      unfold draw?
      cases session.iteration? setting event with
      | some clause => rfl
      | none => cases (session.rendering? event).filter (Rendering.needsId setting) <;> rfl
    rw [draws, List.filterMap_append, hevent, ih, iterations]

/-- The other draws are the elements that need an id. -/
theorem filterMap_element?_draws (events : List Event) :
    (session.draws setting events).filterMap Draw.element? =
      ((session.renderings setting events).filter (Rendering.needsId setting)).map
        Rendering.name := by
  induction events generalizing session with
  | nil => rfl
  | cons event events ih =>
    have hevent : (session.draw? setting event).toList.filterMap Draw.element? =
        ((session.rendering? event).toList.filter (Rendering.needsId setting)).map
          Rendering.name := by
      cases hrendering : session.rendering? event with
      | none =>
        simp only [draw?, hrendering]
        cases session.iteration? setting event <;> rfl
      | some rendering =>
        rw [draw?_of_rendering setting session hrendering]
        cases hneeds : rendering.needsId setting with
        | true =>
          rw [rendering.clause?_eq_none_of_needsId setting hneeds]
          simp [hneeds, Draw.element?]
        | false => cases rendering.clause? setting <;> simp [hneeds, Draw.element?]
    rw [draws, List.filterMap_append, hevent, ih, renderings, List.filter_append, List.map_append]

end Session

theorem generated_eq (setting : Setting) (events : List Event) :
    generated setting events = (Session.start.draws setting events).zipIdx.map
      (fun draw => (draw.1, setting.ids draw.2)) := by
  rw [generated, Session.wholeScript, List.filterMap_append, drawn_closing, List.append_nil]
  exact (Session.start.drawn_feedAll setting events).1

section Counted

open Script (quote quoteChars quoteChars_append_eq_iff withoutReturns)

theorem withoutReturns_toDigits (number : Nat) :
    withoutReturns (Nat.toDigits 10 number) = Nat.toDigits 10 number := by
  apply List.filter_eq_self.mpr
  intro c hc
  rw [bne_iff_ne]
  rintro rfl
  rw [← toList_toString] at hc
  exact notMem_toString rfl number hc

/-- Counted ids are told apart by the string literals that they are written as. -/
theorem quote_append_toString_inj {stem : String} {number other : Nat}
    (heq : quote (stem ++ toString number) = quote (stem ++ toString other)) : number = other := by
  have hchars : quoteChars (stem.toList ++ Nat.toDigits 10 number) ++ [] =
      quoteChars (stem.toList ++ Nat.toDigits 10 other) ++ [] := by
    simpa only [quote, String.toList_ofList, String.toList_append, toList_toString,
      List.append_nil] using congrArg String.toList heq
  obtain ⟨hkept, -⟩ := (quoteChars_append_eq_iff _ _).mp hchars
  have hsplit (number : Nat) : withoutReturns (stem.toList ++ Nat.toDigits 10 number) =
      withoutReturns stem.toList ++ Nat.toDigits 10 number := by
    exact (List.filter_append _ _).trans (congrArg _ (withoutReturns_toDigits number))
  rw [hsplit, hsplit] at hkept
  exact toDigits_inj (List.append_cancel_left hkept)

theorem length_generated (setting : Setting) (events : List Event) :
    (generated setting events).length = (Session.start.draws setting events).length := by
  rw [generated_eq, List.length_map, List.length_zipIdx]

/-- Counted ids are drawn in the order in which they are counted. -/
theorem generated_sequential (stem : String) (noStatics : Bool) (events : List Event) :
    let counted := (generated ⟨IdSource.sequential stem, noStatics⟩ events).map Prod.snd
    counted = (List.range' 1 counted.length).map (fun number => stem ++ toString number) := by
  intro counted
  let draws := Session.start.draws ⟨IdSource.sequential stem, noStatics⟩ events
  have hlength : counted.length = draws.length := by
    rw [List.length_map, length_generated]
  have hindices (source : Nat → String) :
      (draws.zipIdx.map fun draw => (draw.1, source draw.2)).map Prod.snd =
        (List.range' 0 draws.length).map source := by
    rw [← List.zipIdx_map_snd, List.map_map, List.map_map]
    rfl
  have hcounted : counted = (List.range' 0 draws.length).map fun drawn =>
      stem ++ toString (drawn + 1) :=
    (congrArg (List.map Prod.snd) (generated_eq _ events)).trans (hindices _)
  rw [hlength, List.range'_succ_left (s := 0), List.map_map]
  exact hcounted

/-- Counted ids are all different, and so are the string literals that they are written as. -/
theorem nodup_counted (stem : String) (count : Nat) :
    let counted := (List.range' 1 count).map (fun number => stem ++ toString number)
    counted.Nodup ∧ (counted.map quote).Nodup := by
  intro counted
  have hquoted : (counted.map quote).Nodup := by
    rw [List.map_map]
    have hnumbers : (List.range' 1 count).Nodup := List.nodup_range'
    refine List.pairwise_map.mpr (List.Pairwise.imp ?_ hnumbers)
    intro number other hne heq
    exact hne (quote_append_toString_inj heq)
  refine ⟨?_, hquoted⟩
  refine (List.pairwise_map.mp hquoted).imp ?_
  intro id other hne heq
  exact hne (congrArg quote heq)

end Counted

/-- Generated ids are distinct within one compile. The ids in the script are those of the source in
    turn, in document order: one for each iteration that can be read, and one for each element that
    needs an id. Counted ids are the stem with the numbers from one on, and no two of them are equal,
    also as they are written. -/
theorem generated_ids_distinct (options : Options) (ids : IdSource) (size : Nat)
    (events : List Event) :
    let setting : Setting := ⟨ids, options.noStatics⟩
    let session := runSession options ids size events
    let draws := Session.start.draws setting events
    session.listing = (Session.wholeScript setting events).foldl Phrase.write Listing.empty ∧
      generated setting events = draws.zipIdx.map (fun draw => (draw.1, ids draw.2)) ∧
      session.drawn = draws.length ∧
      draws.filterMap Draw.clause? = Session.start.iterations setting events ∧
      draws.filterMap Draw.element? =
        ((Session.start.renderings setting events).filter (Rendering.needsId setting)).map
          Rendering.name ∧
      ∀ stem,
        let counted := (generated ⟨IdSource.sequential stem, options.noStatics⟩ events).map Prod.snd
        counted = (List.range' 1 counted.length).map (fun number => stem ++ toString number) ∧
          counted.Nodup ∧ (counted.map Script.quote).Nodup := by
  intro setting session draws
  obtain ⟨-, hdrawn⟩ := Session.start.drawn_feedAll setting events
  rw [show Session.start.drawn = 0 from rfl, Nat.zero_add] at hdrawn
  have hfinished : session.drawn = (Session.start.feedAll setting events).drawn := by
    rw [show session = Session.finish size _ from rfl, Session.finish_eq]
  refine ⟨Session.listing_finish setting events size, generated_eq setting events,
    hfinished.trans hdrawn,
    Session.start.filterMap_clause?_draws setting events,
    Session.start.filterMap_element?_draws setting events, ?_⟩
  intro stem counted
  have hcounted : counted = (List.range' 1 counted.length).map (fun number =>
      stem ++ toString number) := generated_sequential stem options.noStatics events
  refine ⟨hcounted, ?_⟩
  rw [hcounted]
  exact nodup_counted stem _

end TemplateCompiler.Template

namespace TemplateCompiler

open Template (IdSource Phrase Session)

/-- The phrases of the script that a source is compiled to with counted ids; none if the source
    cannot be read. -/
def sourceScript (options : Options) (source : String) : List Phrase :=
  match Markup.tokenize {} source with
  | .error _ => []
  | .ok events =>
    Session.wholeScript ⟨IdSource.sequential options.keyStem, options.noStatics⟩ events

/-- The ids that are generated for a source. -/
def generatedIds (options : Options) (source : String) : List String :=
  ((sourceScript options source).filterMap Phrase.drawn?).map Prod.snd

theorem body_of_compile {options : Options} {source : String} {compiled : Compiled}
    (hcompiled : compile options source = .ok compiled) :
    compiled.program.body =
      ((sourceScript options source).foldl Phrase.write Script.Listing.empty).render
        options.indentWidth := by
  obtain ⟨events, hread, rfl⟩ := exists_events_of_compileWith hcompiled
  unfold sourceScript
  rw [hread]
  dsimp only
  rw [← Session.listing_finish _ events source.utf8ByteSize]
  rfl

theorem generatedIds_eq (options : Options) (source : String) :
    generatedIds options source = (List.range' 1 (generatedIds options source).length).map
      (fun number => options.keyStem ++ toString number) := by
  unfold generatedIds sourceScript
  cases Markup.tokenize {} source with
  | error failure => rfl
  | ok events => exact Template.generated_sequential options.keyStem options.noStatics events

theorem mem_generatedIds_iff (options : Options) (source id : String) :
    id ∈ generatedIds options source ↔
      ∃ number, 0 < number ∧ number ≤ (generatedIds options source).length ∧
        id = options.keyStem ++ toString number := by
  rw [generatedIds_eq]
  simp only [List.length_map, List.length_range', List.mem_map, List.mem_range'_1]
  constructor
  · rintro ⟨number, ⟨hpos, hle⟩, rfl⟩
    exact ⟨number, hpos, by omega, rfl⟩
  · rintro ⟨number, hpos, hle, rfl⟩
    exact ⟨number, ⟨hpos, by omega⟩, rfl⟩

/-- The ids counted from a stem reach those counted from another one: the other stem is the first
    one with a number behind it, at least one id is counted from it, and so many are counted from the
    first stem that a further digit follows that number. -/
def CountsInto (stem : String) (count : Nat) (stem' : String) (count' : Nat) : Prop :=
  ∃ number, 0 < number ∧ stem' = stem ++ toString number ∧ 10 * number < count ∧ 0 < count'

theorem countsInto_iff (stem stem' : String) (count count' : Nat) :
    CountsInto stem count stem' count' ↔
      ∃ number' leading, 0 < number' ∧ number' ≤ count' ∧ 0 < leading ∧
        stem' = stem ++ toString leading ∧ Template.joined leading number' ≤ count := by
  constructor
  · rintro ⟨leading, hpos, hstem, hcount, hcount'⟩
    refine ⟨1, leading, by decide, hcount', hpos, hstem, ?_⟩
    rw [Template.joined_of_lt_ten leading (by decide)]
    exact hcount
  · rintro ⟨number', leading, hpos', hle', hpos, hstem, hle⟩
    have hjoined := Template.le_joined leading number'
    exact ⟨leading, hpos, hstem, by omega, by omega⟩

/-- When two compiles with different stems generate a common id: one stem is the other one with a
    number behind it, and enough ids are counted from that one to reach the first id of the other. So
    ids are kept apart by stems of which neither is the other one with a number behind it. -/
theorem generated_ids_meet_iff (options options' : Options)
    (hstems : options.keyStem ≠ options'.keyStem) (source source' : String) :
    let ids := generatedIds options source
    let ids' := generatedIds options' source'
    (∀ compiled, compile options source = .ok compiled → compiled.program.body =
        ((sourceScript options source).foldl Phrase.write Script.Listing.empty).render
          options.indentWidth) ∧
      ((∃ id ∈ ids, id ∈ ids') ↔
        CountsInto options.keyStem ids.length options'.keyStem ids'.length ∨
          CountsInto options'.keyStem ids'.length options.keyStem ids.length) := by
  intro ids ids'
  refine ⟨fun compiled => body_of_compile, ?_⟩
  rw [countsInto_iff, countsInto_iff]
  constructor
  · rintro ⟨id, hid, hid'⟩
    obtain ⟨number, hpos, hle, rfl⟩ := (mem_generatedIds_iff options source id).mp hid
    obtain ⟨number', hpos', hle', heq⟩ := (mem_generatedIds_iff options' source' _).mp hid'
    obtain ⟨leading, hleading, hstem, rfl⟩ | ⟨leading, hleading, hstem, rfl⟩ :=
      (Template.append_toString_eq_iff hstems number number').mp heq
    · exact .inl ⟨number', leading, hpos', hle', hleading, hstem, hle⟩
    · exact .inr ⟨number, leading, hpos, hle, hleading, hstem, hle'⟩
  · have hjoined (leading : Nat) (hleading : 0 < leading) (number : Nat) :
        0 < Template.joined leading number := by
      have hle := Template.le_joined leading number
      omega
    rintro (⟨number, leading, hpos, hle, hleading, hstem, hreach⟩ |
      ⟨number, leading, hpos, hle, hleading, hstem, hreach⟩)
    · refine ⟨options'.keyStem ++ toString number, ?_,
        (mem_generatedIds_iff options' source' _).mpr ⟨number, hpos, hle, rfl⟩⟩
      refine (mem_generatedIds_iff options source _).mpr
        ⟨_, hjoined leading hleading number, hreach, ?_⟩
      rw [hstem, Template.append_toString_joined _ hleading]
    · refine ⟨options.keyStem ++ toString number,
        (mem_generatedIds_iff options source _).mpr ⟨number, hpos, hle, rfl⟩, ?_⟩
      refine (mem_generatedIds_iff options' source' _).mpr
        ⟨_, hjoined leading hleading number, hreach, ?_⟩
      rw [hstem, Template.append_toString_joined _ hleading]

/-- A zero at the end of a stem is no number that is counted to. -/
theorem generated_ids_meet_iff_zero :
    let source := String.join (List.replicate 11 "<p a/>")
    let options : Options := { keyStem := "k0" }
    ({} : Options).keyStem ≠ options.keyStem ∧ (generatedIds {} source).length = 11 ∧
      (generatedIds options "<p a/>").length = 1 ∧
      ¬∃ id ∈ generatedIds {} source, id ∈ generatedIds options "<p a/>" := by
  intro source options
  have hstems : ({} : Options).keyStem ≠ options.keyStem := by decide
  have hlength : (generatedIds {} source).length = 11 := by decide +kernel
  have hlength' : (generatedIds options "<p a/>").length = 1 := by decide +kernel
  obtain ⟨-, hmeet⟩ := generated_ids_meet_iff {} options hstems source "<p a/>"
  rw [hlength, hlength'] at hmeet
  refine ⟨hstems, hlength, hlength', ?_⟩
  intro hcommon
  obtain ⟨number, hpos, hstem, hcount, -⟩ | ⟨number, hpos, -, hcount, -⟩ := hmeet.mp hcommon
  · obtain rfl : number = 1 := by omega
    exact absurd hstem (by decide)
  · omega

/-- The eleventh id counted from one stem is the first id counted from another one. -/
theorem generated_ids_meet_numbered_stem :
    let source := String.join (List.replicate 11 "<p a/>")
    let options : Options := { keyStem := "k1" }
    ({} : Options).keyStem ≠ options.keyStem ∧ (compile {} source).toOption.isSome = true ∧
      (compile options "<p a/>").toOption.isSome = true ∧ "k11" ∈ generatedIds {} source ∧
      "k11" ∈ generatedIds options "<p a/>" := by
  decide +kernel

end TemplateCompiler
