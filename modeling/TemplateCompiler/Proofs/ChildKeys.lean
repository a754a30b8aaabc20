import TemplateCompiler.Proofs.ElementAttributes
import TemplateCompiler.Proofs.LoopScopes

namespace TemplateCompiler.Template

open Markup (Attributes Event Span)
open Script (Listing)

namespace Rendering

/-- Whether an element is a child that a loop's body gives a key to: the innermost open tag apart from
    conditionals, branches and skipped content is the each tag of that loop, and the element has
    neither a key nor an iteration that can be read. -/
def isChildOf (number : Nat) (rendering : Rendering) : Bool :=
  (eachBody rendering.session.frames).map Loop.number == some number &&
    (rendering.attributes.get? "key").getD "" == "" &&
    (rendering.attributes.get? "each").bind EachClause.parse? == none

variable (setting : Setting) (rendering : Rendering)

theorem clause?_eq :
    rendering.clause? setting = (rendering.attributes.get? "each").bind EachClause.parse? := by
  have hname : Directive.iteration.onlyName? = some "each" := rfl
  have hiteration : (rendering.classified setting).iteration =
      (rendering.attributes.erase "key").get? "each" := Classified.value?_ofAttributes hname _ _
  rw [clause?, hiteration, Attributes.get?_erase_of_ne _ (by simp)]

/-- The key of an element by what it says or where it stands, case by case. -/
theorem placedKey_eq :
    rendering.placedKey setting =
      if (rendering.attributes.get? "key").getD "" ≠ "" then
        (rendering.attributes.get? "key").map .given
      else if (rendering.clause? setting).isSome then some (.ofLoop (rendering.session.loops + 1))
      else (eachBody rendering.session.frames).map fun loop =>
        .ofChild loop.number (loop.children + 1) := by
  unfold placedKey explicit ownLoop? ExplicitKey.ofAttribute
  cases rendering.attributes.get? "key" with
  | none =>
    cases rendering.clause? setting <;> cases eachBody rendering.session.frames <;> rfl
  | some key =>
    by_cases hempty : key = "" <;> cases rendering.clause? setting <;>
      cases eachBody rendering.session.frames <;> simp [hempty]

/-- An element is a child of a loop's body if and only if it has a number there. -/
theorem isChildOf_iff (number : Nat) :
    rendering.isChildOf number = true ↔
      ∃ ordinal, rendering.placedKey setting = some (.ofChild number ordinal) := by
  rw [placedKey_eq, clause?_eq, isChildOf]
  generalize eachBody rendering.session.frames = body
  by_cases hkey : (rendering.attributes.get? "key").getD "" = ""
  · cases (rendering.attributes.get? "each").bind EachClause.parse? with
    | none => cases body <;> simp [hkey]
    | some clause => simp [hkey]
  · simp [hkey]

/-- The number of a child is the next one of the loop whose body it stands in. -/
theorem eachBody_of_placedKey {number ordinal : Nat}
    (hplaced : rendering.placedKey setting = some (.ofChild number ordinal)) :
    ∃ children, eachBody rendering.session.frames = some ⟨number, children⟩ ∧
      ordinal = children + 1 := by
  rw [placedKey_eq] at hplaced
  split at hplaced
  · simp at hplaced
  · split at hplaced
    · cases hplaced
    · obtain ⟨loop, hbody, hchild⟩ := Option.map_eq_some_iff.mp hplaced
      cases hchild
      exact ⟨loop.children, hbody, rfl⟩

end Rendering

/-- The loops of the open tags whose content is a loop body, innermost first. -/
def loopBodies (frames : List Frame) : List Loop :=
  frames.filterMap (·.kind.bodyLoop?)

theorem loopBodies_cons (frame : Frame) (frames : List Frame) :
    loopBodies (frame :: frames) = frame.kind.bodyLoop?.toList ++ loopBodies frames := by
  unfold loopBodies
  rw [List.filterMap_cons]
  cases frame.kind.bodyLoop? <;> rfl

theorem loopBodies_setElseSeen (elseSeen : Bool) (frames : List Frame) :
    loopBodies (setElseSeen elseSeen frames) = loopBodies frames := by
  have hmap (frames : List Frame) :
      loopBodies frames = (frames.map (·.kind.bodyLoop?)).filterMap id := by
    rw [List.filterMap_map]
    rfl
  have hsame (frame : Frame) :
      (frame.kind.withElseSeen elseSeen).bodyLoop? = frame.kind.bodyLoop? := by
    cases frame.kind <;> rfl
  rw [hmap, hmap, setElseSeen, map_changeReached hsame]

/-- The loop that a child reaches is the innermost one with a body, and its count is all that changes
    with a new child. -/
theorem loopBodies_of_eachBody {frames : List Frame} {loop : Loop}
    (hbody : eachBody frames = some loop) :
    ∃ outer, loopBodies frames = loop :: outer ∧
      ∀ count, loopBodies (setChildren count frames) = ⟨loop.number, count⟩ :: outer := by
  induction frames with
  | nil => cases hbody
  | cons frame frames ih =>
    obtain ⟨name, kind, span⟩ := frame
    rw [eachBody_cons] at hbody
    simp only [setChildren_cons, loopBodies_cons]
    cases kind with
    | conditional | branch | skip => exact ih hbody
    | each own =>
      obtain rfl : own = some loop := hbody
      exact ⟨loopBodies frames, rfl, fun count => rfl⟩
    | template | literal | element => cases hbody

theorem loopBodies_sublist (frames : List Frame) :
    ((loopBodies frames).map Loop.number).Sublist (loopNumbers frames) := by
  induction frames with
  | nil => exact List.Sublist.slnil
  | cons frame frames ih =>
    obtain ⟨name, kind, span⟩ := frame
    rw [loopBodies_cons, loopNumbers_cons, List.map_append]
    refine List.Sublist.append ?_ ih
    rcases kind with _ | _ | _ | _ | _ | (_ | _) | _
    case each.some loop => exact List.Sublist.refl _
    all_goals exact List.nil_sublist _

/-- Only the loop that a child gets its key from counts it. -/
theorem Rendering.mem_loopBodies_counted (setting : Setting) {rendering : Rendering}
    (hdistinct : ((loopBodies rendering.session.frames).map Loop.number).Nodup) {loop : Loop}
    (hloop : loop ∈ loopBodies (rendering.counted setting)) :
    rendering.placedKey setting = some (.ofChild loop.number loop.children) ∨
      loop ∈ loopBodies rendering.session.frames ∧
        ∀ ordinal, rendering.placedKey setting ≠ some (.ofChild loop.number ordinal) := by
  unfold counted at hloop
  split at hloop
  · rename_i number ordinal hplaced
    obtain ⟨children, hbody, hordinal⟩ := rendering.eachBody_of_placedKey setting hplaced
    obtain ⟨outer, hbodies, hcounted⟩ := loopBodies_of_eachBody hbody
    rw [hcounted] at hloop
    rw [hbodies] at hdistinct ⊢
    obtain rfl | houter := List.mem_cons.mp hloop
    · exact .inl hplaced
    · refine .inr ⟨List.mem_cons_of_mem _ houter, ?_⟩
      intro other hother
      rw [hplaced] at hother
      obtain rfl : number = loop.number := by cases hother; rfl
      exact (List.nodup_cons.mp hdistinct).1 (List.mem_map.mpr ⟨loop, houter, rfl⟩)
  · rename_i hplaced
    exact .inr ⟨hloop, fun ordinal => hplaced _ ordinal⟩

/-- The loop bodies inside an element are those around it, of which one may have counted it. -/
theorem Session.mem_loopBodies_feed (setting : Setting) {session : Session}
    (hdescending : Descending session.loops (loopNumbers session.frames)) {name : String}
    {attributes : Attributes} {span : Span} {rendering : Rendering}
    (hrendering : session.rendering? (.opened name attributes span) = some rendering) {loop : Loop}
    (hloop : loop ∈ loopBodies (session.feed setting (.opened name attributes span)).frames) :
    rendering.placedKey setting = some (.ofChild loop.number loop.children) ∨
      loop ∈ loopBodies session.frames ∧
        ∀ ordinal, rendering.placedKey setting ≠ some (.ofChild loop.number ordinal) := by
  obtain rfl := Session.session_of_rendering? hrendering
  have hdistinct : ((loopBodies rendering.session.frames).map Loop.number).Nodup :=
    (hdescending.1.imp Nat.ne_of_gt).sublist (loopBodies_sublist _)
  rw [Session.feed, Session.openTag_rendering_eq setting hrendering, loopBodies_cons] at hloop
  exact Rendering.mem_loopBodies_counted setting hdistinct hloop

/-- The children of a loop that have been counted so far: as many as its open tag says, and none if
    the loop is still to come. -/
structure Counted (session : Session) (number count : Nat) : Prop where
  children : ∀ loop ∈ loopBodies session.frames, loop.number = number → loop.children = count
  fresh : session.loops < number → count = 0

namespace Counted

variable {session : Session} {number count : Nat}

/-- A tag that is no element counts nothing. Its own loop starts without children. -/
theorem openTag (setting : Setting) (hcounted : Counted session number count) {name : String}
    {attributes : Attributes} {span : Span}
    (hnone : session.rendering? (.opened name attributes span) = none) :
    Counted (session.feed setting (.opened name attributes span)) number count := by
  obtain ⟨kind, elseSeen, hframes, -, hbody⟩ := Session.exists_frames_directive setting hnone
  have hbodies := loopBodies_cons ⟨name, kind, span⟩ (setElseSeen elseSeen session.frames)
  rw [← hframes, hbody, loopBodies_setElseSeen] at hbodies
  constructor
  · intro loop hloop hnumber
    rw [Session.feed, hbodies] at hloop
    obtain hown | hloop := List.mem_append.mp hloop
    · have hown := Option.mem_toList.mp hown
      rw [Option.map_map, Option.map_eq_some_iff] at hown
      obtain ⟨clause, hclause, rfl⟩ := hown
      exact (hcounted.fresh (Nat.le_of_eq hnumber)).symm
    · exact hcounted.children loop hloop hnumber
  · intro hlater
    rw [Session.feed, Session.openTag_directive_eq setting hnone] at hlater
    exact hcounted.fresh (Nat.lt_of_le_of_lt (Nat.le_add_right _ _) hlater)

/-- Opening an element counts it for the loop that it gets its key from. -/
theorem openElement (setting : Setting) (hcounted : Counted session number count)
    (hdescending : Descending session.loops (loopNumbers session.frames)) {name : String}
    {attributes : Attributes} {span : Span} {rendering : Rendering}
    (hrendering : session.rendering? (.opened name attributes span) = some rendering) :
    let children := [rendering].filter (Rendering.isChildOf number)
    children.map (Rendering.key setting) =
        (List.range' (count + 1) children.length).map (some ∘ .ofChild number) ∧
      Counted (session.feed setting (.opened name attributes span)) number
        (count + children.length) := by
  intro children
  have hbodies := @Session.mem_loopBodies_feed setting session hdescending _ _ _ _ hrendering
  obtain rfl := Session.session_of_rendering? hrendering
  have hloops : rendering.session.loops ≤
      (rendering.session.feed setting (.opened name attributes span)).loops := by
    rw [Session.feed, Session.openTag_rendering_eq setting hrendering]
    exact Nat.le_add_right _ _
  by_cases hchild : rendering.isChildOf number = true
  · have hchildren : children = [rendering] := List.filter_cons_of_pos hchild
    rw [hchildren]
    obtain ⟨ordinal, hplaced⟩ := (rendering.isChildOf_iff setting number).mp hchild
    obtain ⟨counted, hbody, rfl⟩ := rendering.eachBody_of_placedKey setting hplaced
    obtain ⟨outer, houter, -⟩ := loopBodies_of_eachBody hbody
    have hmem : ⟨number, counted⟩ ∈ loopBodies rendering.session.frames := by
      rw [houter]
      exact List.mem_cons_self
    obtain rfl : counted = count := hcounted.children _ hmem rfl
    refine ⟨?_, ?_, ?_⟩
    · rw [List.map_singleton, Rendering.key, hplaced]
      rfl
    · intro loop hloop hnumber
      obtain hown | ⟨-, hother⟩ := hbodies hloop
      · rw [hplaced] at hown
        injection hown with hown
        injection hown with _ hcount
        exact hcount.symm
      · rw [hnumber] at hother
        exact (hother _ hplaced).elim
    · intro hfresh
      have hopen := hdescending.2 number
        ((loopBodies_sublist _).subset (List.mem_map_of_mem hmem))
      omega
  · have hchildren : children = [] := List.filter_cons_of_neg hchild
    rw [hchildren]
    refine ⟨rfl, ?_, ?_⟩
    · intro loop hloop hnumber
      obtain hplaced | ⟨hloop, -⟩ := hbodies hloop
      · rw [hnumber] at hplaced
        exact (hchild ((rendering.isChildOf_iff setting number).mpr ⟨_, hplaced⟩)).elim
      · exact hcounted.children loop hloop hnumber
    · intro hfresh
      exact hcounted.fresh (by omega)

/-- The open tags that are left behind an end tag count what they counted before. -/
theorem closeTag (setting : Setting) (hcounted : Counted session number count) (name : String)
    (span : Span) : Counted (session.feed setting (.closed name span)) number count := by
  constructor
  · intro loop hloop hnumber
    refine hcounted.children loop ?_ hnumber
    rw [← session.closedBy_append_frames name span, loopBodies, List.filterMap_append]
    exact List.mem_append_right _ hloop
  · rw [Session.feed, Session.closeTag_eq]
    exact hcounted.fresh

theorem addText (setting : Setting) (hcounted : Counted session number count) (content : String)
    (span : Span) : Counted (session.feed setting (.text content span)) number count := by
  rw [Session.feed, Session.addText_eq]
  exact ⟨hcounted.children, hcounted.fresh⟩

/-- The children of a loop that one event renders get the next numbers. -/
theorem feed (setting : Setting) (hcounted : Counted session number count)
    (hdescending : Descending session.loops (loopNumbers session.frames)) (event : Event) :
    let children := (session.rendering? event).toList.filter (Rendering.isChildOf number)
    children.map (Rendering.key setting) =
        (List.range' (count + 1) children.length).map (some ∘ .ofChild number) ∧
      Counted (session.feed setting event) number (count + children.length) := by
  cases event with
  | opened name attributes span =>
    cases hrendering : session.rendering? (.opened name attributes span) with
    | none => exact ⟨rfl, hcounted.openTag setting hrendering⟩
    | some rendering => exact hcounted.openElement setting hdescending hrendering
  | text content span => exact ⟨rfl, hcounted.addText setting content span⟩
  | closed name span => exact ⟨rfl, hcounted.closeTag setting name span⟩

/-- The children of a loop that a list of events renders get consecutive numbers. -/
theorem renderings (setting : Setting) (hcounted : Counted session number count)
    (hdescending : Descending session.loops (loopNumbers session.frames)) (events : List Event) :
    let children := (session.renderings setting events).filter (Rendering.isChildOf number)
    children.map (Rendering.key setting) =
      (List.range' (count + 1) children.length).map (some ∘ .ofChild number) := by
  induction events generalizing session count with
  | nil => rfl
  | cons event events ih =>
    obtain ⟨hkeys, hfed⟩ := hcounted.feed setting hdescending event
    have hlater := ih hfed (Session.descending_feedAll setting hdescending [event])
    dsimp only at hkeys hlater ⊢
    rw [Session.renderings, List.filter_append, List.map_append, hkeys, hlater, List.length_append,
      ← List.map_append, Nat.add_right_comm, List.range'_append_1]

end Counted

theorem counted_start (number : Nat) : Counted Session.start number 0 :=
  ⟨nofun, fun _ => rfl⟩

section Script

/-- Whether a phrase opens an element. -/
def Phrase.isElementStart : Phrase → Bool
  | elementStart _ _ _ _ => true
  | _ => false

theorem filter_closing (frames : List Frame) :
    (frames.flatMap Frame.closing).filter Phrase.isElementStart = [] := by
  rw [List.filter_eq_nil_iff]
  intro phrase hphrase hstart
  have hend := isEnd_of_mem_closing hphrase
  cases phrase with
  | elementStart => cases hend
  | _ => cases hstart

theorem Rendering.filter_phrases (setting : Setting) (rendering : Rendering) :
    (rendering.phrases setting).filter Phrase.isElementStart = [rendering.start setting] := by
  have hbefore : (rendering.before setting).filter Phrase.isElementStart = [] := by
    unfold before
    cases (rendering.classified setting).condition <;> cases rendering.clause? setting <;> rfl
  have hbehind : (rendering.behind setting).filter Phrase.isElementStart = [] := by
    unfold behind
    cases (rendering.classified setting).skip <;> rfl
  rw [phrases, List.filter_append, hbefore, List.nil_append, List.filter_cons_of_pos rfl, hbehind]

namespace Session

variable (setting : Setting) (session : Session)

theorem filter_directivePhrases (name : String) (attributes : Attributes) :
    (session.directivePhrases setting name attributes).filter Phrase.isElementStart = [] := by
  have hbranch (isElse : Bool) (condition : String) :
      (branchPhrase isElse condition session.frames).isElementStart = false := by
    unfold branchPhrase
    split <;> rfl
  unfold directivePhrases
  cases TagKind.of name attributes with
  | elseIfTag | elseTag => exact List.filter_cons_of_neg (Bool.eq_false_iff.mp (hbranch _ _))
  | eachTag => cases eachClause? name attributes <;> rfl
  | ifTag | skipTag | script | metadata | element => rfl

theorem filter_phrases (event : Event) :
    (session.phrases setting event).filter Phrase.isElementStart =
      (session.rendering? event).toList.map (Rendering.start setting) := by
  cases event with
  | opened name attributes span =>
    cases hrendering : session.rendering? (.opened name attributes span) with
    | none =>
      rw [phrases_of_directive setting hrendering]
      exact session.filter_directivePhrases setting name attributes
    | some rendering =>
      rw [phrases_of_rendering setting hrendering]
      exact rendering.filter_phrases setting
  | text content span =>
    simp only [phrases, rendering?, textPhrases]
    split
    · rfl
    · split <;> rfl
  | closed name span => exact filter_closing _

/-- The script opens the rendered elements, in document order. -/
theorem filter_script (events : List Event) :
    (session.script setting events).filter Phrase.isElementStart =
      (session.renderings setting events).map (Rendering.start setting) := by
  induction events generalizing session with
  | nil => rfl
  | cons event events ih =>
    rw [script, List.filter_append, filter_phrases, ih, renderings, List.map_append]

theorem filter_wholeScript (events : List Event) :
    (wholeScript setting events).filter Phrase.isElementStart =
      (start.renderings setting events).map (Rendering.start setting) := by
  rw [wholeScript, List.filter_append, filter_closing, List.append_nil, filter_script]

end Session

end Script

/-- No key but that of a child reads like a child key. -/
theorem ElementKey.expression_eq_childKey {key : ElementKey} {number ordinal : Nat}
    (hkey : key.expression = childKey (keyVariable number) ordinal) :
    ∃ other, key = .ofChild number other := by
  have hlists := congrArg String.toList hkey
  simp only [childKey, keyVariable, String.toList_append, List.append_assoc] at hlists
  cases key with
  | given key => simp [expression, Script.quote, Script.quoteChars] at hlists
  | generated id => simp [expression, Script.quote, Script.quoteChars] at hlists
  | ofLoop other =>
    simp only [expression, keyVariable, String.toList_append, List.append_cancel_left_eq] at hlists
    have hspace : ' ' ∈ (toString other).toList := by
      rw [hlists]
      simp
    exact (notMem_toString rfl other hspace).elim
  | ofChild other child =>
    simp only [expression, childKey, keyVariable, String.toList_append, List.append_assoc,
      List.append_cancel_left_eq] at hlists
    obtain rfl : other = number := eq_of_append_space hlists
    exact ⟨child, rfl⟩

/-- Child keys are consecutive. The script opens the rendered elements with their keys, in document
    order. Those that stand in the body of a loop and have neither a key nor a loop of their own get
    the keys of that loop with the numbers from one on, however the tags around them are nested or
    closed, and no other element gets a key of that form. -/
theorem child_keys_consecutive (options : Options) (ids : IdSource) (size : Nat)
    (events : List Event) (number : Nat) :
    let setting : Setting := ⟨ids, options.noStatics⟩
    let phrases := Session.wholeScript setting events
    let rendered := Session.start.renderings setting events
    let children := rendered.filter (Rendering.isChildOf number)
    let keyOf (rendering : Rendering) := (rendering.key setting).map ElementKey.expression
    (runSession options ids size events).listing = phrases.foldl Phrase.write Listing.empty ∧
      phrases.filter Phrase.isElementStart = rendered.map (Rendering.start setting) ∧
      children.map keyOf = (List.range' 1 children.length).map (fun ordinal =>
        some (childKey (keyVariable number) ordinal)) ∧
      ∀ rendering ∈ rendered, rendering.isChildOf number = false →
        ∀ ordinal, keyOf rendering ≠ some (childKey (keyVariable number) ordinal) := by
  intro setting phrases rendered children keyOf
  have hkeys : children.map (Rendering.key setting) =
      (List.range' 1 children.length).map (some ∘ .ofChild number) :=
    (counted_start number).renderings setting Session.descending_start events
  refine ⟨Session.listing_finish setting events size, Session.filter_wholeScript setting events,
    ?_, ?_⟩
  · have hexpressions := congrArg (List.map (Option.map ElementKey.expression)) hkeys
    rw [List.map_map, List.map_map] at hexpressions
    exact hexpressions
  · intro rendering hrendered hother ordinal hkey
    obtain ⟨key, hkey, hexpression⟩ := Option.map_eq_some_iff.mp hkey
    obtain ⟨child, rfl⟩ := ElementKey.expression_eq_childKey hexpression
    obtain ⟨_, hgiven⟩ | ⟨_, hid⟩ | ⟨_, hloop, -⟩ | ⟨_, -, hplaced, -⟩ := Rendering.key_cases hkey
    · cases hgiven
    · cases hid
    · cases hloop
    · have hchild := (rendering.isChildOf_iff setting number).mpr ⟨child, hplaced⟩
      rw [hother] at hchild
      cases hchild

/-- A loop with three children, one of them in a branch without an end tag, and a fourth element in
    between that has a key of its own. -/
theorem child_keys_consecutive_branches :
    let span := Span.point 0
    let setting : Setting := ⟨IdSource.sequential "k", false⟩
    let events := [.opened "each" (.ofList [("expression", "row in rows")]) span,
      .opened "if" (.ofList [("condition", "row")]) span, .opened "b" .empty span, .closed "b" span,
      .opened "else" .empty span, .opened "i" .empty span, .closed "i" span, .closed "if" span,
      .opened "u" (.ofList [("key", "own")]) span, .closed "u" span, .opened "p" .empty span,
      .closed "each" span]
    let rendered := Session.start.renderings setting events
    let keyOf (rendering : Rendering) := (rendering.key setting).map ElementKey.expression
    rendered.map Rendering.name = ["b", "i", "u", "p"] ∧
      (rendered.filter (Rendering.isChildOf 1)).map Rendering.name = ["b", "i", "p"] ∧
      (rendered.filter (Rendering.isChildOf 1)).map keyOf =
        [1, 2, 3].map fun ordinal => some (childKey (keyVariable 1) ordinal) := by
  intro span setting events rendered keyOf
  have hchildren : (rendered.filter (Rendering.isChildOf 1)).length = 3 := rfl
  obtain ⟨-, -, hkeys, -⟩ := child_keys_consecutive {} (IdSource.sequential "k") 9 events 1
  rw [hchildren] at hkeys
  exact ⟨rfl, rfl, hkeys⟩

end TemplateCompiler.Template
