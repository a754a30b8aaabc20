import TemplateCompiler.Proofs.ElementAttributes
import TemplateCompiler.Proofs.Forest.Exchange

namespace TemplateCompiler.Template

open Markup (Attribute Attributes Event Span)
open Script (Listing)

namespace Meaning

variable (setting : Setting) (name : String) (explicit : ExplicitKey) (span span' : Span)

/-- The attributes of an element as they are sorted for it. -/
def elementAttributes (attributes : Attributes) : Classified :=
  Classified.ofAttributes (attributes.erase "key")
    (ExplicitKey.ofAttribute (attributes.get? "key") = .empty || setting.noStatics)

theorem element_arranged (attributes : Attributes) (content : Meaning) :
    SameScript (.element setting name attributes span content)
      (.arranged setting name (.ofAttribute (attributes.get? "key"))
        (elementAttributes setting attributes) span content) :=
  fun _ _ => ⟨rfl, rfl⟩

section OnlyName

variable {directiveName : String} {directive : Directive}
  (hname : directive.onlyName? = some directiveName)

include hname

theorem key_ne_directiveName : "key" ≠ directiveName := by
  intro hsame
  have hdirective := (Directive.ofName?_eq_some_iff hname "key").mpr hsame
  cases hdirective

theorem value?_elementAttributes (attributes : Attributes) :
    (elementAttributes setting attributes).value? directive = attributes.get? directiveName :=
  (Classified.value?_ofAttributes hname _ _).trans
    (attributes.get?_erase_of_ne (key_ne_directiveName hname).symm)

/-- Without one of its directives an element keeps its key, and of its other attributes it loses
    nothing. -/
theorem element_erase (attributes : Attributes) (content : Meaning) :
    SameScript (.element setting name (attributes.erase directiveName) span content)
      (.arranged setting name (.ofAttribute (attributes.get? "key"))
        ((elementAttributes setting attributes).without directive) span content) := by
  have herased := element_arranged setting name span (attributes.erase directiveName) content
  unfold elementAttributes at herased ⊢
  rw [attributes.get?_erase_of_ne (key_ne_directiveName hname), attributes.erase_erase,
    Classified.ofAttributes_erase hname] at herased
  exact herased

end OnlyName

/-- What is inside an element is not told of the guard of the element, or of its skip. -/
theorem within_element (guarded guarded' skipped skipped' : Bool) (ownLoop : Option Nat)
    (content : Meaning) :
    within (.element guarded ownLoop skipped) content =
      within (.element guarded' ownLoop skipped') content := rfl

/-- What is inside an element is not told whether the element is skipped by a tag. -/
theorem within_element_skip (guarded skipped : Bool) (ownLoop : Option Nat) (condition : String)
    (content : Meaning) :
    within (.element guarded ownLoop skipped) (skipBlock condition (within .skip content)) =
      within (.element guarded ownLoop skipped) (skipBlock condition content) := by
  funext place tally
  simp only [within, skipBlock, block, indented, append_apply]
  rfl

/-- The call that renders an element does not depend on the directives of the element. -/
theorem rendered_without (ownLoop : Option Nat) (classified : Classified) (directive : Directive)
    (content : Meaning) :
    rendered setting name explicit ownLoop (classified.without directive) content =
      rendered setting name explicit ownLoop classified content := by
  cases directive <;> rfl

/-- A condition in its two forms. -/
theorem arranged_condition {classified : Classified} {condition : String}
    (hcondition : classified.condition = some condition) (content : Meaning) :
    SameScript (.arranged setting name explicit classified span content)
      (.conditional (conditionExpression (some condition))
        (.arranged setting name explicit (classified.without .condition) span' content)) := by
  have hinside : SameScript
      (.looped setting classified.iteration span fun ownLoop =>
        .rendered setting name explicit ownLoop classified
          (.within (.element true ownLoop classified.skip.isSome)
            (.skippable classified.skip span content)))
      (.looped setting classified.iteration span' fun ownLoop =>
        .rendered setting name explicit ownLoop classified
          (.within (.element false ownLoop classified.skip.isSome)
            (.skippable classified.skip span' content))) := by
    refine SameScript.looped (fun ownLoop => ?_) setting classified.iteration span span'
    refine SameScript.rendered ?_ setting name explicit ownLoop classified
    rw [within_element true false _ classified.skip.isSome]
    exact ((SameScript.refl content).skippable classified.skip span span').within _
  unfold conditional
  rw [(Detached.arranged setting name explicit _ span' content).within_conditional]
  unfold arranged
  simp only [rendered_without]
  rw [hcondition]
  exact (SameScript.report_append _ _ _).trans (hinside.block _ _)

/-- A skip in its two forms. -/
theorem arranged_skip {classified : Classified} {condition : String}
    (hskip : classified.skip = some condition) (content : Meaning) :
    SameScript (.arranged setting name explicit classified span content)
      (.arranged setting name explicit (classified.without .skip) span'
        (.skipBlock (conditionExpression (some condition)) (.within .skip content))) := by
  have hinside (ownLoop : Option Nat) : SameScript
      (.within (.element classified.condition.isSome ownLoop true)
        (.skippable (some condition) span content))
      (.within (.element classified.condition.isSome ownLoop false)
        (.skipBlock (conditionExpression (some condition)) (.within .skip content))) := by
    rw [within_element_skip, within_element _ classified.condition.isSome true false]
    exact (SameScript.report_append _ _ _).within _
  unfold arranged
  simp only [rendered_without]
  rw [hskip]
  refine SameScript.guarded ?_ classified.condition span span'
  refine SameScript.looped (fun ownLoop => ?_) setting classified.iteration span span'
  exact (hinside ownLoop).rendered setting name explicit ownLoop classified

/-- The key of an element that is given one if it has none of its own. -/
def givenKey (explicit : ExplicitKey) (generated : String) : String :=
  match explicit with
  | .literal key => Script.quote key
  | _ => generated

theorem givenKey_of_empty {value : Option String} (hvalue : value.getD "" = "")
    (generated : String) : givenKey (.ofAttribute value) generated = generated := by
  cases value with
  | none => rfl
  | some key =>
    subst hvalue
    rfl

theorem givenKey_of_nonempty {value : Option String} (hvalue : value.getD "" ≠ "")
    (generated : String) :
    givenKey (.ofAttribute value) generated = Script.quote (value.getD "") := by
  cases value with
  | none => exact absurd rfl hvalue
  | some key =>
    have hkey : key ≠ "" := hvalue
    simp only [ExplicitKey.ofAttribute, if_neg hkey, givenKey]
    rfl

/-- The reference to the statics of an element. -/
def staticsReference (statics : List Attribute) (pool : HoistPool) : Option String :=
  if statics = [] then none else some (pool.identifierOf (serializeStatics statics))

/-- What is hoisted together with the statics of an element. -/
def withStatics (statics : List Attribute) (tally : Tally) : Tally :=
  if statics = [] then tally
  else { tally with pool := tally.pool.addStatics (serializeStatics statics) }

theorem hoisted_some (statics : List Attribute) (key : String) (tally : Tally) :
    hoisted setting statics (some key) tally =
      (some key, staticsReference statics tally.pool, withStatics statics tally) := by
  unfold hoisted staticsReference withStatics
  split <;> rfl

/-- A rendered element with a key. -/
def keyed (key : String) (classified : Classified) (content : Meaning) : Meaning :=
  fun place tally =>
    block (Script.Call.elementOpen name (some key) (staticsReference classified.statics tally.pool)
        classified.properties)
      (Script.Call.elementClose name) content place (withStatics classified.statics tally)

theorem SameScript.keyed {first second : Meaning} (h : SameScript first second) (key : String)
    (classified : Classified) :
    SameScript (.keyed name key classified first) (.keyed name key classified second) :=
  fun place _ => h.block _ _ place _

/-- An element with a loop of its own takes the key of the loop. -/
theorem rendered_ownLoop (number : Nat) (classified : Classified) (content : Meaning) :
    rendered setting name explicit (some number) classified content =
      keyed name (givenKey explicit (keyVariable number)) classified content := by
  funext place tally
  unfold rendered elementKey
  cases explicit <;> simp only [hoisted_some] <;> rfl

/-- What is inside an element cannot tell a loop around the element from a loop of its own. -/
theorem leave_each_keyed (number children : Nat) (guarded skipped : Bool) (key : String)
    (classified : Classified) (content : Meaning) (place : Place) (tally : Tally) :
    let each := FrameKind.each (some ⟨number, 0⟩)
    let inside := keyed name key classified (within (.element guarded none skipped) content)
      (place.enter each) { tally.enter each with children }
    (inside.1, tally.leave each inside.2) =
      keyed name key classified (within (.element guarded (some number) skipped) content) place
        tally := by
  unfold keyed withStatics
  split <;> rfl

/-- An element in the body of a loop takes the next child key of the loop. -/
theorem rendered_of_body {place : Place} {number : Nat} (hbody : place.body = some number)
    (classified : Classified) (content : Meaning) (tally : Tally) :
    ∃ children, rendered setting name explicit none classified content place tally =
      keyed name (givenKey explicit (childKey (keyVariable number) (tally.children + 1))) classified
        content place { tally with children } := by
  unfold rendered elementKey
  rw [hbody]
  cases explicit with
  | absent | empty =>
    refine ⟨tally.children + 1, ?_⟩
    simp only [hoisted_some]
    rfl
  | literal key =>
    refine ⟨tally.children, ?_⟩
    simp only [hoisted_some]
    rfl

/-- The first element in the body of a loop takes the first child key of the loop. -/
theorem within_each_rendered (number : Nat) (guarded skipped : Bool) (classified : Classified)
    (content : Meaning) :
    within (.each (some ⟨number, 0⟩)) (rendered setting name explicit none classified
        (within (.element guarded none skipped) content)) =
      keyed name (givenKey explicit (childKey (keyVariable number) 1)) classified
        (within (.element guarded (some number) skipped) content) := by
  funext place tally
  have hbody : (place.enter (.each (some ⟨number, 0⟩))).body = some number := rfl
  obtain ⟨children, hrendered⟩ := rendered_of_body setting name explicit hbody classified
    (within (.element guarded none skipped) content) (tally.enter (.each (some ⟨number, 0⟩)))
  rw [← leave_each_keyed name number children guarded skipped]
  simp only [within] at hrendered ⊢
  rw [hrendered]
  rfl

/-- An iteration as an attribute: the loop is around an element with the key of the loop. -/
theorem arranged_iteration {classified : Classified} {expression : String} {clause : EachClause}
    (hcondition : classified.condition = none) (hiteration : classified.iteration = some expression)
    (hclause : EachClause.parse? expression = some clause) (content : Meaning) :
    SameScript (.arranged setting name explicit classified span content)
      (.numbered setting clause fun number =>
        .keyed name (givenKey explicit (keyVariable number)) classified
          (.within (.element false (some number) classified.skip.isSome)
            (.skippable classified.skip span content))) := by
  unfold arranged
  rw [hcondition, hiteration]
  simp only [guarded, looped_of_parse hclause, rendered_ownLoop]
  exact SameScript.refl _

/-- An iteration as a tag: the loop is around an element with the first child key of the loop. -/
theorem within_each_arranged {classified : Classified} {expression : String} {clause : EachClause}
    (hcondition : classified.condition = none)
    (hclause : EachClause.parse? expression = some clause) (content : Meaning) (outer : Span) :
    SameScript
      (.looped setting (some expression) outer fun number =>
        .within (.each (number.map (⟨·, 0⟩)))
          (.arranged setting name explicit (classified.without .iteration) span' content))
      (.numbered setting clause fun number =>
        .keyed name (givenKey explicit (childKey (keyVariable number) 1)) classified
          (.within (.element false (some number) classified.skip.isSome)
            (.skippable classified.skip span content))) := by
  rw [looped_of_parse hclause]
  refine SameScript.numbered (fun number => ?_) setting clause
  have harranged : arranged setting name explicit (classified.without .iteration) span' content =
      rendered setting name explicit none classified
        (within (.element false none classified.skip.isSome)
          (skippable classified.skip span' content)) := by
    unfold arranged
    simp only [rendered_without]
    simp only [Classified.without, hcondition]
    rfl
  rw [harranged, Option.map_some, within_each_rendered]
  have hcontent := (SameScript.refl content).skippable classified.skip span' span
  exact (hcontent.within _).keyed name _ classified

/-- A loop writes what opens it, then its content two levels further in, then what closes it. -/
theorem lines_loopBlocks {listing : Listing} {place : Place}
    (hlevel : listing.level = place.level) (number : Nat) (id : String) (clause : EachClause)
    (content : Meaning) (tally : Tally) :
    let inside := content { place with level := place.level + 2 } tally
    listing.lines ++ (loopBlocks number id clause content place tally).1.lines =
        (openLoopBlocks number place.loop id clause listing).lines ++ inside.1.lines ++
          Script.placeLines (place.level + 1) false (Text.splitLines iterationEnd) ++
          Script.placeLines place.level false (Text.splitLines blockEnd) ∧
      (loopBlocks number id clause content place tally).2 = inside.2 := by
  intro inside
  refine ⟨?_, ?_⟩
  · simp only [openLoopBlocks, Listing.openBlock, Listing.lines_write, Listing.lines_foldl_write,
      Listing.level_foldl_write, Listing.lines_indent, Listing.level_indent, Listing.level_write,
      hlevel, loopBlocks, lines_block, append_apply, Output.lines_append, write, writeKey,
      writeAll_apply, List.append_assoc]
    rfl
  · simp only [loopBlocks, tally_block, append_apply, writeAll_apply]
    rfl

/-- A loop around an element with a key: the key is in the call that opens the element, and nothing
    else depends on it. -/
theorem exists_numbered_keyed (session : Session) (clause : EachClause) (classified : Classified)
    (content : Nat → Meaning) :
    ∃ statics behind later, ∀ key : Nat → String,
      let output := numbered setting clause
        (fun number => keyed name (key number) classified (content number)) session.place
        session.tally
      session.listing.lines ++ output.1.lines =
          ((openLoopBlocks (session.loops + 1) (enclosingLoop session.frames)
            (setting.ids session.drawn) clause session.listing).write
              (Script.Call.elementOpen name (some (key (session.loops + 1))) statics
                classified.properties)).lines ++ behind ∧
        output.2 = later := by
  let number := session.loops + 1
  let counted : Tally := { session.tally with loops := number, drawn := session.drawn + 1 }
  let level := session.listing.level
  let inside := content number { session.place with level := level + 2 + 1 }
    (withStatics classified.statics counted)
  refine ⟨staticsReference classified.statics counted.pool, inside.1.lines ++
    Script.placeLines (level + 2) false (Text.splitLines (Script.Call.elementClose name)) ++
    Script.placeLines (level + 1) false (Text.splitLines iterationEnd) ++
    Script.placeLines level false (Text.splitLines blockEnd), inside.2, ?_⟩
  intro key output
  have hlevel : session.listing.level = session.place.level := rfl
  have hentered : (openLoopBlocks number (enclosingLoop session.frames) (setting.ids session.drawn)
      clause session.listing).level = level + 2 := by
    simp only [openLoopBlocks, Listing.openBlock, Listing.level_write, Listing.level_foldl_write,
      Listing.level_indent, level]
  obtain ⟨hlines, hlater⟩ := lines_loopBlocks hlevel number (setting.ids session.drawn) clause
    (keyed name (key number) classified (content number)) counted
  refine ⟨hlines.trans ?_, hlater.trans (tally_block _ _ _ _ _)⟩
  rw [keyed, lines_block, Listing.lines_write, hentered]
  simp only [List.append_assoc]
  rfl

theorem append_nothing (meaning : Meaning) : meaning ++ nothing = meaning := by
  funext place tally
  have houtput : (meaning place tally).1 ++ (⟨[], []⟩ : Output) = (meaning place tally).1 := by
    change Output.mk _ _ = _
    rw [List.append_nil, List.append_nil]
  exact congrArg (·, (meaning place tally).2) houtput

theorem tag_of_element {attributes : Attributes} (hkind : TagKind.of name attributes = .element)
    (content : Meaning) :
    tag setting name attributes span content = element setting name attributes span content := by
  unfold tag
  rw [hkind]

end Meaning

namespace Forest

/-- A tag with nothing behind it. -/
def node (name : String) (attributes : Attributes) (opening closing : Span) (children : Forest) :
    Forest :=
  .tag name attributes opening closing children .nil

/-- A tag with one attribute and nothing behind it. -/
def directive (name argument value : String) (opening closing : Span) (children : Forest) :
    Forest :=
  node name (Attributes.ofList [(argument, value)]) opening closing children

theorem meaning_node (setting : Setting) (name : String) (attributes : Attributes)
    (opening closing : Span) (children : Forest) :
    (node name attributes opening closing children).meaning setting =
      .tag setting name attributes opening (children.meaning setting) :=
  Meaning.append_nothing _

section Forms

variable {name : String} {attributes : Attributes}
  (hkind : TagKind.of name attributes = .element) (setting : Setting) (content : Forest)
  (opening closing opening' closing' outer outer' : Span)

include hkind

/-- A condition of an element may be an attribute or a tag around the element. -/
theorem sameScript_condition {condition : String}
    (hcondition : attributes.get? "if" = some condition) :
    ((node name attributes opening closing content).meaning setting).SameScript
      ((directive "if" "condition" condition outer outer'
        (node name (attributes.erase "if") opening' closing' content)).meaning setting) := by
  have hname : Directive.condition.onlyName? = some "if" := rfl
  have herased := (TagKind.of_erase hname name attributes).trans hkind
  have htag (content : Meaning) : Meaning.tag setting "if"
      (Attributes.ofList [("condition", condition)]) outer content =
        .checkCondition "if" (some condition) outer ++
          .conditional (conditionExpression (some condition)) content := rfl
  rw [directive, meaning_node, meaning_node, meaning_node, htag,
    Meaning.tag_of_element setting name opening hkind,
    Meaning.tag_of_element setting name opening' herased]
  have hplain := Meaning.element_erase setting name opening' hname attributes
    (content.meaning setting)
  have hforms := Meaning.arranged_condition setting name (.ofAttribute (attributes.get? "key"))
    opening opening' ((Meaning.value?_elementAttributes setting hname attributes).trans hcondition)
    (content.meaning setting)
  have htagged := (hplain.within (.conditional false)).block
    (ifHeader (conditionExpression (some condition))) blockEnd
  exact (hforms.trans htagged.symm).trans (Meaning.SameScript.report_append _ _ _).symm

/-- A skip of an element may be an attribute or a tag around the content of the element. -/
theorem sameScript_skip {condition : String} (hskip : attributes.get? "skip" = some condition) :
    ((node name attributes opening closing content).meaning setting).SameScript
      ((node name (attributes.erase "skip") opening' closing'
        (directive "skip" "condition" condition outer outer' content)).meaning setting) := by
  have hname : Directive.skip.onlyName? = some "skip" := rfl
  have herased := (TagKind.of_erase hname name attributes).trans hkind
  have htag (content : Meaning) : Meaning.tag setting "skip"
      (Attributes.ofList [("condition", condition)]) outer content =
        .checkCondition "skip" (some condition) outer ++
          .skipBlock (conditionExpression (some condition)) (.within .skip content) := rfl
  rw [directive, meaning_node, meaning_node, meaning_node, htag,
    Meaning.tag_of_element setting name opening hkind,
    Meaning.tag_of_element setting name opening' herased]
  have hplain (content : Meaning) := Meaning.element_erase setting name opening'
    hname attributes content
  have hforms := Meaning.arranged_skip setting name (.ofAttribute (attributes.get? "key"))
    opening opening' ((Meaning.value?_elementAttributes setting hname attributes).trans hskip)
    (content.meaning setting)
  have hchecked := (Meaning.SameScript.checkCondition_append "skip" (some condition) outer
    (.skipBlock (conditionExpression (some condition))
      (.within .skip (content.meaning setting)))).symm
  exact (hforms.trans (hchecked.arranged setting name _ _ opening' opening')).trans (hplain _).symm

/-- An iteration of an element may be an attribute or a tag around the element. Both forms are the
    same loop around the same element, with the key of the loop or with its first child key. -/
theorem sameScript_iteration {expression : String} {clause : EachClause}
    (hcondition : attributes.get? "if" = none)
    (hiteration : attributes.get? "each" = some expression)
    (hclause : EachClause.parse? expression = some clause) :
    let repeated (key : Nat → String) := Meaning.numbered setting clause fun number =>
      .keyed name (Meaning.givenKey (.ofAttribute (attributes.get? "key")) (key number))
        (Meaning.elementAttributes setting attributes)
        (.within (.element false (some number) (attributes.get? "skip").isSome)
          (.skippable (attributes.get? "skip") opening (content.meaning setting)))
    ((node name attributes opening closing content).meaning setting).SameScript
        (repeated keyVariable) ∧
      ((directive "each" "expression" expression outer outer'
        (node name (attributes.erase "each") opening' closing' content)).meaning setting).SameScript
          (repeated fun number => childKey (keyVariable number) 1) := by
  have hname : Directive.iteration.onlyName? = some "each" := rfl
  have hifName : Directive.condition.onlyName? = some "if" := rfl
  have hskipName : Directive.skip.onlyName? = some "skip" := rfl
  have herased := (TagKind.of_erase hname name attributes).trans hkind
  have htag (content : Meaning) : Meaning.tag setting "each"
      (Attributes.ofList [("expression", expression)]) outer content =
        .looped setting (some expression) outer fun number =>
          .within (.each (number.map (⟨·, 0⟩))) content := rfl
  have hnone := (Meaning.value?_elementAttributes setting hifName attributes).trans hcondition
  have hsome := (Meaning.value?_elementAttributes setting hname attributes).trans hiteration
  have hskip := Meaning.value?_elementAttributes setting hskipName attributes
  have hplain := Meaning.element_erase setting name opening' hname attributes
    (content.meaning setting)
  have htagged := Meaning.SameScript.looped
    (fun number => hplain.within (.each (number.map (⟨·, 0⟩)))) setting (some expression) outer
    outer
  intro repeated
  rw [directive, meaning_node, meaning_node, meaning_node, htag,
    Meaning.tag_of_element setting name opening hkind,
    Meaning.tag_of_element setting name opening' herased]
  simp only [repeated, ← hskip]
  refine ⟨?_, htagged.trans ?_⟩
  · exact Meaning.arranged_iteration setting name _ opening hnone hsome hclause _
  · exact Meaning.within_each_arranged setting name _ opening opening' hnone hclause _ outer

/-- With a key of its own, an element is the same in both forms of its iteration. -/
theorem sameScript_iteration_of_key {expression : String}
    (hcondition : attributes.get? "if" = none)
    (hiteration : attributes.get? "each" = some expression)
    (hclause : (EachClause.parse? expression).isSome)
    (hkey : (attributes.get? "key").getD "" ≠ "") :
    ((node name attributes opening closing content).meaning setting).SameScript
      ((directive "each" "expression" expression outer outer'
        (node name (attributes.erase "each") opening' closing' content)).meaning setting) := by
  obtain ⟨clause, hclause⟩ := Option.isSome_iff_exists.mp hclause
  obtain ⟨hown, htag⟩ := sameScript_iteration hkind setting content opening closing opening'
    closing' outer outer' hcondition hiteration hclause
  simp only [Meaning.givenKey_of_nonempty hkey] at hown htag
  exact hown.trans htag.symm

end Forms

end Forest

/-- Opening an each tag whose iteration can be read opens the blocks of its loop. -/
theorem Session.openTag_each {expression : String} {clause : EachClause}
    (hclause : EachClause.parse? expression = some clause) (setting : Setting) (session : Session)
    (span : Span) :
    let opened := Session.openTag setting session "each"
      (Attributes.ofList [("expression", expression)]) span
    opened.listing = openLoopBlocks (session.loops + 1) (enclosingLoop session.frames)
        (setting.ids session.drawn) clause session.listing ∧
      opened.loops = session.loops + 1 := by
  have hopened : Session.openTag setting session "each"
      (Attributes.ofList [("expression", expression)]) span =
        (Session.openLoop setting session expression span).1.push "each" (.each
          ((Session.openLoop setting session expression span).2.map (⟨·, 0⟩))) span := rfl
  rw [hopened]
  simp only [Session.openLoop, hclause]
  exact ⟨rfl, rfl⟩

end TemplateCompiler.Template

namespace TemplateCompiler

open Markup (Attributes Event Span)
open Template (EachClause Forest IdSource Meaning Session Setting TagKind childKey keyVariable)

/-- A loop as an attribute and as a tag, of an element without a key of its own: the programs differ
    in the key of the one call that opens the element. -/
theorem exists_program_iteration {name : String} {attributes : Attributes}
    (hkind : TagKind.of name attributes = .element) {expression : String}
    (hcondition : attributes.get? "if" = none)
    (hiteration : attributes.get? "each" = some expression)
    (hclause : (EachClause.parse? expression).isSome)
    (hkey : (attributes.get? "key").getD "" = "") (options : Options) (ids : IdSource) (size : Nat)
    (before behind : List Event) (content : Forest)
    (opening closing opening' closing' outer outer' : Span) :
    let setting : Setting := ⟨ids, options.noStatics⟩
    let program (forest : Forest) :=
      (runSession options ids size (before ++ forest.events ++ behind)).program options
    let tagged := Forest.directive "each" "expression" expression outer outer'
      (.node name (attributes.erase "each") opening' closing' content)
    let entered := Session.start.feedAll setting (before ++
      [.opened "each" (Attributes.ofList [("expression", expression)]) outer])
    ∃ statics properties after,
      let body (key : String) := (entered.listing.write
        (Script.Call.elementOpen name (some key) statics properties)).render options.indentWidth ++
          after
      program (.node name attributes opening closing content) =
          { program tagged with body := body (keyVariable entered.loops) } ∧
        (program tagged).body = body (childKey (keyVariable entered.loops) 1) := by
  intro setting program tagged entered
  obtain ⟨clause, hclause⟩ := Option.isSome_iff_exists.mp hclause
  let start := Session.start.feedAll setting before
  have hsettled : start.Settled := Session.settled_start.feedAll setting before
  have hgiven (key : String) : Meaning.givenKey (.ofAttribute (attributes.get? "key")) key = key :=
    Meaning.givenKey_of_empty hkey key
  obtain ⟨hown, htag⟩ := Forest.sameScript_iteration hkind setting content opening closing opening'
    closing' outer outer' hcondition hiteration hclause
  simp only [hgiven] at hown htag
  obtain ⟨hownLines, hownTally⟩ := hown start.place start.tally
  obtain ⟨htagLines, htagTally⟩ := htag start.place start.tally
  -- `start` is the state before the loop and `entered` the one inside it, with the loop's number
  have hentered : entered = Session.openTag setting start "each"
      (Attributes.ofList [("expression", expression)]) outer := by
    simp only [entered, Session.feedAll_append, Session.feedAll_cons, Session.feedAll_nil, start]
    rw [Session.feed]
  obtain ⟨hlisting, hloops⟩ := Session.openTag_each hclause setting start outer
  rw [← hentered] at hlisting hloops
  obtain ⟨statics, rest, later, hkeyed⟩ := Meaning.exists_numbered_keyed setting name start clause
    (Meaning.elementAttributes setting attributes)
    (fun number => .within (.element false (some number) (attributes.get? "skip").isSome)
      (.skippable (attributes.get? "skip") opening (content.meaning setting)))
  rw [← hlisting, ← hloops] at hkeyed
  obtain ⟨hownKeyed, hownLater⟩ := hkeyed keyVariable
  obtain ⟨htagKeyed, htagLater⟩ := hkeyed fun number => childKey (keyVariable number) 1
  obtain ⟨after, hprogram, hbody⟩ := Session.exists_program_exchange hsettled setting
    ((congrArg (start.listing.lines ++ ·) hownLines).trans hownKeyed)
    ((congrArg (start.listing.lines ++ ·) htagLines).trans htagKeyed)
    (hownTally.trans (hownLater.trans (htagTally.trans htagLater).symm)) options size behind
  rw [List.map_append, List.append_assoc] at hprogram hbody
  refine ⟨statics, (Meaning.elementAttributes setting attributes).properties,
    rest.map (Script.Line.render options.indentWidth) ++ after, ?_, ?_⟩
  · simp only [program, runSession_append]
    exact hprogram
  · simp only [program, runSession_append]
    exact hbody

/-- A directive of an element may be an attribute or a tag. In any template, balanced or not, and
with any content of the element, both forms of a condition and both forms of a skip give the same
program. So do both forms of an iteration that can be read, on an element without a condition, if
the element has a key; if it has none, the programs differ in the one call that opens the element,
which gets the key of the loop in one form and the first child key of the loop in the other. The
tags may have any spans. -/
theorem directive_forms (options : Options) (ids : IdSource) (size : Nat)
    (before behind : List Event) (name : String) (attributes : Attributes)
    (hkind : TagKind.of name attributes = .element) (content : Forest)
    (opening closing opening' closing' outer outer' : Span) :
    let setting : Setting := ⟨ids, options.noStatics⟩
    let program (forest : Forest) :=
      (runSession options ids size (before ++ forest.events ++ behind)).program options
    let element := Forest.node name attributes opening closing content
    (∀ condition, attributes.get? "if" = some condition →
      program element = program (.directive "if" "condition" condition outer outer'
        (.node name (attributes.erase "if") opening' closing' content))) ∧
    (∀ condition, attributes.get? "skip" = some condition →
      program element = program (.node name (attributes.erase "skip") opening' closing'
        (.directive "skip" "condition" condition outer outer' content))) ∧
    ∀ expression, attributes.get? "if" = none → attributes.get? "each" = some expression →
      (EachClause.parse? expression).isSome →
      let tagged := Forest.directive "each" "expression" expression outer outer'
        (.node name (attributes.erase "each") opening' closing' content)
      let entered := Session.start.feedAll setting (before ++
        [.opened "each" (Attributes.ofList [("expression", expression)]) outer])
      ((attributes.get? "key").getD "" ≠ "" → program element = program tagged) ∧
      ((attributes.get? "key").getD "" = "" → ∃ statics properties after,
        let body (key : String) := (entered.listing.write
          (Script.Call.elementOpen name (some key) statics properties)).render
            options.indentWidth ++ after
        program element = { program tagged with body := body (keyVariable entered.loops) } ∧
          (program tagged).body = body (childKey (keyVariable entered.loops) 1)) := by
  intro setting program element
  refine ⟨?_, ?_, ?_⟩
  · intro condition hcondition
    exact program_exchange (fun setting => Forest.sameScript_condition hkind setting content
      _ _ _ _ _ _ hcondition) options ids size before behind
  · intro condition hskip
    exact program_exchange (fun setting => Forest.sameScript_skip hkind setting content
      _ _ _ _ _ _ hskip) options ids size before behind
  · intro expression hcondition hiteration hclause tagged entered
    refine ⟨?_, ?_⟩
    · intro hkey
      exact program_exchange (fun setting => Forest.sameScript_iteration_of_key hkind setting
        content _ _ _ _ _ _ hcondition hiteration hclause hkey) options ids size before behind
    · intro hkey
      exact exists_program_iteration hkind hcondition hiteration hclause hkey options ids size
        before behind content opening closing opening' closing' outer outer'

/-- An item with a condition and a skip, and one with an iteration, inside a list that is never
closed. -/
theorem directive_forms_list_item :
    let span := Span.point 0
    let content := Forest.text "a" span .nil
    let program (forest : Forest) := (runSession {} (IdSource.sequential "k") 9
      ([.opened "ul" Attributes.empty span] ++ forest.events ++ [.closed "p" span])).program {}
    let guarded := Attributes.ofList [("if", "shown"), ("skip", "same")]
    let repeated := Attributes.ofList [("each", "x in xs")]
    let keyed := Attributes.ofList [("each", "x in xs"), ("key", "item")]
    TagKind.of "li" guarded = .element ∧ TagKind.of "li" repeated = .element ∧
    TagKind.of "li" keyed = .element ∧
    program (.node "li" guarded span span content) =
      program (.directive "if" "condition" "shown" span span
        (.node "li" (guarded.erase "if") span span content)) ∧
    program (.node "li" guarded span span content) =
      program (.node "li" (guarded.erase "skip") span span
        (.directive "skip" "condition" "same" span span content)) ∧
    program (.node "li" keyed span span content) =
      program (.directive "each" "expression" "x in xs" span span
        (.node "li" (keyed.erase "each") span span content)) ∧
    ∃ statics properties after,
      let entered := Session.start.feedAll ⟨IdSource.sequential "k", false⟩
        ([.opened "ul" Attributes.empty span] ++
          [.opened "each" (Attributes.ofList [("expression", "x in xs")]) span])
      let tagged := Forest.directive "each" "expression" "x in xs" span span
        (.node "li" (repeated.erase "each") span span content)
      let body (key : String) := (entered.listing.write
        (Script.Call.elementOpen "li" (some key) statics properties)).render 2 ++ after
      program (.node "li" repeated span span content) =
          { program tagged with body := body (keyVariable entered.loops) } ∧
        (program tagged).body = body (childKey (keyVariable entered.loops) 1) := by
  intro span content program guarded repeated keyed
  have hguarded := directive_forms {} (IdSource.sequential "k") 9
    [.opened "ul" Attributes.empty span] [.closed "p" span] "li" guarded rfl content span span span
    span span span
  have hrepeated := directive_forms {} (IdSource.sequential "k") 9
    [.opened "ul" Attributes.empty span] [.closed "p" span] "li" repeated rfl content span span span
    span span span
  have hkeyed := directive_forms {} (IdSource.sequential "k") 9
    [.opened "ul" Attributes.empty span] [.closed "p" span] "li" keyed rfl content span span span
    span span span
  exact ⟨rfl, rfl, rfl, hguarded.1 "shown" rfl, hguarded.2.1 "same" rfl,
    (hkeyed.2.2 "x in xs" rfl rfl (by decide)).1 (by decide),
    (hrepeated.2.2 "x in xs" rfl rfl (by decide)).2 rfl⟩

end TemplateCompiler
