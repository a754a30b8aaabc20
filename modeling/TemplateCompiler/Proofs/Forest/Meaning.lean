import TemplateCompiler.Proofs.OpenTags
import TemplateCompiler.Template.Session

namespace TemplateCompiler.Template

open Markup (Attributes Event Span)
open Script (Line)

/-- A forest of template nodes: texts, and tags with the nodes inside them. -/
inductive Forest where
  | nil
  | text (content : String) (span : Span) (rest : Forest)
  | tag (name : String) (attributes : Attributes) (opening closing : Span)
      (children rest : Forest)

/-- The events of a forest in document order. A list of events is well nested if it is the list of
    some forest. -/
def Forest.events : Forest → List Event
  | nil => []
  | text content span rest => .text content span :: rest.events
  | tag name attributes opening closing children rest =>
    .opened name attributes opening :: (children.events ++ .closed name closing :: rest.events)

/-- Where a node stands. -/
structure Place where
  /-- The level of its lines. -/
  level : Nat
  /-- Whether it is in no tag. -/
  outermost : Bool
  /-- If it is directly in a script, whether that one is hoisted. -/
  script : Option Bool
  /-- The number of the innermost loop around it. -/
  loop : Option Nat
  /-- The number of the loop whose body it is a child of. -/
  body : Option Nat
  /-- Whether a branch here would stand in a conditional, apart from other branches. -/
  chained : Bool
deriving DecidableEq, Repr

/-- What is counted and collected in document order. -/
structure Tally where
  pool : HoistPool
  loops : Nat
  drawn : Nat
  metadata : Option Metadata
  /-- How many children of the loop body around have got a key from it. -/
  children : Nat
  /-- Whether the conditional around has had its else. -/
  elseSeen : Bool
deriving DecidableEq, Repr

/-- Where the content of a tag at a place stands. -/
def Place.enter (place : Place) (kind : FrameKind) : Place where
  level := place.level
  outermost := false
  script := kind.script?
  loop := kind.loop?.or place.loop
  body := if kind.isTransparent then place.body else kind.bodyLoop?.map Loop.number
  chained := if kind.isBranch then place.chained else kind.elseSeen?.isSome

/-- What the content of a tag starts with. Its children and its else are counted afresh unless the
    content belongs to the loop body or the conditional around the tag. -/
def Tally.enter (tally : Tally) (kind : FrameKind) : Tally :=
  { tally with
    children := if kind.isTransparent then tally.children else 0
    elseSeen := if kind.isBranch then tally.elseSeen else false }

/-- What follows a tag, given what its content ends with. -/
def Tally.leave (tally : Tally) (kind : FrameKind) (inside : Tally) : Tally :=
  { inside with
    children := if kind.isTransparent then inside.children else tally.children
    elseSeen := if kind.isBranch then inside.elseSeen else tally.elseSeen }

/-- Lines of script, and the problems found on the way. -/
structure Output where
  lines : List Line
  diagnostics : List Diagnostic
deriving DecidableEq, Repr

instance : Append Output where
  append first second := ⟨first.lines ++ second.lines, first.diagnostics ++ second.diagnostics⟩

theorem Output.lines_append (first second : Output) :
    (first ++ second).lines = first.lines ++ second.lines := rfl

/-- What a part of a template is compiled to at a place, and what it hands on. -/
def Meaning : Type := Place → Tally → Output × Tally

namespace Meaning

/-- Nothing at all. -/
def nothing : Meaning := fun _ tally => (⟨[], []⟩, tally)

/-- One part behind the other. -/
instance : Append Meaning where
  append first second := fun place tally =>
    ((first place tally).1 ++ (second place (first place tally).2).1,
      (second place (first place tally).2).2)

theorem append_apply (first second : Meaning) (place : Place) (tally : Tally) :
    (first ++ second) place tally =
      ((first place tally).1 ++ (second place (first place tally).2).1,
        (second place (first place tally).2).2) := rfl

/-- A piece of script. -/
def write (text : String) : Meaning := fun place tally =>
  (⟨Script.placeLines place.level false (Text.splitLines text), []⟩, tally)

/-- Pieces of script, one behind the other. -/
def writeAll (texts : List String) : Meaning :=
  texts.foldr (fun text later => write text ++ later) nothing

theorem writeAll_apply (texts : List String) (place : Place) (tally : Tally) :
    writeAll texts place tally =
      (⟨texts.flatMap fun text =>
        Script.placeLines place.level false (Text.splitLines text), []⟩, tally) := by
  induction texts with
  | nil => rfl
  | cons text texts ih =>
    change ((write text place tally).1 ++ (writeAll texts place tally).1,
      (writeAll texts place tally).2) = _
    rw [ih]
    rfl

/-- Problems without any script. -/
def found (diagnostics : List Diagnostic) : Meaning := fun _ tally => (⟨[], diagnostics⟩, tally)

/-- Problems of one place in the source. -/
def report (problems : List Problem) (span : Span) : Meaning :=
  found (problems.map (⟨·, span⟩))

/-- A change to what is handed on, without any script. -/
def tallied (change : Tally → Tally) : Meaning := fun _ tally => (⟨[], []⟩, change tally)

theorem tallied_append (change : Tally → Tally) (meaning : Meaning) (place : Place) (tally : Tally) :
    (tallied change ++ meaning) place tally = meaning place (change tally) := rfl

/-- One level further in. -/
def indented (content : Meaning) : Meaning := fun place =>
  content { place with level := place.level + 1 }

/-- One level further out. -/
def outdented (content : Meaning) : Meaning := fun place =>
  content { place with level := place.level - 1 }

/-- A block between its opening and its closing line. -/
def block (header closer : String) (content : Meaning) : Meaning :=
  write header ++ indented content ++ write closer

theorem lines_block (header closer : String) (content : Meaning) (place : Place) (tally : Tally) :
    (block header closer content place tally).1.lines =
      Script.placeLines place.level false (Text.splitLines header) ++
        (content { place with level := place.level + 1 } tally).1.lines ++
        Script.placeLines place.level false (Text.splitLines closer) := rfl

theorem tally_block (header closer : String) (content : Meaning) (place : Place) (tally : Tally) :
    (block header closer content place tally).2 =
      (content { place with level := place.level + 1 } tally).2 := rfl

/-- The content of a tag. -/
def within (kind : FrameKind) (content : Meaning) : Meaning := fun place tally =>
  let inside := content (place.enter kind) (tally.enter kind)
  (inside.1, tally.leave kind inside.2)

/-- The problem of a condition that cannot be used. -/
def checkCondition (directive : String) (value : Option String) (span : Span) : Meaning :=
  report ((conditionIssue? value).toList.map fun issue =>
    .conditionInterpolation directive issue.message) span

/-- Content that is skipped on a condition. -/
def skipBlock (condition : String) (content : Meaning) : Meaning :=
  write (ifHeader condition) ++ indented (write Script.Call.skip) ++
    block elseHeader blockEnd content

/-- A conditional of its own. -/
def conditional (condition : String) (content : Meaning) : Meaning :=
  block (ifHeader condition) blockEnd (within (.conditional false) content)

/-- A further branch of the conditional around: a line at the level of the conditional itself, and
    content that goes on inside it. -/
def continued (isElse : Bool) (condition : String) (content : Meaning) : Meaning :=
  outdented (write (if isElse then elseHeader else elseIfHeader condition)) ++
    tallied ({ · with elseSeen := isElse }) ++ within .branch content

/-- A branch that has no conditional to continue becomes one of its own. -/
def refused (refusal : ChainRefusal) (name condition : String) (span : Span) (content : Meaning) :
    Meaning :=
  report [.unmatchedDirective name refusal.message] span ++ conditional condition content

/-- A branch continues the conditional around it as long as that one has had no else. -/
def branch (isElse : Bool) (name condition : String) (span : Span) (content : Meaning) : Meaning :=
  fun place tally =>
    if !place.chained then refused .notInside name condition span content place tally
    else if tally.elseSeen then refused .elseSeen name condition span content place tally
    else continued isElse condition content place tally

/-- The line that makes the key of a loop's current item from that of the loop around it. -/
def writeKey (number : Nat) (id : String) (clause : EachClause) : Meaning := fun place =>
  write (keyLine number place.loop id clause) place

/-- The blocks of a loop around what is repeated. -/
def loopBlocks (number : Nat) (id : String) (clause : EachClause) (content : Meaning) : Meaning :=
  write (targetLine number clause) ++
    block (ifHeader (targetVariable number ++ " != null")) blockEnd
      (block (iterationHeader number) iterationEnd
        (writeAll (bindingLines number clause) ++
          writeKey number id clause ++ content))

/-- A loop around what is repeated, with the next number and the next generated id. -/
def numbered (setting : Setting) (clause : EachClause) (repeated : Nat → Meaning) : Meaning :=
  fun place tally =>
    loopBlocks (tally.loops + 1) (setting.ids tally.drawn) clause (repeated (tally.loops + 1)) place
      { tally with loops := tally.loops + 1, drawn := tally.drawn + 1 }

/-- Content that is repeated if it has an iteration, and is told the number of its loop. An
    iteration that cannot be read repeats nothing. -/
def looped (setting : Setting) (iteration : Option String) (span : Span)
    (content : Option Nat → Meaning) : Meaning :=
  match iteration with
  | none => content none
  | some expression =>
    match EachClause.parse? expression with
    | none => report [.invalidIteration expression] span ++ content none
    | some clause => numbered setting clause fun number => content (some number)

theorem looped_of_parse_none {expression : String} (hclause : EachClause.parse? expression = none)
    (setting : Setting) (span : Span) (content : Option Nat → Meaning) :
    looped setting (some expression) span content =
      report [.invalidIteration expression] span ++ content none := by
  simp only [looped, hclause]

theorem looped_of_parse {expression : String} {clause : EachClause}
    (hclause : EachClause.parse? expression = some clause) (setting : Setting) (span : Span)
    (content : Option Nat → Meaning) :
    looped setting (some expression) span content =
      numbered setting clause fun number => content (some number) := by
  simp only [looped, hclause]

/-- Content that is only rendered on a condition, if it has one. -/
def guarded (condition : Option String) (span : Span) (content : Meaning) : Meaning :=
  match condition with
  | none => content
  | some value => checkCondition "if" (some value) span ++
      block (ifHeader (conditionExpression (some value))) blockEnd content

/-- Content that is skipped on a condition, if it has one. -/
def skippable (skip : Option String) (span : Span) (content : Meaning) : Meaning :=
  match skip with
  | none => content
  | some value => checkCondition "skip" (some value) span ++
      skipBlock (conditionExpression (some value)) content

/-- The key of an element: its own, that of its own loop, or the next one of the loop body it is a
    child of. -/
def elementKey (explicit : ExplicitKey) (ownLoop : Option Nat) (place : Place) (tally : Tally) :
    Option String × Tally :=
  match explicit, ownLoop, place.body with
  | .literal key, _, _ => (some (Script.quote key), tally)
  | _, some number, _ => (some (keyVariable number), tally)
  | _, none, some number =>
    (some (childKey (keyVariable number) (tally.children + 1)),
      { tally with children := tally.children + 1 })
  | _, none, none => (none, tally)

/-- The key of an element and the reference to its hoisted statics. An element with statics that has
    no key yet gets the next generated one. -/
def hoisted (setting : Setting) (statics : List Markup.Attribute) (key : Option String)
    (tally : Tally) : Option String × Option String × Tally :=
  if statics = [] then (key, none, tally)
  else
    let text := serializeStatics statics
    let reference := some (tally.pool.identifierOf text)
    match key with
    | some key => (some key, reference, { tally with pool := tally.pool.addStatics text })
    | none =>
      (some (Script.quote (setting.ids tally.drawn)), reference,
        { tally with pool := tally.pool.addStatics text, drawn := tally.drawn + 1 })

/-- A rendered element between its two calls. -/
def rendered (setting : Setting) (name : String) (explicit : ExplicitKey) (ownLoop : Option Nat)
    (classified : Classified) (content : Meaning) : Meaning := fun place tally =>
  let (key, keyed) := elementKey explicit ownLoop place tally
  let (key, statics, hoisted) := hoisted setting classified.statics key keyed
  block (Script.Call.elementOpen name key statics classified.properties)
    (Script.Call.elementClose name) content place hoisted

/-- An element with its attributes sorted by role: its guard around its loop around its two calls
    around its content, which may be skipped. -/
def arranged (setting : Setting) (name : String) (explicit : ExplicitKey) (classified : Classified)
    (span : Span) (content : Meaning) : Meaning :=
  guarded classified.condition span
    (looped setting classified.iteration span fun ownLoop =>
      rendered setting name explicit ownLoop classified
        (within (.element classified.condition.isSome ownLoop classified.skip.isSome)
          (skippable classified.skip span content)))

/-- An element. -/
def element (setting : Setting) (name : String) (attributes : Attributes) (span : Span)
    (content : Meaning) : Meaning :=
  let explicit := ExplicitKey.ofAttribute (attributes.get? "key")
  let classified := Classified.ofAttributes (attributes.erase "key")
    (explicit = .empty || setting.noStatics)
  report (classified.chained.map Problem.chainedAttribute) span ++
    report (classified.issues.map fun (name, issue) =>
      .attributeInterpolation name issue.message) span ++
    arranged setting name explicit classified span content

/-- What a template tag says about the function. -/
def described (attributes : Attributes) (span : Span) : Meaning :=
  let name := (attributes.get? "name").map Text.trimmed
  report ((name.filter (!Script.isIdentifier ·)).toList.map Problem.invalidFunctionName) span ++
    tallied fun tally =>
      { tally with
        metadata := some
          { name := name.filter Script.isIdentifier
            args := (attributes.get? "args").filter (!Text.allBlank ·) } }

/-- A tag around its content. -/
def tag (setting : Setting) (name : String) (attributes : Attributes) (span : Span)
    (content : Meaning) : Meaning :=
  let condition := tagCondition attributes
  match TagKind.of name attributes with
  | .ifTag =>
    checkCondition name condition span ++ conditional (conditionExpression condition) content
  | .elseIfTag =>
    checkCondition name condition span ++
      branch false name (conditionExpression condition) span content
  | .elseTag =>
    checkCondition name condition span ++
      branch true name (conditionExpression condition) span content
  | .eachTag =>
    looped setting (some ((attributes.get? "expression").getD "")) span fun number =>
      within (.each (number.map (⟨·, 0⟩))) content
  | .skipTag =>
    checkCondition name condition span ++
      skipBlock (conditionExpression condition) (within .skip content)
  | .script => within (.literal (attributes.contains "hoisted")) content
  | .metadata => fun place tally =>
    if place.outermost ∧ tally.metadata = none then
      (described attributes span ++ within .template content) place tally
    else
      (report [.extraMetadata] span ++ element setting name attributes span content) place tally
  | .element => element setting name attributes span content

/-- A text. -/
def text (content : String) (span : Span) : Meaning := fun place =>
  if Text.allBlank content then nothing place
  else
    match place.script with
    | some true =>
      tallied (fun tally => { tally with pool := tally.pool.addLiteral (Text.trimmed content) }) place
    | some false => write (Text.trimmed content) place
    | none =>
      let interpolation := Interpolation.ofString content
      (found (interpolation.issues.map fun issue =>
          ⟨.textInterpolation issue.message, Session.issueSpan span issue⟩) ++
        write (Script.Call.text interpolation.expression)) place

end Meaning

namespace Forest

/-- What a forest is compiled to. -/
def meaning (setting : Setting) : Forest → Meaning
  | nil => .nothing
  | text content span rest => .text content span ++ rest.meaning setting
  | tag name attributes opening _ children rest =>
    .tag setting name attributes opening (children.meaning setting) ++ rest.meaning setting

/-- Where the nodes of a template stand that are in no tag. -/
def root : Place where
  level := 0
  outermost := true
  script := none
  loop := none
  body := none
  chained := false

/-- Nothing counted or collected yet. -/
def blank : Tally where
  pool := HoistPool.empty
  loops := 0
  drawn := 0
  metadata := none
  children := 0
  elseSeen := false

/-- What a whole template is compiled to. -/
def outcome (options : Options) (ids : IdSource) (forest : Forest) : Output × Tally :=
  forest.meaning ⟨ids, options.noStatics⟩ root blank

/-- The function that a whole template is compiled to. -/
def program (options : Options) (ids : IdSource) (forest : Forest) : Package.Program :=
  let (output, tally) := forest.outcome options ids
  { signature := Package.Signature.ofParams
      ((tally.metadata.bind Metadata.name).getD options.functionName)
      ((tally.metadata.bind Metadata.args).getD options.functionArgs)
    body := output.lines.map (Line.render options.indentWidth)
    prologue := tally.pool.render }

end Forest

end TemplateCompiler.Template
