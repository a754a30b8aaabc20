import TemplateCompiler.Text.Lines

namespace TemplateCompiler.Script

/-- A line of script and the number of levels it is indented by. -/
structure Line where
  depth : Nat
  text : String
deriving DecidableEq, Repr

/-- The text of a line when each level takes `width` spaces. -/
def Line.render (width : Nat) (line : Line) : String :=
  Text.spaces (line.depth * width) ++ line.text

/-- Places the lines of one piece of script at a level. Empty lines and lines that continue a string
    literal stay unindented; `continued` tells whether the first one does. -/
def placeLines (level : Nat) : Bool → List String → List Line
  | _, [] => []
  | continued, text :: texts =>
    ⟨if continued || text == "" then 0 else level, text⟩ ::
      placeLines level (Text.isContinued text) texts

/-- One thing done to a listing. -/
inductive Step where
  /-- Moves the following lines one level in. -/
  | indent
  /-- Moves the following lines one level out, at most to the outermost one. -/
  | dedent
  /-- Appends a piece of script, which may have several lines. -/
  | write (text : String)
deriving DecidableEq, Repr

namespace Step

/-- The level behind a step that is taken at a level. -/
def levelAfter (level : Nat) : Step → Nat
  | indent => level + 1
  | dedent => level - 1
  | write _ => level

/-- The lines that a step adds at a level. -/
def linesAt (level : Nat) : Step → List Line
  | write text => placeLines level false (Text.splitLines text)
  | _ => []

end Step

/-- The lines of steps taken one after the other from a level on. -/
def placeSteps : Nat → List Step → List Line
  | _, [] => []
  | level, step :: steps => step.linesAt level ++ placeSteps (step.levelAfter level) steps

theorem placeSteps_append (level : Nat) (steps later : List Step) :
    placeSteps level (steps ++ later) =
      placeSteps level steps ++ placeSteps (steps.foldl Step.levelAfter level) later := by
  induction steps generalizing level with
  | nil => rfl
  | cons step steps ih => simp [placeSteps, ih]

/-- What has been done to a listing, in order. The lines and the level of the next one are read off
    the steps, so that it can also be told at which level each step was taken. -/
structure Listing where
  steps : List Step
deriving DecidableEq, Repr

namespace Listing

/-- No lines, at the outermost level. -/
def empty : Listing := ⟨[]⟩

/-- The level of the next line. -/
def level (listing : Listing) : Nat :=
  listing.steps.foldl Step.levelAfter 0

/-- The lines written so far. -/
def lines (listing : Listing) : List Line :=
  placeSteps 0 listing.steps

/-- Takes one more step. -/
def proceed (listing : Listing) (step : Step) : Listing :=
  ⟨listing.steps ++ [step]⟩

/-- Moves the following lines one level in. -/
def indent (listing : Listing) : Listing :=
  listing.proceed .indent

/-- Moves the following lines one level out, at most to the outermost one. -/
def dedent (listing : Listing) : Listing :=
  listing.proceed .dedent

/-- Appends a piece of script, which may have several lines. -/
def write (listing : Listing) (text : String) : Listing :=
  listing.proceed (.write text)

/-- Writes the opening line of a block and enters it. -/
def openBlock (listing : Listing) (header : String) : Listing :=
  (listing.write header).indent

/-- Leaves a block and writes its closing line. -/
def closeBlock (listing : Listing) (closer : String) : Listing :=
  listing.dedent.write closer

/-- Leaves a block and enters the next one of the same construct with a line between them. -/
def continueBlock (listing : Listing) (header : String) : Listing :=
  listing.dedent.openBlock header

/-- The text of all lines when each level takes `width` spaces. -/
def render (width : Nat) (listing : Listing) : List String :=
  listing.lines.map (Line.render width)

theorem level_proceed (listing : Listing) (step : Step) :
    (listing.proceed step).level = step.levelAfter listing.level := by
  simp [level, proceed]

theorem lines_proceed (listing : Listing) (step : Step) :
    (listing.proceed step).lines = listing.lines ++ step.linesAt listing.level := by
  simp [lines, proceed, placeSteps_append, placeSteps, level]

@[simp]
theorem level_indent (listing : Listing) : listing.indent.level = listing.level + 1 :=
  level_proceed listing .indent

@[simp]
theorem level_dedent (listing : Listing) : listing.dedent.level = listing.level - 1 :=
  level_proceed listing .dedent

@[simp]
theorem level_write (listing : Listing) (text : String) :
    (listing.write text).level = listing.level :=
  level_proceed listing (.write text)

@[simp]
theorem lines_indent (listing : Listing) : listing.indent.lines = listing.lines := by
  simp [indent, lines_proceed, Step.linesAt]

@[simp]
theorem lines_dedent (listing : Listing) : listing.dedent.lines = listing.lines := by
  simp [dedent, lines_proceed, Step.linesAt]

@[simp]
theorem lines_write (listing : Listing) (text : String) :
    (listing.write text).lines =
      listing.lines ++ placeLines listing.level false (Text.splitLines text) :=
  lines_proceed listing (.write text)

theorem level_foldl_write (listing : Listing) (texts : List String) :
    (texts.foldl write listing).level = listing.level := by
  induction texts generalizing listing with
  | nil => rfl
  | cons text texts ih => rw [List.foldl_cons, ih, level_write]

theorem lines_foldl_write (listing : Listing) (texts : List String) :
    (texts.foldl write listing).lines =
      listing.lines ++ texts.flatMap fun text =>
        placeLines listing.level false (Text.splitLines text) := by
  induction texts generalizing listing with
  | nil => simp
  | cons text texts ih =>
    rw [List.foldl_cons, ih, level_write, lines_write, List.flatMap_cons, List.append_assoc]

end Listing

end TemplateCompiler.Script
