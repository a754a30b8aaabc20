import TemplateCompiler.Markup.Span
import TemplateCompiler.Script.Call
import TemplateCompiler.Script.Listing
import TemplateCompiler.Template.Key

namespace TemplateCompiler.Template

open Markup (Span)
open Script (Listing)

/-- The loop of an each tag: its number and the children that have got a key from it. -/
structure Loop where
  number : Nat
  children : Nat
deriving DecidableEq, Repr

/-- What an open tag is to the generated script. -/
inductive FrameKind where
  /-- The template tag that describes the function. -/
  | template
  /-- A script that is kept as written. -/
  | literal (hoisted : Bool)
  /-- A conditional, which may have had its last branch. -/
  | conditional (elseSeen : Bool)
  /-- A further branch of the conditional around it. -/
  | branch
  /-- Content that is rendered unless it is skipped. -/
  | skip
  /-- The body of a loop, unless its iteration could not be read. -/
  | each (loop : Option Loop)
  /-- A rendered element with the guards and the numbered loop of its own attributes. -/
  | element (guarded : Bool) (loop : Option Nat) (skip : Bool)
deriving DecidableEq, Repr

/-- An open tag. -/
structure Frame where
  name : String
  kind : FrameKind
  span : Span
deriving DecidableEq, Repr

/-- The last line of a block. -/
def blockEnd : String := "\x7d"

/-- The last line of the function called with each item of a loop. -/
def iterationEnd : String := "\x7d, this)"

/-- Closes the two blocks of a loop. -/
def closeLoop (listing : Listing) : Listing :=
  (listing.closeBlock iterationEnd).closeBlock blockEnd

namespace Frame

/-- Whether a frame is a further branch of a conditional, which may stay without an end tag. -/
def isBranch (frame : Frame) : Bool :=
  frame.kind == .branch

/-- The number of the loop that a frame runs. -/
def loop? (frame : Frame) : Option Nat :=
  match frame.kind with
  | .each loop => loop.map Loop.number
  | .element _ loop _ => loop
  | _ => none

/-- Closes the rendered element of a frame with its guards and its loop. -/
def closeElement (name : String) (guarded : Bool) (loop : Option Nat) (skip : Bool)
    (listing : Listing) : Listing :=
  let skipped := if skip then listing.closeBlock blockEnd else listing
  let closed := skipped.closeBlock (Script.Call.elementClose name)
  let looped := if loop.isSome then closeLoop closed else closed
  if guarded then looped.closeBlock blockEnd else looped

/-- Writes what an open tag owes when it closes. -/
def close (frame : Frame) (listing : Listing) : Listing :=
  match frame.kind with
  | .template | .literal _ | .branch | .each none => listing
  | .conditional _ | .skip => listing.closeBlock blockEnd
  | .each (some _) => closeLoop listing
  | .element guarded loop skip => closeElement frame.name guarded loop skip listing

end Frame

/-- The number of the innermost loop around a position. -/
def enclosingLoop (frames : List Frame) : Option Nat :=
  frames.findSome? Frame.loop?

/-- Takes the next child key of the loop whose body an element stands in. Conditionals, their
    branches and skipped content do not count as elements in between. -/
def takeChildKey : List Frame → Option (String × List Frame)
  | [] => none
  | frame :: frames =>
    match frame.kind with
    | .each (some loop) =>
      let taken := { loop with children := loop.children + 1 }
      some (childKey (keyVariable loop.number) taken.children,
        { frame with kind := .each (some taken) } :: frames)
    | .conditional _ | .branch | .skip =>
      (takeChildKey frames).map fun (key, frames) => (key, frame :: frames)
    | _ => none

/-- Why a branch does not continue a conditional. -/
inductive ChainRefusal where
  | notInside
  | elseSeen
deriving DecidableEq, Repr

/-- The wording of a refusal. -/
def ChainRefusal.message : ChainRefusal → String
  | notInside => "not inside an `<if>`"
  | elseSeen => "the enclosing `<if>` already has an `<else>`"

/-- Continues the conditional that is innermost apart from open branches. The last branch is an
    else. -/
def continueChain (isElse : Bool) : List Frame → Except ChainRefusal (List Frame)
  | [] => .error .notInside
  | frame :: frames =>
    match frame.kind with
    | .branch => (continueChain isElse frames).map (frame :: ·)
    | .conditional false => .ok ({ frame with kind := .conditional isElse } :: frames)
    | .conditional true => .error .elseSeen
    | _ => .error .notInside

end TemplateCompiler.Template
