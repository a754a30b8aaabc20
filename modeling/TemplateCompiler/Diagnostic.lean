import TemplateCompiler.Markup.Span

namespace TemplateCompiler

open Markup (Location Span)

/-- What is wrong with a template. The first two stop the reading of its markup; compiling goes on
    after the others. -/
inductive Problem where
  | malformed (fault : String)
  | unterminatedRawText (name : String)
  | unmatchedDirective (directive reason : String)
  | unsupportedInterpolation (context reason : String)
  | unresolvedMetadata (reason : String)
  | invalidIteration (expression : String)
  | unbalancedElement (name reason : String)
deriving DecidableEq, Repr

/-- How bad a problem is: an error leaves nothing to compile. -/
inductive Severity where
  | error
  | warning
deriving DecidableEq, Repr

namespace Problem

/-- How bad a problem is. -/
def severity : Problem → Severity
  | malformed _ => .error
  | unterminatedRawText _ => .error
  | _ => .warning

/-- The wording of a problem. -/
def message : Problem → String
  | malformed fault => "Malformed markup: " ++ fault
  | unterminatedRawText name => "Unterminated raw text element `<" ++ name ++ ">`"
  | unmatchedDirective directive reason => "Unmatched directive `" ++ directive ++ "`: " ++ reason
  | unsupportedInterpolation context reason =>
    "Unsupported interpolation in " ++ context ++ ": " ++ reason
  | unresolvedMetadata reason => "Unresolved template metadata: " ++ reason
  | invalidIteration expression =>
    "Invalid iteration `" ++ expression ++ "`: expected `item[, key] in target`"
  | unbalancedElement name reason => "Unbalanced element `<" ++ name ++ ">`: " ++ reason

/-- What to do about a problem. -/
def help : Problem → Option String
  | malformed _ => some "Check that tags are closed and attribute values are quoted."
  | unterminatedRawText _ => some "Add the missing end tag."
  | unmatchedDirective _ _ =>
    some "Place `<elseif>` and `<else>` inside the `<if>` they belong to, before its end tag."
  | unsupportedInterpolation _ _ =>
    some "Expressions cannot contain braces; move object literals into a helper function."
  | unresolvedMetadata _ =>
    some ("Use a single top-level `<template name=\"...\" args=\"...\">` with a valid " ++
      "function name.")
  | invalidIteration _ => some "Write the iteration as `item in items` or `item, key in items`."
  | unbalancedElement _ _ => none

/-- An element is open when the template ends. -/
def neverClosed (name : String) : Problem :=
  unbalancedElement name "never closed"

/-- An element is open when an element around it closes. -/
def closedImplicitly (name : String) : Problem :=
  unbalancedElement name "closed implicitly by an enclosing end tag"

/-- An end tag has no start tag. -/
def notOpened (name : String) : Problem :=
  unbalancedElement name "closed without being opened"

/-- A directive of the kind that chains is written as an attribute. -/
def chainedAttribute (directive : String) : Problem :=
  unmatchedDirective directive "chaining is only available with `<elseif>` and `<else>` tags"

/-- The name of the function is no identifier. -/
def invalidFunctionName (name : String) : Problem :=
  unresolvedMetadata ("`" ++ name ++ "` is not a valid function name")

/-- A template tag describes the function inside another tag, or after another one did. -/
def extraMetadata : Problem :=
  unresolvedMetadata "only a single outermost `<template>` can name the function"

/-- An expression inside the value of an attribute cannot be used. -/
def attributeInterpolation (attributeName reason : String) : Problem :=
  unsupportedInterpolation ("attribute `" ++ attributeName ++ "`") reason

/-- The condition of a directive cannot be used. -/
def conditionInterpolation (directive reason : String) : Problem :=
  unsupportedInterpolation ("`" ++ directive ++ "` condition") reason

/-- An expression inside a text cannot be used. -/
def textInterpolation (reason : String) : Problem :=
  unsupportedInterpolation "text" reason

end Problem

/-- A problem and the span of the source that it concerns. -/
structure Diagnostic where
  problem : Problem
  span : Span
deriving DecidableEq, Repr

/-- Where to point at in a source of `size` bytes. -/
def Diagnostic.location (size : Nat) (diagnostic : Diagnostic) : Location :=
  diagnostic.span.location size

/-- Why a template could not be compiled: a problem that was found, or a position inside the bytes
    of one character at which the source would have had to be cut. -/
inductive Failure where
  | reported (diagnostic : Diagnostic)
  | insideCharacter (position : Nat)
deriving DecidableEq, Repr

end TemplateCompiler
