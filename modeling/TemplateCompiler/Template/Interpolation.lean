import TemplateCompiler.Script.Quoted
import TemplateCompiler.Text.Blank
import TemplateCompiler.Text.Bytes
import TemplateCompiler.Text.Search

namespace TemplateCompiler.Template

/-- What can be wrong with a brace. -/
inductive IssueKind where
  | unclosedBrace
  | nestedBrace
  | strayClosingBrace
  | emptyExpression
deriving DecidableEq, Repr

/-- A brace that could not be used as written, with its byte offset in the text. -/
structure Issue where
  kind : IssueKind
  offset : Nat
deriving DecidableEq, Repr

/-- The wording of an issue. -/
def IssueKind.message : IssueKind → String
  | unclosedBrace => "`\x7b` is never closed"
  | nestedBrace => "nested braces are not supported"
  | strayClosingBrace => "`\x7d` has no matching `\x7b`"
  | emptyExpression => "`\x7b\x7d` holds no expression"

/-- The wording of an issue, which does not depend on its place. -/
def Issue.message (issue : Issue) : String :=
  issue.kind.message

/-- A part of an interpolated text. -/
inductive Segment where
  | literal (text : List Char)
  | expression (source : List Char)
deriving DecidableEq, Repr

/-- A text cut into segments, with the issues found on the way. -/
structure Interpolation where
  segments : List Segment
  issues : List Issue
deriving DecidableEq, Repr

namespace Interpolation

/-- Whether a character is one of the two braces. -/
def isBrace (c : Char) : Bool :=
  c == '\x7b' || c == '\x7d'

/-- The segment of a literal, if it is not empty. -/
def literalSegments : List Char → List Segment
  | [] => []
  | c :: cs => [.literal (c :: cs)]

/-- The segment of the expression between two braces, if it is not blank. -/
def expressionSegments (source : List Char) : List Segment :=
  if source.all Text.isBlank then [] else [.expression source]

/-- The issues of the expression between two braces, of which the first is at `offset`: a brace
    inside it, or nothing inside it. -/
def expressionIssues (offset : Nat) (source : List Char) : List Issue :=
  let nested :=
    match Text.splitOnce ['\x7b'] source with
    | some (before, _) => [⟨.nestedBrace, offset + 1 + Text.byteLength before⟩]
    | none => []
  nested ++ if source.all Text.isBlank then [⟨.emptyExpression, offset⟩] else []

/-- Cuts the text `cs` that starts at byte `offset` and follows the unfinished literal `literal`. -/
def cut (literal : List Char) (offset : Nat) (cs : List Char) : Interpolation :=
  let plain := cs.takeWhile (!isBrace ·)
  let position := offset + Text.byteLength plain
  match _hrest : cs.dropWhile (!isBrace ·) with
  | [] => ⟨literalSegments (literal ++ plain), []⟩
  | brace :: rest =>
    if brace = '\x7d' then
      let following := cut (literal ++ plain ++ [brace]) (position + 1) rest
      ⟨following.segments, ⟨.strayClosingBrace, position⟩ :: following.issues⟩
    else
      match _hclose : Text.splitOnce ['\x7d'] rest with
      | none => ⟨literalSegments (literal ++ plain ++ brace :: rest), [⟨.unclosedBrace, position⟩]⟩
      | some (source, behind) =>
        let following := cut [] (position + Text.byteLength source + 2) behind
        ⟨literalSegments (literal ++ plain) ++ expressionSegments source ++ following.segments,
          expressionIssues position source ++ following.issues⟩
termination_by cs.length
decreasing_by
  · have hle := (List.dropWhile_suffix (!isBrace ·) (l := cs)).length_le
    simp [_hrest] at hle
    omega
  · have hle := (List.dropWhile_suffix (!isBrace ·) (l := cs)).length_le
    have hlength := Text.length_behind_splitOnce _hclose
    simp [_hrest] at hle hlength
    omega

/-- The interpolation of a string. -/
def ofString (text : String) : Interpolation :=
  cut [] 0 text.toList

/-- The operand that a segment becomes. Carriage returns are left out of expressions. -/
def operand : Segment → String
  | .literal text => Script.quote (String.ofList text)
  | .expression source => "(" ++ String.ofList (source.filter (· != '\r')) ++ ")"

/-- The operands of the sum of all segments. It starts with a string, so that it is a string. -/
def operands : List Segment → List String
  | [] => [Script.quote ""]
  | .literal text :: segments => (Segment.literal text :: segments).map operand
  | .expression source :: segments =>
    Script.quote "" :: (Segment.expression source :: segments).map operand

/-- The script expression for the whole text. -/
def expression (interpolation : Interpolation) : String :=
  " + ".intercalate (operands interpolation.segments)

end Interpolation

/-- Whether a text has a brace that may start an expression. -/
def hasOpeningBrace (text : String) : Bool :=
  text.toList.contains '\x7b'

end TemplateCompiler.Template
