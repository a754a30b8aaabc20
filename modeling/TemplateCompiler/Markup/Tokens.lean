import TemplateCompiler.Diagnostic
import TemplateCompiler.Markup.Event
import TemplateCompiler.Markup.Piece
import TemplateCompiler.Markup.RawText
import TemplateCompiler.Markup.StrayAngle

namespace TemplateCompiler.Markup

/-- The rules of a document format that reading depends on. -/
structure Rules where
  /-- Elements without content close as soon as they open, and their end tags are ignored. -/
  voidElements : Bool := true
  /-- The content of scripts and styles is text. -/
  rawTextElements : Bool := true
deriving DecidableEq, Repr

/-- Names of the elements that have no content. -/
def voidNames : List String :=
  ["area", "base", "br", "col", "embed", "hr", "img", "input", "link", "meta", "param", "source",
    "track", "wbr"]

/-- Names of the elements with raw text. -/
def rawTextNames : List String := ["script", "style"]

/-- Whether an element has no content. -/
def Rules.isVoid (rules : Rules) (name : String) : Bool :=
  rules.voidElements && voidNames.contains (Text.lowercase name)

/-- Whether the content of an element is text. -/
def Rules.isRawText (rules : Rules) (name : String) : Bool :=
  rules.rawTextElements && rawTextNames.contains (Text.lowercase name)

/-- The mark that may precede a text in UTF-8. -/
def byteOrderMark : Char := '\uFEFF'

/-- A slice without the byte order mark at its start. The mark does not count in positions. -/
def dropByteOrderMark : List Char → List Char
  | [] => []
  | c :: cs => if c = byteOrderMark then cs else c :: cs

/-- Number of bytes read from `cs` when `rest` is left. -/
def bytesRead (cs rest : List Char) : Nat :=
  Text.byteLength cs - Text.byteLength rest

/-- The events of a piece of markup. -/
def Piece.events (rules : Rules) (span : Span) : Piece → List Event
  | .text content => [.text (String.ofList content) span]
  | .startTag tag =>
    let opened := Event.opened tag.name tag.attributes span
    if tag.selfClosing || rules.isVoid tag.name then
      [opened, .closed tag.name (Span.point span.stop)]
    else [opened]
  | .endTag name => if rules.isVoid name then [] else [.closed name span]
  | .ignored => []

/-- The raw text element that a piece of markup opens. -/
def Piece.rawText? (rules : Rules) : Piece → Option String
  | .startTag tag =>
    if !tag.selfClosing && !rules.isVoid tag.name && rules.isRawText tag.name then some tag.name
    else none
  | _ => none

/-- How the reading of a slice ends: with its text, or with the start tag of a raw text element. -/
inductive SliceEnd where
  | exhausted
  | rawText (name : String) (tag : Span)
deriving DecidableEq, Repr

/-- Reads the events of a slice from the byte `position` on. -/
def readSlice (rules : Rules) (position : Nat) (cs : List Char) :
    Except Failure (List Event × SliceEnd) :=
  match cs with
  | [] => .ok ([], .exhausted)
  | c :: tail =>
    match _hread : Piece.read (c :: tail) with
    | .error refusal =>
      .error (.reported ⟨.malformed refusal.fault.message,
        Span.ofLength position (bytesRead (c :: tail) refusal.rest)⟩)
    | .ok (piece, rest) =>
      let span := Span.ofLength position (bytesRead (c :: tail) rest)
      match piece.rawText? rules with
      | some name => .ok (piece.events rules span, .rawText name span)
      | none =>
        (readSlice rules span.stop rest).map fun (events, stop) =>
          (piece.events rules span ++ events, stop)
termination_by cs.length
decreasing_by
  have hle := (Piece.suffix_of_read _hread).length_le
  simp
  omega

/-- The events of raw text and its end tag, with the byte position behind the tag. -/
def rawTextEvents (name : String) (position : Nat) (scanned content rest : List Char) :
    List Event × Nat :=
  let textEnd := position + Text.byteLength content
  let tagEnd := position + bytesRead scanned rest
  let closed := Event.closed name (Span.ofBounds textEnd tagEnd)
  if content = [] then ([closed], tagEnd)
  else ([.text (String.ofList content) (Span.ofBounds position textEnd), closed], tagEnd)

/-- The part of a text before its first stray angle. -/
def sliceBeforeStray (cs : List Char) : List Char :=
  match splitAtStray cs with
  | some (slice, _) => slice
  | none => cs

/-- Reads the events of a source from the byte `position` on, at which `cs` starts. -/
def readSource (rules : Rules) (position : Nat) (cs : List Char) : Except Failure (List Event) :=
  match readSlice rules position (dropByteOrderMark (sliceBeforeStray cs)) with
  | .error failure => .error failure
  | .ok (events, .exhausted) =>
    match _hstray : splitAtStray cs with
    | none => .ok events
    | some (slice, beyond) =>
      let angle := position + Text.byteLength slice
      (readSource rules (angle + 1) beyond).map fun following =>
        events ++ .text "<" (Span.ofLength angle 1) :: following
  | .ok (events, .rawText name tag) =>
    match _hsplit : Text.splitAtByte? (tag.stop - position) cs with
    | none => .error (.insideCharacter tag.stop)
    | some (_, scanned) =>
      match _hraw : cutRawText (endTagOpening name) scanned with
      | none => .error (.reported ⟨.unterminatedRawText name, tag⟩)
      | some (content, rest) =>
        let (raw, tagEnd) := rawTextEvents name tag.stop scanned content rest
        (readSource rules tagEnd rest).map fun following => events ++ raw ++ following
termination_by cs.length
decreasing_by
  · have hlength := congrArg List.length (eq_append_of_splitAtStray _hstray)
    simp at hlength
    omega
  · have hsplit := congrArg List.length (Text.eq_append_of_splitAtByte? _hsplit).1
    have hraw := length_behind_cutRawText _hraw
    simp at hsplit
    omega

/-- The events of a source, with neighbouring texts joined. -/
def tokenize (rules : Rules) (source : String) : Except Failure (List Event) :=
  (readSource rules 0 source.toList).map Event.joinTexts

end TemplateCompiler.Markup
