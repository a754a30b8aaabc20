import TemplateCompiler.Markup.Attributes
import TemplateCompiler.Markup.Span

namespace TemplateCompiler.Markup

/-- One step of a markup source, with the span that it comes from. -/
inductive Event where
  | opened (name : String) (attributes : Attributes) (span : Span)
  | text (content : String) (span : Span)
  | closed (name : String) (span : Span)
deriving DecidableEq, Repr

namespace Event

/-- Where an event comes from. -/
def span : Event → Span
  | opened _ _ span => span
  | text _ span => span
  | closed _ span => span

/-- An attribute as it stands in a tag. -/
def displayAttribute (entry : Attribute) : String :=
  " " ++ entry.1 ++ "=\"" ++ entry.2 ++ "\""

/-- The markup of an event, with every attribute value in double quotes. -/
def display : Event → String
  | opened name attributes _ =>
    "<" ++ name ++ String.join (attributes.entries.map displayAttribute) ++ ">"
  | text content _ => content
  | closed name _ => "</" ++ name ++ ">"

/-- The markup of a list of events. -/
def displayAll (events : List Event) : String :=
  String.join (events.map display)

/-- Joins neighbouring texts into one, from the start of the first to the end of the last. -/
def joinTexts : List Event → List Event
  | [] => []
  | text first span :: events =>
    match joinTexts events with
    | text second span' :: joined =>
      text (first ++ second) (Span.ofBounds span.start span'.stop) :: joined
    | joined => text first span :: joined
  | event :: events => event :: joinTexts events

end Event

end TemplateCompiler.Markup
