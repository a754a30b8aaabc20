namespace TemplateCompiler.Markup

/-- A stretch of a source, from the byte `start` to just before the byte `stop`. -/
structure Span where
  start : Nat
  stop : Nat
  start_le_stop : start ≤ stop
deriving DecidableEq, Repr

/-- A place to point at in a source: a byte offset and a positive number of bytes. -/
structure Location where
  offset : Nat
  length : Nat
deriving DecidableEq, Repr

namespace Span

/-- The span from `start` to `stop`, or the empty span at `start` if `stop` lies before it. -/
def ofBounds (start stop : Nat) : Span :=
  ⟨start, max start stop, Nat.le_max_left start stop⟩

/-- The span of `length` bytes from `start`. -/
def ofLength (start length : Nat) : Span :=
  ⟨start, start + length, Nat.le_add_right start length⟩

/-- The empty span at a position. -/
def point (position : Nat) : Span :=
  ⟨position, position, Nat.le_refl position⟩

/-- Number of bytes of a span. -/
def length (span : Span) : Nat :=
  span.stop - span.start

/-- Whether a span holds no byte. -/
def isEmpty (span : Span) : Bool :=
  span.start == span.stop

/-- The span as it is pointed at in a source of `size` bytes: cut off at the end of the source and
    at least one byte long. -/
def location (size : Nat) (span : Span) : Location :=
  let start := min span.start size
  let stop := min span.stop size
  ⟨start, max (stop - start) 1⟩

end Span

end TemplateCompiler.Markup
