/-!
# Places in a written pattern

A position stands between two characters and is known by its line and column as well
as by the characters before it.  A span reaches from one position to another; it may
be empty.
-/

namespace GifBitmap
namespace Pattern

/-- A position between two characters. -/
structure Position where
  /-- How many characters stand before it. -/
  index : Nat
  /-- Its line, counted from one. -/
  line : Nat
  /-- Its column in the line, counted from one. -/
  column : Nat
  deriving Repr, DecidableEq

namespace Position

def first : Position :=
  ⟨0, 1, 1⟩

/-- The position behind a character that stands here. -/
def past (position : Position) (character : Char) : Position :=
  if character = '\n' then
    ⟨position.index + 1, position.line + 1, 1⟩
  else
    ⟨position.index + 1, position.line, position.column + 1⟩

end Position

/-- What stands from one position to another. -/
structure Span where
  start : Position
  stop : Position
  deriving Repr, DecidableEq

namespace Span

/-- The empty span at a position. -/
def ofPosition (position : Position) : Span :=
  ⟨position, position⟩

def isOneLine (span : Span) : Bool :=
  span.start.line = span.stop.line

/-- Whether a span is not behind another, by where they start and then by where they
stop. -/
def precedes (span other : Span) : Bool :=
  span.start.index < other.start.index ||
    (span.start.index = other.start.index && span.stop.index ≤ other.stop.index)

end Span
end Pattern
end GifBitmap
