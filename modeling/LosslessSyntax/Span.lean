/-! # Spans

A span is a half-open range of byte offsets into a source text. Offsets are natural numbers; only
`Span.shift`, which moves a span by a possibly negative amount, has to come back to the range of
stored offsets, and it does so by stopping at zero and wrapping at 2³².
-/

namespace LosslessSyntax

/-- A half-open range `start..stop` of byte offsets. -/
structure Span where
  /-- Offset of the first byte. -/
  start : Nat
  /-- Offset just past the last byte. -/
  stop : Nat
deriving DecidableEq, Repr, Inhabited

namespace Span

/-- The span of no bytes at an offset. -/
def empty (offset : Nat) : Span := ⟨offset, offset⟩

/-- The span of `length` bytes from an offset on. -/
def ofLength (start length : Nat) : Span := ⟨start, start + length⟩

/-- Number of bytes covered. -/
def length (span : Span) : Nat := span.stop - span.start

/-- Whether no byte is covered. -/
def isEmpty (span : Span) : Bool := span.start == span.stop

/-- Whether `other` lies entirely within `span`. -/
def contains (span other : Span) : Bool := span.start ≤ other.start && other.stop ≤ span.stop

/-- Whether the byte at an offset is covered. -/
def containsOffset (span : Span) (offset : Nat) : Bool :=
  span.start ≤ offset && offset < span.stop

/-- Whether two spans share a byte; an empty span also meets a span that it touches at an edge. -/
def intersects (span other : Span) : Bool :=
  if span.isEmpty || other.isEmpty then span.start ≤ other.stop && other.start ≤ span.stop
  else span.start < other.stop && other.start < span.stop

/-- The smallest span that covers both. -/
def merge (span other : Span) : Span := ⟨min span.start other.start, max span.stop other.stop⟩

/-- Order by start, then by end. -/
def compare (span other : Span) : Ordering :=
  (Ord.compare span.start other.start).then (Ord.compare span.stop other.stop)

/-- An offset moved by a signed amount: never before zero, and kept to 32 bits. -/
def shiftOffset (delta : Int) (offset : Nat) : Nat := ((offset : Int) + delta).toNat % 0x100000000

/-- Both ends moved by a signed amount. -/
def shift (delta : Int) (span : Span) : Span :=
  ⟨shiftOffset delta span.start, shiftOffset delta span.stop⟩

/-- The written form `start..end`. -/
def text (span : Span) : String := s!"{span.start}..{span.stop}"

end Span

end LosslessSyntax
