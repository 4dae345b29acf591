/-! # Places in a source

  A position is a cursor: a line number, counted from 1, and an offset in
  bytes of UTF-8, counted from 0. A span is the range of bytes that an item
  covers. Line numbers have 32 bits. Offsets are unbounded, so that a cursor
  from anywhere can be asked about.
-/

namespace ExprScan

/-! ### Positions -/

/-- A cursor into a source. -/
structure Position where
  /-- The line number, counted from 1. -/
  line : UInt32
  /-- The offset in bytes, counted from 0. -/
  offset : Nat
deriving DecidableEq, Repr

/-- Where every scan begins. -/
def Position.start : Position := ⟨1, 0⟩

/-- The cursor a number of bytes further on the same line. -/
def Position.skip (pos : Position) (bytes : Nat) : Position :=
  { pos with offset := pos.offset + bytes }

/-! ### Spans -/

/-- The half-open range of bytes from `start` to `stop`. -/
structure Span where
  start : Nat
  stop : Nat
deriving DecidableEq, Repr

end ExprScan
