import FilterQuery.Text.Bytes

/-!
# Positions

A position in a text is a byte offset together with its line and column, both counted from one.
A line feed belongs to the line that it ends. Positions are advanced byte by byte, so the lexer
never counts a line twice.
-/

namespace FilterQuery

/-- A place in a text. -/
structure Position where
  offset : Nat
  line : Nat
  column : Nat
deriving Repr, DecidableEq

namespace Position

/-- The beginning of a text. -/
def start : Position := ⟨0, 1, 1⟩

/-- The position behind one more byte. -/
def step (p : Position) (b : UInt8) : Position :=
  if b = 0x0A then ⟨p.offset + 1, p.line + 1, 1⟩ else ⟨p.offset + 1, p.line, p.column + 1⟩

/-- The position behind some more text. -/
def advance (p : Position) (text : Bytes) : Position :=
  text.foldl step p

/-- The position of a byte offset in a text; beyond the end it is the position of the end. -/
def ofOffset (text : Bytes) (offset : Nat) : Position :=
  start.advance (text.take offset)

end Position

end FilterQuery
