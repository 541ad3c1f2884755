import FilterQuery.Json.Number
import FilterQuery.Text.Quoted

/-!
# Written JSON

A value is written on one line without blanks, or over several lines with two blanks of indent for
each level. Strings are written so that they can stand in a web page: besides quotes, backslashes
and control characters, the signs `<`, `>` and `&` and the two line separators are escaped. A stray
byte is written as the replacement character.

A number is written as its literal, and an empty literal as `0`. A value with a literal that JSON
does not allow cannot be written.
-/

namespace FilterQuery.Json

/-! ## Strings -/

/-- The escaped form of a code point that may not stand for itself in a string. -/
def escape? (n : Nat) : Option Bytes :=
  match n with
  | 0x22 => some [0x5C, 0x22]
  | 0x5C => some [0x5C, 0x5C]
  | 0x08 => some [0x5C, 0x62]
  | 0x09 => some [0x5C, 0x74]
  | 0x0A => some [0x5C, 0x6E]
  | 0x0C => some [0x5C, 0x66]
  | 0x0D => some [0x5C, 0x72]
  | _ =>
    if n < 0x20 || n == 0x3C || n == 0x3E || n == 0x26 || n == 0x2028 || n == 0x2029 then
      some ([0x5C, 0x75] ++ Bytes.hex 4 n)
    else none

/-- A chunk as it stands in a string. -/
def escapeChunk (chunk : Utf8.Chunk) : Bytes :=
  match chunk.code with
  | none => [0x5C, 0x75] ++ Bytes.hex 4 Utf8.replacement
  | some n => (escape? n).getD chunk.bytes

/-- A string with its quotes. -/
def quoteString (text : Bytes) : Bytes :=
  0x22 :: (Utf8.chunks text).flatMap escapeChunk ++ [0x22]

/-- A number as it is written. -/
def numberText (literal : Bytes) : Bytes :=
  if literal.isEmpty then [0x30] else literal

/-! ## On one line -/

mutual

/-- The written value in front of some text. -/
def write : Json → Bytes → Bytes
  | null, tail => ascii "null" ++ tail
  | bool true, tail => ascii "true" ++ tail
  | bool false, tail => ascii "false" ++ tail
  | number literal, tail => numberText literal ++ tail
  | string text, tail => quoteString text ++ tail
  | array items, tail => 0x5B :: writeItems items (0x5D :: tail)
  | object members, tail => 0x7B :: writeMembers members (0x7D :: tail)

/-- The written items, with commas between them, in front of some text. -/
def writeItems : List Json → Bytes → Bytes
  | [], tail => tail
  | item :: items, tail => item.write (writeMoreItems items tail)

/-- The written items, with a comma before each, in front of some text. -/
def writeMoreItems : List Json → Bytes → Bytes
  | [], tail => tail
  | item :: items, tail => 0x2C :: item.write (writeMoreItems items tail)

/-- The written members, with commas between them, in front of some text. -/
def writeMembers : List (Bytes × Json) → Bytes → Bytes
  | [], tail => tail
  | (key, value) :: members, tail =>
    quoteString key ++ 0x3A :: value.write (writeMoreMembers members tail)

/-- The written members, with a comma before each, in front of some text. -/
def writeMoreMembers : List (Bytes × Json) → Bytes → Bytes
  | [], tail => tail
  | (key, value) :: members, tail =>
    0x2C :: quoteString key ++ 0x3A :: value.write (writeMoreMembers members tail)

end

/-- The value on one line. -/
def render (v : Json) : Bytes :=
  v.write []

/-! ## Over several lines -/

/-- A new line with the indent of a level. -/
def newLine (level : Nat) : Bytes :=
  0x0A :: List.replicate (2 * level) 0x20

mutual

/-- The value over several lines, at a level, in front of some text. -/
def indent (level : Nat) : Json → Bytes → Bytes
  | null, tail => ascii "null" ++ tail
  | bool true, tail => ascii "true" ++ tail
  | bool false, tail => ascii "false" ++ tail
  | number literal, tail => numberText literal ++ tail
  | string text, tail => quoteString text ++ tail
  | array [], tail => ascii "[]" ++ tail
  | array (item :: items), tail =>
    0x5B :: newLine (level + 1) ++ indent (level + 1) item
      (indentItems (level + 1) items (newLine level ++ 0x5D :: tail))
  | object [], tail => 0x7B :: 0x7D :: tail
  | object ((key, value) :: members), tail =>
    0x7B :: newLine (level + 1) ++ quoteString key ++ ascii ": " ++ indent (level + 1) value
      (indentMembers (level + 1) members (newLine level ++ 0x7D :: tail))

/-- Items on a line each, with a comma before each, in front of some text. -/
def indentItems (level : Nat) : List Json → Bytes → Bytes
  | [], tail => tail
  | item :: items, tail =>
    0x2C :: newLine level ++ indent level item (indentItems level items tail)

/-- Members on a line each, with a comma before each, in front of some text. -/
def indentMembers (level : Nat) : List (Bytes × Json) → Bytes → Bytes
  | [], tail => tail
  | (key, value) :: members, tail =>
    0x2C :: newLine level ++ quoteString key ++ ascii ": " ++ indent level value
      (indentMembers level members tail)

end

/-- The value over several lines. -/
def renderIndented (v : Json) : Bytes :=
  v.indent 0 []

/-! ## Values that can be written -/

/-- Whether a number can be written as its literal. -/
def isWritable (literal : Bytes) : Bool :=
  literal.isEmpty || Number.isLiteral literal

mutual

/-- The first literal in a value that JSON does not allow. -/
def badNumber? : Json → Option Bytes
  | null => none
  | bool _ => none
  | number literal => if isWritable literal then none else some literal
  | string _ => none
  | array items => badNumberItems? items
  | object members => badNumberMembers? members

/-- The first literal in a list of values that JSON does not allow. -/
def badNumberItems? : List Json → Option Bytes
  | [] => none
  | item :: items =>
    match item.badNumber? with
    | some literal => some literal
    | none => badNumberItems? items

/-- The first literal in a list of members that JSON does not allow. -/
def badNumberMembers? : List (Bytes × Json) → Option Bytes
  | [] => none
  | (_, value) :: members =>
    match value.badNumber? with
    | some literal => some literal
    | none => badNumberMembers? members

end

/-- The value on one line, or the literal that keeps it from being written. -/
def encode (v : Json) : Except Bytes Bytes :=
  match v.badNumber? with
  | some literal => .error literal
  | none => .ok v.render

/-- The text of the error about a literal. -/
def badNumberMessage (literal : Bytes) : Bytes :=
  ascii "json: invalid number literal " ++ Quoted.quote literal

end FilterQuery.Json
