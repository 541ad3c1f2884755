import FilterQuery.Text.Utf8

/-!
# White space

White space is a property of code points. It separates tokens, and it is trimmed from both ends of
an expression that is read from a line of input.
-/

namespace FilterQuery.Blank

/-- The code points that count as white space. -/
def isBlank (n : Nat) : Bool :=
  (0x09 ≤ n && n ≤ 0x0D) || n == 0x20 || n == 0x85 || n == 0xA0 || n == 0x1680
    || (0x2000 ≤ n && n ≤ 0x200A) || n == 0x2028 || n == 0x2029 || n == 0x202F
    || n == 0x205F || n == 0x3000

/-- The length of the white-space character at the start of the text, zero if there is none. -/
def width (text : Bytes) : Nat :=
  match Utf8.first? text with
  | some (code, width) => if isBlank code then width else 0
  | none => 0

/-- Adds the length of the white-space run at the start of the text to a length already `counted`.
The first `skip` bytes of the text belong to a character of the run. -/
def runFrom (counted : Nat) : (skip : Nat) → Bytes → Nat
  | _, [] => counted
  | skip + 1, _ :: rest => runFrom (counted + 1) skip rest
  | 0, b :: rest =>
    match width (b :: rest) with
    | 0 => counted
    | more + 1 => runFrom (counted + 1) more rest

/-- The length in bytes of the white-space run at the start of the text. -/
def run (text : Bytes) : Nat :=
  runFrom 0 0 text

/-- A chunk that is one white-space character. -/
def isBlankChunk (chunk : Utf8.Chunk) : Bool :=
  chunk.code.any isBlank

/-- The text without the white space at its two ends. -/
def trim (text : Bytes) : Bytes :=
  let inner := (Utf8.chunks text).dropWhile isBlankChunk
  ((inner.reverse.dropWhile isBlankChunk).reverse).flatMap (·.bytes)

end FilterQuery.Blank
