import FilterQuery.Text.Printable
import FilterQuery.Text.Utf8

/-!
# Quoted texts

Messages show a text between double quotes, on one line and in printable characters only: quotes
and backslashes take a backslash, control characters their short or hexadecimal form, other
unprintable characters the form `\u` or `\U`, and a stray byte the form `\x`.
-/

namespace FilterQuery.Quoted

/-- The letter of a short escape, such as `n` for a line feed. -/
def shortEscape? (n : Nat) : Option UInt8 :=
  match n with
  | 0x07 => some 0x61
  | 0x08 => some 0x62
  | 0x09 => some 0x74
  | 0x0A => some 0x6E
  | 0x0B => some 0x76
  | 0x0C => some 0x66
  | 0x0D => some 0x72
  | _ => none

/-- The escaped form of a code point that is not printable. -/
def escapeCode (n : Nat) : Bytes :=
  match shortEscape? n with
  | some letter => [0x5C, letter]
  | none =>
    if n < 0x20 || n == 0x7F then [0x5C, 0x78] ++ Bytes.hex 2 n
    else if n < 0x10000 then [0x5C, 0x75] ++ Bytes.hex 4 n
    else [0x5C, 0x55] ++ Bytes.hex 8 n

/-- A chunk as it stands inside quotes of the kind `mark`. -/
def escapeChunk (mark : Nat) (chunk : Utf8.Chunk) : Bytes :=
  match chunk.code with
  | none => chunk.bytes.flatMap fun b => [0x5C, 0x78] ++ Bytes.hex 2 b.toNat
  | some n =>
    if n == mark || n == 0x5C then 0x5C :: chunk.bytes
    else if Printable.isPrintable n then chunk.bytes
    else escapeCode n

/-- The text between double quotes. -/
def quote (text : Bytes) : Bytes :=
  [0x22] ++ (Utf8.chunks text).flatMap (escapeChunk 0x22) ++ [0x22]

/-- One byte, read as the code point of the same number, between single quotes. -/
def quoteByte (b : UInt8) : Bytes :=
  [0x27] ++ (Utf8.chunks (Utf8.encode b.toNat)).flatMap (escapeChunk 0x27) ++ [0x27]

end FilterQuery.Quoted
