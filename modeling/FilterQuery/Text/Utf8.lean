import FilterQuery.Text.Bytes

/-!
# UTF-8

A text is read as a sequence of *chunks*: a well-formed UTF-8 sequence, or one single byte that
starts none. The chunks of a text concatenate back to it, whatever its bytes are.
-/

namespace FilterQuery.Utf8

/-- The code point that stands for a byte outside every well-formed sequence. -/
def replacement : Nat := 0xFFFD

/-- A byte of the form `10xxxxxx`. -/
def isContinuation (b : UInt8) : Bool :=
  0x80 ≤ b && b ≤ 0xBF

/-- A code point that UTF-8 may carry in three bytes: not shorter, and no surrogate. -/
def isThreeByte (n : Nat) : Bool :=
  0x800 ≤ n && !(0xD800 ≤ n && n ≤ 0xDFFF)

/-- A code point that needs four bytes. -/
def isFourByte (n : Nat) : Bool :=
  0x10000 ≤ n && n ≤ 0x10FFFF

/-- The code point of the well-formed sequence at the start of the text, and its length. -/
def first? : Bytes → Option (Nat × Nat)
  | [] => none
  | a :: rest =>
    if a < 0x80 then some (a.toNat, 1)
    else match rest with
      | [] => none
      | b :: rest =>
        if !isContinuation b then none
        else if 0xC2 ≤ a && a ≤ 0xDF then
          some ((a.toNat - 0xC0) * 0x40 + (b.toNat - 0x80), 2)
        else match rest with
          | [] => none
          | c :: rest =>
            if !isContinuation c then none
            else if 0xE0 ≤ a && a ≤ 0xEF then
              let n := (a.toNat - 0xE0) * 0x1000 + (b.toNat - 0x80) * 0x40 + (c.toNat - 0x80)
              if isThreeByte n then some (n, 3) else none
            else match rest with
              | [] => none
              | d :: _ =>
                if !isContinuation d then none
                else if 0xF0 ≤ a && a ≤ 0xF4 then
                  let n := (a.toNat - 0xF0) * 0x40000 + (b.toNat - 0x80) * 0x1000
                    + (c.toNat - 0x80) * 0x40 + (d.toNat - 0x80)
                  if isFourByte n then some (n, 4) else none
                else none

/-- A well-formed sequence with its code point, or a stray byte without one. -/
structure Chunk where
  code : Option Nat
  bytes : Bytes
deriving Repr, DecidableEq

/-- The chunk at the start of a text that begins with `b`. -/
def chunkAt (b : UInt8) (rest : Bytes) : Chunk :=
  match first? (b :: rest) with
  | some (code, width) => ⟨some code, (b :: rest).take width⟩
  | none => ⟨none, [b]⟩

/-- Adds the chunks of a text to those already `found`, which are in reverse. The first `skip` bytes
of the text belong to the chunk found last. -/
def chunksFrom (found : List Chunk) : (skip : Nat) → Bytes → List Chunk
  | _, [] => found.reverse
  | skip + 1, _ :: rest => chunksFrom found skip rest
  | 0, b :: rest =>
    let chunk := chunkAt b rest
    chunksFrom (chunk :: found) (chunk.bytes.length - 1) rest

/-- The chunks of a text. -/
def chunks (text : Bytes) : List Chunk :=
  chunksFrom [] 0 text

/-- Whether the text is well-formed UTF-8 throughout. -/
def isValid (text : Bytes) : Bool :=
  (chunks text).all (·.code.isSome)

/-- The UTF-8 form of a code point; a number that is no code point is written as the
replacement character. -/
def encode (n : Nat) : Bytes :=
  if n < 0x80 then [n.toUInt8]
  else if n < 0x800 then [(0xC0 + n / 0x40).toUInt8, (0x80 + n % 0x40).toUInt8]
  else if isThreeByte n && n < 0x10000 then
    [(0xE0 + n / 0x1000).toUInt8, (0x80 + n / 0x40 % 0x40).toUInt8, (0x80 + n % 0x40).toUInt8]
  else if isFourByte n then
    [(0xF0 + n / 0x40000).toUInt8, (0x80 + n / 0x1000 % 0x40).toUInt8,
      (0x80 + n / 0x40 % 0x40).toUInt8, (0x80 + n % 0x40).toUInt8]
  else [0xEF, 0xBF, 0xBD]

/-- The text with every stray byte replaced by the replacement character. -/
def sanitize (text : Bytes) : Bytes :=
  (chunks text).flatMap fun chunk =>
    if chunk.code.isSome then chunk.bytes else encode replacement

end FilterQuery.Utf8
