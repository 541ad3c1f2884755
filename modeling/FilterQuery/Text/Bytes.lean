/-!
# Byte texts

Expressions, documents and messages are byte strings: offsets count bytes, and nothing promises
that a text is well-formed UTF-8. This module fixes the representation and the few ways in which
bytes are made from constants and numbers.
-/

namespace FilterQuery

/-- A text: any bytes, in order. -/
abbrev Bytes := List UInt8

/-- The bytes of an ASCII constant. -/
def ascii (s : String) : Bytes :=
  s.toList.map fun c => c.toNat.toUInt8

namespace Bytes

/-- What follows `lead` in `text`, if `text` starts with `lead`. -/
def after? : (lead text : Bytes) → Option Bytes
  | [], text => some text
  | _ :: _, [] => none
  | a :: lead, b :: text => if a = b then after? lead text else none

/-- The decimal digits of a number, without leading zeros. -/
def ofNat (n : Nat) : Bytes :=
  (Nat.toDigits 10 n).map fun c => c.toNat.toUInt8

/-- The decimal digits of a number, with a leading `-` if it is negative. -/
def ofInt : Int → Bytes
  | .ofNat n => ofNat n
  | .negSucc n => 0x2D :: ofNat (n + 1)

/-- The lower-case hexadecimal digit of a number below sixteen. -/
def hexDigit (n : Nat) : UInt8 :=
  if n < 10 then (0x30 + n).toUInt8 else (0x57 + n).toUInt8

/-- The last `width` hexadecimal digits of a number, in lower case. -/
def hex : (width : Nat) → (n : Nat) → Bytes
  | 0, _ => []
  | width + 1, n => hex width (n / 16) ++ [hexDigit (n % 16)]

/-- The parts with `sep` between neighbours. -/
def join (sep : Bytes) : List Bytes → Bytes
  | [] => []
  | [part] => part
  | part :: parts => part ++ sep ++ join sep parts

/-- A byte in front of lines: a line feed ends an empty line, any other byte joins the first
line. -/
def consLine (b : UInt8) (lines : List Bytes) : List Bytes :=
  if b = 0x0A then [] :: lines
  else match lines with
    | [] => [[b]]
    | line :: lines => (b :: line) :: lines

/-- The lines of a text, without the line feeds that end them. -/
def lines (text : Bytes) : List Bytes :=
  text.foldr consLine []

/-- Byte order: the first difference decides, and a proper beginning comes first. -/
def le : Bytes → Bytes → Bool
  | [], _ => true
  | _ :: _, [] => false
  | a :: s, b :: t => a < b || (a == b && le s t)

end Bytes

/-! ## Character classes of the language

All of them are ASCII, so a class test on a byte is a class test on the character it starts: no
byte of a longer UTF-8 sequence, and no stray byte, belongs to any of them. -/

/-- `a`–`z` or `A`–`Z`. -/
def isLetter (b : UInt8) : Bool :=
  (0x61 ≤ b && b ≤ 0x7A) || (0x41 ≤ b && b ≤ 0x5A)

/-- `0`–`9`. -/
def isDigit (b : UInt8) : Bool :=
  0x30 ≤ b && b ≤ 0x39

theorem ne_of_isDigit {d b : UInt8} (h : isDigit d = true) (hb : isDigit b = false) : d ≠ b := by
  rintro rfl
  rw [h] at hb
  cases hb

/-- A byte that may continue a word: letter, digit or underscore. -/
def isWordByte (b : UInt8) : Bool :=
  isLetter b || isDigit b || b == 0x5F

/-- A byte that may continue an identity: a word byte or the dot of a field path. -/
def isIdentityByte (b : UInt8) : Bool :=
  isWordByte b || b == 0x2E

end FilterQuery
