import FilterQuery.Json.Number

/-!
# The value of a number literal

A literal stands for a decimal number: some digits, read as one integer, times a power of ten.
-/

namespace FilterQuery.Json

/-- The number that a row of digits stands for. -/
def natOfDigits (digits : Bytes) : Nat :=
  digits.foldl (fun n b => n * 10 + (b.toNat - 0x30)) 0

/-- The decimal number `digits · 10 ^ (exponent - places)`, or its negative. -/
structure Decimal where
  negative : Bool
  /-- The digits before and behind the point. -/
  digits : Bytes
  /-- How many digits stand behind the point. -/
  places : Nat
  exponent : Int
deriving Repr, DecidableEq

namespace Decimal

/-- The exponent that stands behind its mark. -/
def readExponent : Bytes → Int
  | [] => 0
  | sign :: digits =>
    if sign = 0x2D then -(natOfDigits digits : Int)
    else if sign = 0x2B then natOfDigits digits
    else natOfDigits (sign :: digits)

/-- The number that a literal stands for. -/
def ofLiteral (literal : Bytes) : Decimal :=
  let body := Number.afterMinus literal
  let integer := body.takeWhile isDigit
  let rest := body.dropWhile isDigit
  let fraction := if rest.head? = some 0x2E then (rest.drop 1).takeWhile isDigit else []
  let rest := if rest.head? = some 0x2E then (rest.drop 1).dropWhile isDigit else rest
  { negative := literal.head? = some 0x2D
    digits := integer ++ fraction
    places := fraction.length
    exponent := readExponent (rest.drop 1) }

/-- The power of ten by which the digits, read as one integer, are multiplied. -/
def scale (d : Decimal) : Int :=
  d.exponent - d.places

/-- Whether the number is zero. -/
def isZero (d : Decimal) : Bool :=
  d.digits.all (· == 0x30)

/-- How many zeros the digits end with. -/
def trailingZeros (d : Decimal) : Nat :=
  (d.digits.reverse.takeWhile (· == 0x30)).length

/-- Exponents are 64-bit numbers; a literal with a larger one has no value. -/
def hasExponent (d : Decimal) : Bool :=
  -9223372036854775808 ≤ d.exponent && d.exponent ≤ 9223372036854775807

/-- The largest power of ten, up or down, with which a value is worked out. -/
def maxScale : Int := 1000000

/-- Whether the number is known to be an integer. A power of ten beyond `maxScale` is not worked
out, and the number then does not count as one. -/
def isIntegral (d : Decimal) : Bool :=
  d.hasExponent &&
    (d.isZero ||
      (-maxScale ≤ d.scale && d.scale ≤ maxScale && -(d.trailingZeros : Int) ≤ d.scale))

end Decimal

end FilterQuery.Json
