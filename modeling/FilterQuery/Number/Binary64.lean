import FilterQuery.Text.Bytes

/-!
# 64-bit floating point numbers

A finite magnitude is `mantissa · 2 ^ exponent` with a mantissa of at most 53 bits. Decimal numbers
are rounded to the nearest magnitude, and halfway between two of them to the even one. The other
way, a magnitude is written with as few digits as still round to it.
-/

namespace FilterQuery

/-- A finite magnitude, in lowest position: the mantissa has 53 bits unless the exponent is the
smallest there is. -/
structure Binary64 where
  mantissa : Nat
  exponent : Int
deriving Repr, DecidableEq

namespace Binary64

/-- The smallest exponent. -/
def minExponent : Int := -1074

/-- The largest exponent. -/
def maxExponent : Int := 971

/-- A power of two. -/
def twoTo (k : Nat) : Nat := Nat.pow 2 k

/-- A power of ten. -/
def tenTo (k : Nat) : Nat := Nat.pow 10 k

/-- Zero. -/
def zero : Binary64 := ⟨0, minExponent⟩

/-- The integer nearest to a quotient, and the even one of two. -/
def roundDiv (num den : Nat) : Nat :=
  let q := num / den
  let r := num % den
  if 2 * r < den then q
  else if den < 2 * r then q + 1
  else if q % 2 = 0 then q else q + 1

/-- The quotient `num / den`, scaled down by a power of two, as numerator and denominator. -/
def scaled (num den : Nat) (exponent : Int) : Nat × Nat :=
  if 0 ≤ exponent then (num, den * twoTo exponent.toNat) else (num * twoTo (-exponent).toNat, den)

/-- The exponent for a positive quotient: at it, the quotient has 53 bits or the exponent is the
smallest. -/
def exponentFor (num den : Nat) : Int :=
  let least : Int := (num.log2 : Int) - den.log2 - 53
  let (n, d) := scaled num den least
  max minExponent (if twoTo 53 ≤ n / d then least + 1 else least)

/-- The magnitude nearest to a quotient, unless it is too large for any. -/
def ofRatio (num den : Nat) : Option Binary64 :=
  if num = 0 then some zero
  else
    let exponent := exponentFor num den
    let (n, d) := scaled num den exponent
    let mantissa := roundDiv n d
    let rounded : Binary64 :=
      if mantissa = twoTo 53 then ⟨twoTo 52, exponent + 1⟩ else ⟨mantissa, exponent⟩
    if rounded.exponent ≤ maxExponent then some rounded else none

/-- How many decimal digits a number has. -/
def digitCount (n : Nat) : Nat :=
  (Bytes.ofNat n).length

/-- The magnitude nearest to `n · 10 ^ scale`, unless it is too large for any. Numbers beyond all
magnitudes, or below half of the smallest, are told by their number of digits. -/
def ofDecimal (n : Nat) (scale : Int) : Option Binary64 :=
  let top : Int := digitCount n + scale
  if n = 0 then some zero
  else if 400 < top then none
  else if top < -400 then some zero
  else if 0 ≤ scale then ofRatio (n * tenTo scale.toNat) 1
  else ofRatio n (tenTo (-scale).toNat)

/-- The magnitude as numerator and denominator. -/
def ratio (x : Binary64) : Nat × Nat :=
  if 0 ≤ x.exponent then (x.mantissa * twoTo x.exponent.toNat, 1)
  else (x.mantissa, twoTo (-x.exponent).toNat)

/-- The power of ten of the first digit of a positive quotient. -/
def topPower (num den : Nat) : Int :=
  if den ≤ num then digitCount (num / den) - 1
  else -(((List.range 400).find? fun k => den ≤ num * tenTo k).getD 400 : Int)

/-- The two integers around a quotient, the nearer one first; halfway between them, the even one. -/
def neighbours (num den : Nat) : List Nat :=
  let below := num / den
  if roundDiv num den = below then [below, below + 1] else [below + 1, below]

/-- A decimal of at most `count` digits that rounds to the magnitude, if there is one; of two, the
nearer one, and of two equally near ones the one with an even last digit. -/
def ofDigits? (x : Binary64) (count : Nat) : Option (Nat × Int) :=
  let (num, den) := x.ratio
  let scale := topPower num den - count + 1
  let (n, d) :=
    if 0 ≤ scale then (num, den * tenTo scale.toNat) else (num * tenTo (-scale).toNat, den)
  ((neighbours n d).find? fun k => ofDecimal k scale = some x).map (·, scale)

/-- A decimal `n · 10 ^ scale` with up to `bound` zeros moved from the digits to the scale. -/
def dropZeros : (bound : Nat) → (n : Nat) → (scale : Int) → Nat × Int
  | 0, n, scale => (n, scale)
  | bound + 1, n, scale =>
    if n % 10 = 0 then dropZeros bound (n / 10) (scale + 1) else (n, scale)

/-- The shortest decimal that rounds to the magnitude: digits, the last of which is not zero, and
power of ten. Seventeen digits are always enough. -/
def toDecimal (x : Binary64) : Nat × Int :=
  if x.mantissa = 0 then (0, 0)
  else
    let (n, scale) := ((List.range 17).findSome? fun k => x.ofDigits? (k + 1)).getD (0, 0)
    dropZeros 17 n scale

/-- A decimal `n · 10 ^ scale` without an exponent. -/
def positional (n : Nat) (scale : Int) : Bytes :=
  let digits := Bytes.ofNat n
  if 0 ≤ scale then digits ++ List.replicate scale.toNat 0x30
  else
    let places := (-scale).toNat
    let padded := List.replicate (places + 1 - digits.length) 0x30 ++ digits
    padded.take (padded.length - places) ++ 0x2E :: padded.drop (padded.length - places)

/-- The magnitude in as few digits as possible, without an exponent. -/
def render (x : Binary64) : Bytes :=
  let (n, scale) := x.toDecimal
  positional n scale

end Binary64

end FilterQuery
