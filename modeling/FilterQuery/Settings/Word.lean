import FilterQuery.Json.Decimal
import FilterQuery.Settings.Scalar

/-!
# Plain words

A word that stands without quotes in a settings file has a value by its form: a few words are
fixed, a word that starts like a number is tried as a timestamp, an integer and a floating point
number, in this order, and all other words stand for themselves.
-/

namespace FilterQuery.Word

/-- Whether a text is one of some words. -/
def isOneOf (words : List String) (t : Bytes) : Bool :=
  words.any (ascii · = t)

/-! ## Integers -/

/-- The sign in front of a number. -/
inductive Sign where
  | none
  | plus
  | minus
deriving Repr, DecidableEq

/-- The sign of a word, and what follows it. -/
def splitSign : Bytes → Sign × Bytes
  | [] => (.none, [])
  | b :: rest =>
    if b = 0x2D then (.minus, rest)
    else if b = 0x2B then (.plus, rest)
    else (.none, b :: rest)

/-- The integer with a sign and a magnitude. Integers have 64 bits, one of which is for the sign if
one is written. -/
def Sign.integer? (sign : Sign) (n : Nat) : Option Int :=
  match sign with
  | none => if n < 18446744073709551616 then some n else .none
  | plus => if n < 9223372036854775808 then some n else .none
  | minus => if n ≤ 9223372036854775808 then some (-n) else .none

/-- The value of a digit in bases up to sixteen. -/
def digitValue? (b : UInt8) : Option Nat :=
  if isDigit b then some (b.toNat - 0x30)
  else if 0x61 ≤ b && b ≤ 0x66 then some (b.toNat - 0x57)
  else if 0x41 ≤ b && b ≤ 0x46 then some (b.toNat - 0x37)
  else none

/-- The number that digits of a base stand for; there must be at least one. -/
def natOfBase? (base : Nat) (digits : Bytes) : Option Nat :=
  if digits.isEmpty then none
  else digits.foldlM (fun n b =>
    match digitValue? b with
    | some d => if d < base then some (n * base + d) else none
    | none => none) 0

/-- The number that a word without sign stands for. A leading zero means octal. -/
def nat? (word : Bytes) : Option Nat :=
  match word with
  | 0x30 :: b :: digits =>
    if b = 0x78 || b = 0x58 then natOfBase? 16 digits
    else if b = 0x62 || b = 0x42 then natOfBase? 2 digits
    else if b = 0x6F || b = 0x4F then natOfBase? 8 digits
    else natOfBase? 8 (b :: digits)
  | _ => natOfBase? 10 word

/-- The integer that a word stands for. -/
def integer? (word : Bytes) : Option Int :=
  let (sign, body) := splitSign word
  (nat? body).bind sign.integer?

/-- The integer that a word stands for if its sign is written behind the mark of its base. -/
def markedInteger? (word : Bytes) : Option Int :=
  match word with
  | 0x30 :: b :: rest =>
    let (sign, digits) := splitSign rest
    if b = 0x62 then (natOfBase? 2 digits).bind sign.integer?
    else if b = 0x6F then (natOfBase? 8 digits).bind sign.integer?
    else none
  | _ => none

/-! ## Floating point numbers -/

/-- Whether a word without sign has the form of a decimal number: digits with at most one point
among or around them, and an exponent or none. -/
def isDecimal (body : Bytes) : Bool :=
  let integer := body.takeWhile isDigit
  let rest := body.dropWhile isDigit
  let (hasPoint, fraction, rest) :=
    if rest.head? = some 0x2E then
      (true, (rest.drop 1).takeWhile isDigit, (rest.drop 1).dropWhile isDigit)
    else (false, [], rest)
  (!integer.isEmpty || (hasPoint && !fraction.isEmpty)) && Json.Number.afterExponent? rest = some []

/-- The floating point number that a word stands for, unless it is too large for any. -/
def float? (word : Bytes) : Option Scalar :=
  let (sign, body) := splitSign word
  if isDecimal body then
    let d := Json.Decimal.ofLiteral body
    (Binary64.ofDecimal (Json.natOfDigits d.digits) d.scale).map (.float (sign = .minus))
  else none

/-! ## Words -/

/-- The word without its underscores. -/
def plain (word : Bytes) : Bytes :=
  word.filter (· != 0x5F)

/-- Whether every underscore of a word stands between two digits. -/
def separatesDigits : (before : Option UInt8) → Bytes → Bool
  | _, [] => true
  | before, b :: rest =>
    (b != 0x5F || (before.any isDigit && rest.head?.any isDigit)) && separatesDigits (some b) rest

/-- The value of a word that starts with a digit or a sign. Its underscores do not count. -/
def numeric? (word : Bytes) : Option Scalar :=
  match Timestamp.read? word with
  | some t => some (.time t)
  | none =>
    match integer? (plain word) with
    | some n => some (.integer n)
    | none =>
      match float? (plain word) with
      | some x => some x
      | none => (markedInteger? (plain word)).map .integer

/-- The value of a word that starts with a point. Its underscores do not count between digits, and
stand nowhere else. -/
def fractional? (word : Bytes) : Option Scalar :=
  if separatesDigits none word then float? (plain word) else none

/-- The value of a word by the way it starts. -/
def number? : Bytes → Option Scalar
  | [] => none
  | b :: rest =>
    if isDigit b || b == 0x2B || b == 0x2D then numeric? (b :: rest)
    else if b == 0x2E then fractional? (b :: rest)
    else none

/-- The value of a word. -/
def value (word : Bytes) : Scalar :=
  if isOneOf ["", "~", "null", "Null", "NULL"] word then .null
  else if isOneOf ["true", "True", "TRUE"] word then .bool true
  else if isOneOf ["false", "False", "FALSE"] word then .bool false
  else if isOneOf [".nan", ".NaN", ".NAN"] word then .notANumber
  else if isOneOf [".inf", ".Inf", ".INF", "+.inf", "+.Inf", "+.INF"] word then .infinity false
  else if isOneOf ["-.inf", "-.Inf", "-.INF"] word then .infinity true
  else (number? word).getD (.text word)

end FilterQuery.Word
