import FilterQuery.Json

/-!
# Number literals

The literals that JSON allows for numbers: an optional minus, an integer part without superfluous
zeros, an optional fraction and an optional exponent.
-/

namespace FilterQuery.Json.Number

/-- What follows one or more digits. -/
def afterDigits? : Bytes → Option Bytes
  | [] => none
  | b :: rest => if isDigit b then some (rest.dropWhile isDigit) else none

/-- What follows a minus, if there is one. -/
def afterMinus : Bytes → Bytes
  | [] => []
  | b :: rest => if b = 0x2D then rest else b :: rest

/-- What follows an integer part. -/
def afterInteger? : Bytes → Option Bytes
  | [] => none
  | b :: rest => if b = 0x30 then some rest else afterDigits? (b :: rest)

/-- What follows a fraction, if there is one. -/
def afterFraction? : Bytes → Option Bytes
  | [] => some []
  | b :: rest => if b = 0x2E then afterDigits? rest else some (b :: rest)

/-- What follows the sign of an exponent, if there is one. -/
def afterSign : Bytes → Bytes
  | [] => []
  | b :: rest => if b = 0x2B || b = 0x2D then rest else b :: rest

/-- What follows an exponent, if there is one. -/
def afterExponent? : Bytes → Option Bytes
  | [] => some []
  | b :: rest => if b = 0x65 || b = 0x45 then afterDigits? (afterSign rest) else some (b :: rest)

/-- What follows a number literal. -/
def after? (text : Bytes) : Option Bytes :=
  match afterInteger? (afterMinus text) with
  | none => none
  | some rest =>
    match afterFraction? rest with
    | none => none
    | some rest => afterExponent? rest

/-- Whether the text is a number literal. -/
def isLiteral (text : Bytes) : Bool :=
  after? text = some []

end FilterQuery.Json.Number
