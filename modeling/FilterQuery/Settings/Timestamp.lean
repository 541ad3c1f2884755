import FilterQuery.Text.Bytes

/-!
# Timestamps

A word of a settings file may be a date, or a date with a time of day. The year has four digits,
all other numbers have one or two. A time of day stands behind the letter `T` and then has a time
zone, or behind blanks and then has none; without a time zone it is universal time.
-/

namespace FilterQuery

/-- A point in time, as the calendar and the clock of its time zone show it. -/
structure Timestamp where
  year : Nat
  month : Nat
  day : Nat
  hour : Nat
  minute : Nat
  second : Nat
  nanosecond : Nat
  /-- By how many minutes the clock is ahead of universal time. -/
  offset : Int
deriving Repr, DecidableEq

namespace Timestamp

/-! ## The calendar -/

/-- Whether a year has a leap day. -/
def isLeap (year : Nat) : Bool :=
  year % 4 == 0 && (year % 100 != 0 || year % 400 == 0)

/-- The number of days of a month. -/
def daysIn (year month : Nat) : Nat :=
  if month = 2 then (if isLeap year then 29 else 28)
  else if month = 4 || month = 6 || month = 9 || month = 11 then 30
  else 31

/-! ## Reading -/

/-- The number that two digits stand for. -/
def twoDigits (a b : UInt8) : Nat :=
  (a.toNat - 0x30) * 10 + (b.toNat - 0x30)

/-- A number of one or two digits, and what follows it. -/
def number? : Bytes → Option (Nat × Bytes)
  | [] => none
  | [a] => if isDigit a then some (a.toNat - 0x30, []) else none
  | a :: b :: rest =>
    if !isDigit a then none
    else if isDigit b then some (twoDigits a b, rest)
    else some (a.toNat - 0x30, b :: rest)

/-- A number behind a given byte, and what follows it. -/
def numberAfter? (sign : UInt8) : Bytes → Option (Nat × Bytes)
  | [] => none
  | b :: rest => if b = sign then number? rest else none

/-- A year of four digits, and what follows it. -/
def year? (text : Bytes) : Option (Nat × Bytes) :=
  match text.takeWhile isDigit with
  | [a, b, c, d] => some (twoDigits a b * 100 + twoDigits c d, text.dropWhile isDigit)
  | _ => none

/-- A date, at the beginning of its day in universal time, and what follows it. -/
def date? (text : Bytes) : Option (Timestamp × Bytes) := do
  let (year, rest) ← year? text
  let (month, rest) ← numberAfter? 0x2D rest
  let (day, rest) ← numberAfter? 0x2D rest
  if 1 ≤ month && month ≤ 12 && 1 ≤ day && day ≤ daysIn year month then
    some (⟨year, month, day, 0, 0, 0, 0, 0⟩, rest)
  else none

/-- The nanoseconds that the digits of a fraction stand for. Digits beyond the ninth do not
count. -/
def nanoseconds (digits : Bytes) : Nat :=
  ((digits ++ List.replicate 9 0x30).take 9).foldl (fun n (b : UInt8) => n * 10 + (b.toNat - 0x30)) 0

/-- The fraction of a second behind a point or a comma, in nanoseconds, and what follows it. A mark
without a digit behind it is left alone. -/
def fraction : Bytes → Nat × Bytes
  | [] => (0, [])
  | b :: rest =>
    if (b = 0x2E || b = 0x2C) && !(rest.takeWhile isDigit).isEmpty then
      (nanoseconds (rest.takeWhile isDigit), rest.dropWhile isDigit)
    else (0, b :: rest)

/-- The time of day on a given date, and what follows it. -/
def clock? (date : Timestamp) (text : Bytes) : Option (Timestamp × Bytes) := do
  let (hour, rest) ← number? text
  let (minute, rest) ← numberAfter? 0x3A rest
  let (second, rest) ← numberAfter? 0x3A rest
  let (nanosecond, rest) := fraction rest
  if hour < 24 && minute < 60 && second < 60 then
    some ({ date with hour, minute, second, nanosecond }, rest)
  else none

/-- A time zone that is a whole text: `Z`, or hours and minutes with a sign. -/
def zone? : Bytes → Option Int
  | [b] => if b = 0x5A then some 0 else none
  | [sign, a, b, colon, c, d] =>
    let minutes : Int := twoDigits a b * 60 + twoDigits c d
    if colon = 0x3A && [a, b, c, d].all isDigit && twoDigits a b ≤ 24 && twoDigits c d ≤ 60 then
      if sign = 0x2B then some minutes else if sign = 0x2D then some (-minutes) else none
    else none
  | _ => none

/-- The point in time that a word stands for. -/
def read? (word : Bytes) : Option Timestamp :=
  match date? word with
  | none => none
  | some (date, []) => some date
  | some (date, b :: rest) =>
    if b = 0x54 || b = 0x74 then
      match clock? date rest with
      | some (time, zone) => (zone? zone).map fun offset => { time with offset }
      | none => none
    else if b = 0x20 then
      match clock? date (rest.dropWhile (· == 0x20)) with
      | some (time, []) => some time
      | _ => none
    else none

/-! ## Writing -/

/-- A number with zeros in front of it, up to a given width. -/
def padded (width n : Nat) : Bytes :=
  let digits := Bytes.ofNat n
  List.replicate (width - digits.length) 0x30 ++ digits

/-- A fraction of a second without superfluous zeros; none if it is zero. -/
def renderFraction (nanosecond : Nat) : Bytes :=
  if nanosecond = 0 then []
  else 0x2E :: ((padded 9 nanosecond).reverse.dropWhile (· == 0x30)).reverse

/-- An offset from universal time in hours and minutes. -/
def renderOffset (offset : Int) : Bytes :=
  (if offset < 0 then 0x2D else 0x2B) :: padded 2 (offset.natAbs / 60)
    ++ padded 2 (offset.natAbs % 60)

/-- The timestamp as messages show it: date, time of day, offset, and the name of the time zone. A
time zone other than universal time is named by its offset. -/
def render (t : Timestamp) : Bytes :=
  padded 4 t.year ++ 0x2D :: padded 2 t.month ++ 0x2D :: padded 2 t.day
    ++ 0x20 :: padded 2 t.hour ++ 0x3A :: padded 2 t.minute ++ 0x3A :: padded 2 t.second
    ++ renderFraction t.nanosecond ++ 0x20 :: renderOffset t.offset
    ++ 0x20 :: (if t.offset = 0 then ascii "UTC" else renderOffset t.offset)

end Timestamp

end FilterQuery
