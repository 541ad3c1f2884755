import FilterQuery.Json
import FilterQuery.Text.Quoted

/-!
# Read JSON

Reading is a walk over the bytes of a text with a stack of unfinished arrays and objects. The walk
stops behind the first value; what follows that value is left over. Strings may hold stray bytes
and lone surrogates, which are read as the replacement character.

Nesting is bounded: no more than `Reader.maxNesting` arrays and objects may be open at a time.
-/

namespace FilterQuery.Json

/-! ## Errors -/

/-- Where in a text a byte does not fit. -/
inductive Misfit where
  | value
  | key
  | afterKey
  | afterMember
  | afterItem
  /-- Inside one of the words `true`, `false` and `null`, where another byte comes next. -/
  | word (word : Bytes) (expected : UInt8)
  | number
  | fraction
  | exponent
  | string
  | escape
  | hexEscape
  | nesting
  | afterDocument
deriving Repr, DecidableEq

namespace Misfit

/-- The place as messages name it. -/
def name : Misfit → Bytes
  | value => ascii "looking for beginning of value"
  | key => ascii "looking for beginning of object key string"
  | afterKey => ascii "after object key"
  | afterMember => ascii "after object key:value pair"
  | afterItem => ascii "after array element"
  | .word text expected =>
    ascii "in literal " ++ text ++ ascii " (expecting " ++ Quoted.quoteByte expected ++ ascii ")"
  | number => ascii "in numeric literal"
  | fraction => ascii "after decimal point in numeric literal"
  | exponent => ascii "in exponent of numeric literal"
  | string => ascii "in string literal"
  | escape => ascii "in string escape code"
  | hexEscape => ascii "in \\u hexadecimal character escape"
  | nesting => ascii "exceeded max depth"
  | afterDocument => ascii "after top-level value"

end Misfit

/-- Why a text cannot be read. -/
inductive ReadError where
  /-- There is nothing but blanks. -/
  | empty
  /-- The text ends inside a value. -/
  | truncated
  /-- A byte does not fit. -/
  | misfit (b : UInt8) (place : Misfit)
deriving Repr, DecidableEq

namespace ReadError

/-- The text of the error. -/
def message : ReadError → Bytes
  | empty => ascii "EOF"
  | truncated => ascii "unexpected EOF"
  | misfit b place => ascii "invalid character " ++ Quoted.quoteByte b ++ ascii " " ++ place.name

end ReadError

/-! ## Strings -/

/-- The number that a hexadecimal digit stands for. -/
def hexValue (b : UInt8) : Nat :=
  if isDigit b then b.toNat - 0x30
  else if 0x61 ≤ b && b ≤ 0x66 then b.toNat - 0x57
  else b.toNat - 0x37

/-- Whether a byte is a hexadecimal digit. -/
def isHexDigit (b : UInt8) : Bool :=
  isDigit b || (0x61 ≤ b && b ≤ 0x66) || (0x41 ≤ b && b ≤ 0x46)

/-- The number that four hexadecimal digits stand for. -/
def hexValue4 (a b c d : UInt8) : Nat :=
  ((hexValue a * 16 + hexValue b) * 16 + hexValue c) * 16 + hexValue d

/-- Whether a number is the first half of a surrogate pair. -/
def isHighSurrogate (n : Nat) : Bool :=
  0xD800 ≤ n && n ≤ 0xDBFF

/-- Whether a number is the second half of a surrogate pair. -/
def isLowSurrogate (n : Nat) : Bool :=
  0xDC00 ≤ n && n ≤ 0xDFFF

/-- The code point of a surrogate pair. -/
def ofSurrogates (high low : Nat) : Nat :=
  0x10000 + (high - 0xD800) * 0x400 + (low - 0xDC00)

/-- The byte that a short escape stands for. -/
def ofShortEscape (b : UInt8) : UInt8 :=
  if b = 0x62 then 0x08
  else if b = 0x66 then 0x0C
  else if b = 0x6E then 0x0A
  else if b = 0x72 then 0x0D
  else if b = 0x74 then 0x09
  else b

/-- What a first half of a surrogate pair is read as if the second half does not follow, in
reverse. -/
def unpaired (high : Option Nat) : Bytes :=
  if high.isSome then (Utf8.encode Utf8.replacement).reverse else []

/-- Resolves the escapes in the text between the quotes of a string, behind the first half of a
surrogate pair if one has just been read. What has been `resolved` before is in reverse. -/
def resolveFrom (resolved : Bytes) (high : Option Nat) : Bytes → Bytes
  | [] => (unpaired high ++ resolved).reverse
  | 0x5C :: 0x75 :: a :: b :: c :: d :: rest =>
    let n := hexValue4 a b c d
    match high, isLowSurrogate n with
    | some h, true => resolveFrom ((Utf8.encode (ofSurrogates h n)).reverse ++ resolved) none rest
    | _, _ =>
      if isHighSurrogate n then resolveFrom (unpaired high ++ resolved) (some n) rest
      else resolveFrom ((Utf8.encode n).reverse ++ unpaired high ++ resolved) none rest
  | 0x5C :: b :: rest => resolveFrom (ofShortEscape b :: unpaired high ++ resolved) none rest
  | b :: rest => resolveFrom (b :: unpaired high ++ resolved) none rest

/-- The text that stands between the quotes of a string. -/
def unquoteString (raw : Bytes) : Bytes :=
  Utf8.sanitize (resolveFrom [] none raw)

/-! ## The walk -/

namespace Reader

/-- How many arrays and objects may be open at a time. -/
def maxNesting : Nat := 10000

/-- The blanks between the parts of a value. -/
def isBlank (b : UInt8) : Bool :=
  b == 0x20 || b == 0x09 || b == 0x0A || b == 0x0D

/-- An array or object that is not complete. What it holds so far is in reverse. -/
inductive Level where
  | array (items : List Json)
  /-- The key belongs to the member that is being read. -/
  | object (members : List (Bytes × Json)) (key : Bytes)
deriving Repr

/-- Where inside a string escape the walk is. -/
inductive Escape where
  | none
  | backslash
  /-- That many hexadecimal digits are missing, and one more. -/
  | hex (more : Nat)
deriving Repr, DecidableEq

/-- Where inside a number the walk is. -/
inductive NumberPart where
  | minus
  | zero
  | integer
  | point
  | fraction
  | exponent
  | exponentSign
  | exponentDigits
deriving Repr, DecidableEq

/-- What the walk waits for or is inside of. Bytes read so far are in reverse. -/
inductive State where
  | value
  | firstItem
  | firstKey
  | key
  | colon
  /-- What follows a complete value. -/
  | after (v : Json)
  | string (isKey : Bool) (raw : Bytes) (escape : Escape)
  | word (word rest : Bytes) (v : Json)
  | number (raw : Bytes) (part : NumberPart)
deriving Repr

/-- What a byte does to the walk. -/
inductive Move where
  | proceed (state : State) (stack : List Level)
  /-- The value is complete; the byte belongs to it or it does not. -/
  | complete (v : Json) (used : Bool)
  | misfit (place : Misfit)
deriving Repr

/-- Opens an array or object. -/
def enter (state : State) (level : Level) (stack : List Level) : Move :=
  if stack.length < maxNesting then .proceed state (level :: stack) else .misfit .nesting

/-- Closes an array or object. -/
def leave (v : Json) : List Level → Move
  | [] => .complete v true
  | stack => .proceed (.after v) stack

/-- A byte behind a complete value. -/
def followValue (b : UInt8) (v : Json) : List Level → Move
  | [] => .complete v false
  | .array items :: stack =>
    if isBlank b then .proceed (.after v) (.array items :: stack)
    else if b = 0x2C then .proceed .value (.array (v :: items) :: stack)
    else if b = 0x5D then leave (.array (v :: items).reverse) stack
    else .misfit .afterItem
  | .object members key :: stack =>
    if isBlank b then .proceed (.after v) (.object members key :: stack)
    else if b = 0x2C then .proceed .key (.object ((key, v) :: members) [] :: stack)
    else if b = 0x7D then leave (.object ((key, v) :: members).reverse) stack
    else .misfit .afterMember

/-- A byte where a value starts. -/
def startValue (b : UInt8) (stack : List Level) : Move :=
  if isBlank b then .proceed .value stack
  else if b = 0x7B then enter .firstKey (.object [] []) stack
  else if b = 0x5B then enter .firstItem (.array []) stack
  else if b = 0x22 then .proceed (.string false [] .none) stack
  else if b = 0x2D then .proceed (.number [b] .minus) stack
  else if b = 0x30 then .proceed (.number [b] .zero) stack
  else if isDigit b then .proceed (.number [b] .integer) stack
  else if b = 0x74 then .proceed (.word (ascii "true") (ascii "rue") (.bool true)) stack
  else if b = 0x66 then .proceed (.word (ascii "false") (ascii "alse") (.bool false)) stack
  else if b = 0x6E then .proceed (.word (ascii "null") (ascii "ull") .null) stack
  else .misfit .value

/-- A byte where a key starts. -/
def startKey (b : UInt8) (stack : List Level) : Move :=
  if isBlank b then .proceed .key stack
  else if b = 0x22 then .proceed (.string true [] .none) stack
  else .misfit .key

/-- A byte between a key and its value. -/
def takeColon (b : UInt8) (stack : List Level) : Move :=
  if isBlank b then .proceed .colon stack
  else if b = 0x3A then .proceed .value stack
  else .misfit .afterKey

/-- A complete string. A key is kept in the object it belongs to. -/
def endString (isKey : Bool) (raw : Bytes) (stack : List Level) : Move :=
  let text := unquoteString raw.reverse
  match isKey, stack with
  | true, .object members _ :: stack => .proceed .colon (.object members text :: stack)
  | _, _ => .proceed (.after (.string text)) stack

/-- A byte inside a string. -/
def continueString (b : UInt8) (isKey : Bool) (raw : Bytes) (escape : Escape)
    (stack : List Level) : Move :=
  match escape with
  | .none =>
    if b = 0x22 then endString isKey raw stack
    else if b = 0x5C then .proceed (.string isKey (b :: raw) .backslash) stack
    else if b < 0x20 then .misfit .string
    else .proceed (.string isKey (b :: raw) .none) stack
  | .backslash =>
    if (ascii "bfnrt\\/\"").contains b then .proceed (.string isKey (b :: raw) .none) stack
    else if b = 0x75 then .proceed (.string isKey (b :: raw) (.hex 3)) stack
    else .misfit .escape
  | .hex more =>
    if isHexDigit b then
      .proceed (.string isKey (b :: raw) (if more = 0 then .none else .hex (more - 1))) stack
    else .misfit .hexEscape

/-- A byte inside a number: the part that it leads to, or how it fails to belong to the number. -/
def continueNumber (b : UInt8) : NumberPart → Except (Option Misfit) NumberPart
  | .minus =>
    if b = 0x30 then .ok .zero else if isDigit b then .ok .integer else .error (some .number)
  | .zero =>
    if b = 0x2E then .ok .point
    else if b = 0x65 || b = 0x45 then .ok .exponent
    else .error none
  | .integer =>
    if isDigit b then .ok .integer
    else if b = 0x2E then .ok .point
    else if b = 0x65 || b = 0x45 then .ok .exponent
    else .error none
  | .point => if isDigit b then .ok .fraction else .error (some .fraction)
  | .fraction =>
    if isDigit b then .ok .fraction
    else if b = 0x65 || b = 0x45 then .ok .exponent
    else .error none
  | .exponent =>
    if b = 0x2B || b = 0x2D then .ok .exponentSign
    else if isDigit b then .ok .exponentDigits
    else .error (some .exponent)
  | .exponentSign => if isDigit b then .ok .exponentDigits else .error (some .exponent)
  | .exponentDigits => if isDigit b then .ok .exponentDigits else .error none

/-- What a byte does in a state. -/
def step (b : UInt8) (stack : List Level) : State → Move
  | .value => startValue b stack
  | .firstItem =>
    if isBlank b then .proceed .firstItem stack
    else if b = 0x5D then leave (.array []) (stack.drop 1)
    else startValue b stack
  | .firstKey =>
    if isBlank b then .proceed .firstKey stack
    else if b = 0x7D then leave (.object []) (stack.drop 1)
    else startKey b stack
  | .key => startKey b stack
  | .colon => takeColon b stack
  | .after v => followValue b v stack
  | .string isKey raw escape => continueString b isKey raw escape stack
  | .word word rest v =>
    match rest with
    | [] => followValue b v stack
    | expected :: rest =>
      if b = expected then .proceed (if rest.isEmpty then .after v else .word word rest v) stack
      else .misfit (.word word expected)
  | .number raw part =>
    match continueNumber b part with
    | .ok part => .proceed (.number (b :: raw) part) stack
    | .error none => followValue b (.number raw.reverse) stack
    | .error (some place) => .misfit place

/-- The end of the text: as far as the walk can tell, a blank might as well follow. -/
def atEnd (state : State) (stack : List Level) : Except ReadError Json :=
  match step 0x20 stack state with
  | .complete v _ => .ok v
  | _ =>
    match state, stack with
    | .value, [] => .error .empty
    | _, _ => .error .truncated

/-- Walks over a text up to the end of a value; gives the value and what is left over. -/
def run : State → List Level → Bytes → Except ReadError (Json × Bytes)
  | state, stack, [] => (atEnd state stack).map (·, [])
  | state, stack, b :: rest =>
    match step b stack state with
    | .proceed state stack => run state stack rest
    | .complete v true => .ok (v, rest)
    | .complete v false => .ok (v, b :: rest)
    | .misfit place => .error (.misfit b place)

end Reader

/-- The first value of a text, and what follows it. -/
def readFirst (text : Bytes) : Except ReadError (Json × Bytes) :=
  Reader.run .value [] text

/-- The value of a text that holds nothing else. -/
def read (text : Bytes) : Except ReadError Json :=
  match readFirst text with
  | .error e => .error e
  | .ok (v, rest) =>
    match rest.dropWhile Reader.isBlank with
    | [] => .ok v
    | b :: _ => .error (.misfit b .afterDocument)

end FilterQuery.Json
