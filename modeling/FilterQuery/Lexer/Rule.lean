import FilterQuery.Text.Blank
import FilterQuery.Text.Quoted
import FilterQuery.Token

/-!
# Lexical rules

A rule says which text it matches and what becomes of that text. Rules are tried in order and the
first match wins; a longer match of a later rule is not looked for.
-/

namespace FilterQuery

/-- The classes of text that are matched by scanning rather than by comparison. -/
inductive Scan where
  /-- One or more white-space characters. -/
  | blank
  /-- Digits, possibly with a fraction, and no word byte behind them. -/
  | number
  /-- A letter and all identity bytes behind it. -/
  | identity
  /-- A double quote and everything up to the next one. -/
  | string
deriving Repr, DecidableEq

/-- The texts that a rule matches. -/
inductive Pattern where
  /-- The given text, as a whole word if so required: then no word byte may follow it. -/
  | literal (text : Bytes) (wholeWord : Bool)
  /-- Text of a scanned class. -/
  | scan (kind : Scan)
deriving Repr, DecidableEq

/-- What becomes of matched text. -/
inductive Action where
  /-- It is the text of a token. -/
  | emit
  /-- Without its first and last byte, it is the text of a token. -/
  | unquote
  /-- It is dropped. -/
  | skip
deriving Repr, DecidableEq

/-- One rule of a dialect. -/
structure Rule where
  kind : TokenKind
  pattern : Pattern
  action : Action
deriving Repr, DecidableEq

/-- Whether the text starts with a word byte. -/
def startsWithWord : Bytes → Bool
  | [] => false
  | b :: _ => isWordByte b

namespace Scan

/-- A white-space run at the start of the text, and what follows. -/
def splitBlank (text : Bytes) : Option (Bytes × Bytes) :=
  match Blank.run text with
  | 0 => none
  | n + 1 => some (text.take (n + 1), text.drop (n + 1))

/-- A fraction at the start of the text, and what follows. A point without a digit behind it is
left alone. -/
def splitFraction : Bytes → Bytes × Bytes
  | [] => ([], [])
  | b :: rest =>
    if b == 0x2E && !(rest.takeWhile isDigit).isEmpty then
      (b :: rest.takeWhile isDigit, rest.dropWhile isDigit)
    else ([], b :: rest)

/-- A number at the start of the text, and what follows. -/
def splitNumber (text : Bytes) : Option (Bytes × Bytes) :=
  let digits := text.takeWhile isDigit
  let (fraction, rest) := splitFraction (text.dropWhile isDigit)
  if digits.isEmpty || startsWithWord rest then none else some (digits ++ fraction, rest)

/-- An identity at the start of the text, and what follows. -/
def splitIdentity : Bytes → Option (Bytes × Bytes)
  | [] => none
  | b :: rest =>
    if isLetter b then
      some (b :: rest.takeWhile isIdentityByte, rest.dropWhile isIdentityByte)
    else none

/-- A quoted string at the start of the text, and what follows. -/
def splitString : Bytes → Option (Bytes × Bytes)
  | [] => none
  | b :: rest =>
    if b == 0x22 then
      match rest.dropWhile (· != 0x22) with
      | [] => none
      | q :: rest' => some (b :: rest.takeWhile (· != 0x22) ++ [q], rest')
    else none

/-- The text of the class at the start of the given text, and what follows. -/
def split : Scan → Bytes → Option (Bytes × Bytes)
  | blank => splitBlank
  | number => splitNumber
  | identity => splitIdentity
  | string => splitString

end Scan

namespace Pattern

/-- The match at the start of the text, and what follows it. -/
def split : Pattern → Bytes → Option (Bytes × Bytes)
  | literal lead wholeWord, text =>
    match Bytes.after? lead text with
    | none => none
    | some rest => if wholeWord && startsWithWord rest then none else some (lead, rest)
  | scan kind, text => kind.split text

end Pattern

namespace Rule

/-- A rule that names no text of its own matches the keyword of its kind. -/
def complete (r : Rule) : Rule :=
  match r.pattern, r.action with
  | .literal [] _, .skip => r
  | .literal [] wholeWord, _ => { r with pattern := .literal r.kind.keyword wholeWord }
  | _, _ => r

/-- A rule as listings show it. -/
def describe (r : Rule) : Bytes :=
  ascii "<rule " ++ r.kind.keyword ++
    (match r.pattern with
      | .literal text _ => ascii " " ++ Quoted.quote text
      | .scan _ => ascii " scan")
    ++ ascii ">"

/-- The first rule that matches at the start of the text, with the match and what follows it. -/
def firstMatch : List Rule → Bytes → Option (Rule × Bytes × Bytes)
  | [], _ => none
  | r :: rules, text =>
    match r.pattern.split text with
    | some (lexeme, rest) => some (r, lexeme, rest)
    | none => firstMatch rules text

end Rule

/-- Whether the text is one field path: a letter, then identity bytes only. -/
def isValidIdentity : Bytes → Bool
  | [] => false
  | b :: rest => isLetter b && rest.all isIdentityByte

end FilterQuery
