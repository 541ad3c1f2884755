import FilterQuery.Text.Bytes

/-!
# Token kinds

Each kind has a number, by which tokens are exchanged, a keyword, by which messages and rules name
it, and a description. Kinds outside the language are kept by their number alone.
-/

namespace FilterQuery

/-- What a token is. -/
inductive TokenKind where
  | eof
  | error
  | comma
  | colon
  | question
  | minus
  | equal
  | notEqual
  | greaterEqual
  | lessEqual
  | greater
  | less
  | or
  | and
  | isIn
  | not
  | leftParen
  | rightParen
  | regexMatch
  | regexNotMatch
  | identity
  | string
  | number
  /-- A kind that the language does not know. -/
  | other (code : Nat)
deriving Repr, DecidableEq

namespace TokenKind

/-- The number of a kind. -/
def code : TokenKind → Nat
  | eof => 1
  | error => 4
  | comma => 20
  | colon => 22
  | question => 27
  | minus => 60
  | equal => 68
  | notEqual => 69
  | greaterEqual => 70
  | lessEqual => 71
  | greater => 72
  | less => 73
  | or => 78
  | and => 79
  | isIn => 80
  | not => 82
  | leftParen => 83
  | rightParen => 84
  | regexMatch => 89
  | regexNotMatch => 90
  | identity => 190
  | string => 204
  | number => 208
  | other code => code

/-- The kind with a given number. -/
def ofCode : Nat → TokenKind
  | 1 => eof
  | 4 => error
  | 20 => comma
  | 22 => colon
  | 27 => question
  | 60 => minus
  | 68 => equal
  | 69 => notEqual
  | 70 => greaterEqual
  | 71 => lessEqual
  | 72 => greater
  | 73 => less
  | 78 => or
  | 79 => and
  | 80 => isIn
  | 82 => not
  | 83 => leftParen
  | 84 => rightParen
  | 89 => regexMatch
  | 90 => regexNotMatch
  | 190 => identity
  | 204 => string
  | 208 => number
  | code => other code

/-- Whether the language knows the kind. -/
def isKnown : TokenKind → Bool
  | other _ => false
  | _ => true

/-- The word or sign that names a kind: for operators and keywords it is their spelling. -/
def keyword : TokenKind → Bytes
  | eof => ascii "EOF"
  | error => ascii "Error"
  | comma => ascii ","
  | colon => ascii ":"
  | question => ascii "?"
  | minus => ascii "-"
  | equal => ascii "=="
  | notEqual => ascii "!="
  | greaterEqual => ascii ">="
  | lessEqual => ascii "<="
  | greater => ascii ">"
  | less => ascii "<"
  | or => ascii "or"
  | and => ascii "and"
  | isIn => ascii "in"
  | not => ascii "not"
  | leftParen => ascii "("
  | rightParen => ascii ")"
  | regexMatch => ascii "~="
  | regexNotMatch => ascii "~!="
  | identity => ascii "identity"
  | string => ascii "String"
  | number => ascii "Number"
  | other _ => ascii "not implemented"

/-- A longer name, where the keyword is not telling enough. -/
def description : TokenKind → Bytes
  | notEqual => ascii "NE"
  | greaterEqual => ascii "GE"
  | lessEqual => ascii "LE"
  | greater => ascii "GT"
  | less => ascii "LT"
  | or => ascii "Or"
  | and => ascii "And"
  | isIn => ascii "IN"
  | not => ascii "NOT"
  | regexMatch => ascii "RegexMatch"
  | regexNotMatch => ascii "RegexNotMatch"
  | kind => kind.keyword

/-- Kinds after which a token stream holds nothing more. -/
def isClosing : TokenKind → Bool
  | eof => true
  | error => true
  | _ => false

end TokenKind

end FilterQuery
