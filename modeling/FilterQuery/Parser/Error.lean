import FilterQuery.Lexer

/-!
# Parse errors

A parse fails at one token. Either the token does not fit, and the complaint says why, or it
reports a lexical error, which is then passed on. A dialect that breaks the lexer breaks the parse
as well.
-/

namespace FilterQuery

/-- Where in the grammar a token was met. -/
inductive Place where
  | input
  | group
  /-- Behind the operator with the given text. -/
  | rightOf (op : Bytes)
deriving Repr, DecidableEq

namespace Place

/-- The place as messages name it. -/
def name : Place → Bytes
  | input => ascii "input"
  | group => ascii "parenthesized expression"
  | rightOf op => ascii "right side of " ++ op

end Place

/-- What is wrong with a token. -/
inductive Complaint where
  /-- It does not belong here; if only one kind does, that kind is named. -/
  | unexpected (place : Place) (expected : Option TokenKind)
  /-- It is an operator without a meaning. -/
  | reserved
  /-- The expression that starts here is nested too deep. -/
  | tooDeep (limit : Int)
deriving Repr, DecidableEq

/-- A token that does not fit, and why. -/
structure SyntaxError where
  token : Token
  complaint : Complaint
deriving Repr, DecidableEq

namespace SyntaxError

/-- The complaint in words. -/
def detail (e : SyntaxError) : Bytes :=
  match e.complaint with
  | .unexpected place none =>
    ascii "unexpected " ++ e.token.kind.keyword ++ ascii " in " ++ place.name
  | .unexpected place (some kind) =>
    ascii "unexpected " ++ e.token.kind.keyword ++ ascii " in " ++ place.name
      ++ ascii ", expected " ++ kind.keyword
  | .reserved => ascii "unsupported operator " ++ Quoted.quote e.token.text
  | .tooDeep limit => ascii "expression nested deeper than " ++ Bytes.ofInt limit

/-- The text of the error. -/
def message (e : SyntaxError) : Bytes :=
  ascii "expr: " ++ e.detail ++ ascii " at line " ++ Bytes.ofNat e.token.line
    ++ ascii " column " ++ Bytes.ofNat e.token.column ++ ascii ", got " ++ e.token.describe

end SyntaxError

/-- Why a parse failed. -/
inductive ParseError where
  | lexical (error : LexError)
  | grammatical (error : SyntaxError)
  | broken (fault : Fault)
deriving Repr, DecidableEq

namespace ParseError

/-- The error about a token. A token that was expected to be something else, and that reports a
lexical error, passes that error on. -/
def about (token : Token) (error : Option LexError) (complaint : Complaint) : ParseError :=
  match complaint, token.kind, error with
  | .unexpected _ _, .error, some e => .lexical e
  | _, _, _ => .grammatical ⟨token, complaint⟩

/-- Whether the parse failed for its depth. -/
def isTooDeep : ParseError → Bool
  | grammatical ⟨_, .tooDeep _⟩ => true
  | _ => false

/-- The text of the error; a break has none. -/
def message : ParseError → Bytes
  | lexical e => e.message
  | grammatical e => e.message
  | broken _ => []

end ParseError

end FilterQuery
