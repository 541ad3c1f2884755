import FilterQuery.Token.Kind
import FilterQuery.Token.Position

/-!
# Tokens

A token is a kind, a text and the place where it starts. The text of a string token is what stands
between its quotes; any other token carries the text that it was read from.
-/

namespace FilterQuery

/-- One token. -/
structure Token where
  kind : TokenKind
  text : Bytes
  pos : Nat
  line : Nat
  column : Nat
deriving Repr, DecidableEq

namespace Token

/-- The token of a given kind and text at a position. -/
def located (p : Position) (kind : TokenKind) (text : Bytes) : Token :=
  ⟨kind, text, p.offset, p.line, p.column⟩

/-- A token that stands nowhere in particular. -/
def bare (kind : TokenKind) (text : Bytes) : Token :=
  ⟨kind, text, 0, 0, 0⟩

/-- The token that an exhausted lexer keeps giving for a text of the given length. -/
def pastEnd (size : Nat) : Token :=
  ⟨.eof, [], size, 0, 0⟩

/-- Whether no token follows this one. -/
def isClosing (t : Token) : Bool :=
  t.kind.isClosing

/-- A token as messages show it. -/
def describe (t : Token) : Bytes :=
  ascii "Token\x7bType:\"" ++ t.kind.keyword ++ ascii "\" Value:\"" ++ t.text ++ ascii "\"\x7d"

end Token

end FilterQuery
