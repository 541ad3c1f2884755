import FilterQuery.Text.Quoted

/-!
# Lexical errors

A lexical error says where in a text no rule applies, and shows the beginning of what stands there.
-/

namespace FilterQuery

/-- No rule matches the text at a place. -/
structure LexError where
  input : Bytes
  pos : Nat
  line : Int
  column : Int
deriving Repr, DecidableEq

namespace LexError

/-- How many bytes of the unmatched text a message shows. -/
def excerptSize : Nat := 20

/-- The beginning of the unmatched text. -/
def near (e : LexError) : Bytes :=
  (e.input.drop e.pos).take excerptSize

/-- The text of the error. -/
def message (e : LexError) : Bytes :=
  ascii "lex: unrecognized input at line " ++ Bytes.ofInt e.line
    ++ ascii " column " ++ Bytes.ofInt e.column
    ++ ascii " near " ++ Quoted.quote e.near

end LexError

end FilterQuery
