import FilterQuery.Token

/-!
# Expressions

An expression is a literal or an operator applied to expressions. Operators keep the token they
were read from, and a binary expression remembers whether it stood in parentheses, so that it is
written back as it was read.
-/

namespace FilterQuery

/-- A filter expression. -/
inductive Expr where
  /-- A field path, or one of the words `true`, `false` and `null`. -/
  | identity (text : Bytes)
  /-- A string literal, without its quotes. -/
  | string (text : Bytes)
  /-- A number literal as it was written. -/
  | number (text : Bytes)
  /-- A prefix operator and its operand. -/
  | unary (op : Token) (arg : Expr)
  /-- An infix operator and its operands. -/
  | binary (op : Token) (left right : Expr) (paren : Bool)
deriving Repr, DecidableEq

namespace Expr

/-- The expression as it stands between parentheses: only a binary one keeps a trace of them. -/
def grouped : Expr → Expr
  | binary op left right _ => binary op left right true
  | e => e

/-- The written expression in front of some text. -/
def write : Expr → Bytes → Bytes
  | identity text, tail => text ++ tail
  | string text, tail => 0x22 :: text ++ 0x22 :: tail
  | number text, tail => text ++ tail
  | unary op arg, tail =>
    match op.kind with
    | .not => ascii "not " ++ arg.write tail
    | .minus => 0x2D :: arg.write tail
    | _ => op.text ++ 0x20 :: arg.write tail
  | binary op left right paren, tail =>
    if paren then
      0x28 :: left.write (0x20 :: op.text ++ 0x20 :: right.write (0x29 :: tail))
    else
      left.write (0x20 :: op.text ++ 0x20 :: right.write tail)

/-- The written expression. -/
def render (e : Expr) : Bytes :=
  e.write []

/-- The name of an expression's form, as messages give it. -/
def formName : Expr → Bytes
  | identity _ => ascii "*expr.IdentityNode"
  | string _ => ascii "*expr.StringNode"
  | number _ => ascii "*expr.NumberNode"
  | unary _ _ => ascii "*expr.UnaryNode"
  | binary _ _ _ _ => ascii "*expr.BinaryNode"

end Expr

/-- The truth value that an identity text spells, if any. -/
def truth? (text : Bytes) : Option Bool :=
  if text = ascii "true" then some true
  else if text = ascii "false" then some false
  else none

/-- Whether an identity text spells the null value. -/
def isNull (text : Bytes) : Bool :=
  text = ascii "null"

/-- The text of a number with its sign flipped. -/
def negate : Bytes → Bytes
  | [] => [0x2D]
  | b :: rest => if b = 0x2D then rest else 0x2D :: b :: rest

end FilterQuery
