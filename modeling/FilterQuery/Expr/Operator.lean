import FilterQuery.Token

/-!
# Operators

The operator table of the language. Levels grow with binding strength; all infix operators of one
level associate to the left, and a prefix operator binds tighter than every infix one:

    1  or
    2  and
    3  in            reserved: it has a level, but no meaning yet
    4  ==  !=
    5  <  <=  >  >=
    6  ~=  ~!=       the right operand is a string literal
    7  not           prefix
    8  -             prefix
-/

namespace FilterQuery

/-- An infix operator of the table. -/
structure InfixOp where
  level : Nat
  /-- The operator has a place in the table, but no production. -/
  reserved : Bool := false
  /-- The right operand must be a string literal. -/
  stringArg : Bool := false
deriving Repr, DecidableEq

namespace TokenKind

/-- The table entry of an infix operator. -/
def infixOp? : TokenKind → Option InfixOp
  | .or => some { level := 1 }
  | .and => some { level := 2 }
  | .isIn => some { level := 3, reserved := true }
  | .equal => some { level := 4 }
  | .notEqual => some { level := 4 }
  | .less => some { level := 5 }
  | .lessEqual => some { level := 5 }
  | .greater => some { level := 5 }
  | .greaterEqual => some { level := 5 }
  | .regexMatch => some { level := 6, stringArg := true }
  | .regexNotMatch => some { level := 6, stringArg := true }
  | _ => none

/-- The level of a prefix operator. -/
def prefixLevel? : TokenKind → Option Nat
  | .not => some 7
  | .minus => some 8
  | _ => none

/-- Whether a kind of token compares a field with a value. -/
def isComparison : TokenKind → Bool
  | .equal | .notEqual | .greaterEqual | .lessEqual | .greater | .less | .regexMatch
  | .regexNotMatch => true
  | _ => false

end TokenKind

end FilterQuery
