import FilterQuery.Expr
import FilterQuery.Expr.Operator
import FilterQuery.Parser.Error

/-!
# The parsing machine

Parsing is a walk over the tokens with a stack of unfinished expressions. Each token is either
*shifted*, which moves the walk behind it, or it stays where it is, because the walk is done or
because the token does not fit.

**States.** The machine waits for an operand, for the string literal on the right of a regular
expression operator, or it holds a complete operand and looks at what follows.

**Levels.** Every unfinished expression has a floor: an infix operator continues the operand on its
right only if its level is above the floor. Otherwise the operand is complete and joins the
expression around it. Since an operator is not above its own level, operators of one level
associate to the left.

**Depth.** An operand that starts at the bottom or behind a frame opens one level of nesting. The
check is made at the token that starts it, and no other check can come first.
-/

namespace FilterQuery

/-- An expression that waits for an operand. -/
inductive Frame where
  /-- An opened parenthesis. -/
  | group
  /-- A prefix operator and its level. -/
  | operandOf (op : Token) (level : Nat)
  /-- A left operand, an infix operator and its level. -/
  | rightOf (left : Expr) (op : Token) (level : Nat)
deriving Repr, DecidableEq

namespace Frame

/-- The level that an infix operator must exceed to continue the frame's operand. -/
def floor : Frame → Nat
  | group => 0
  | operandOf _ level => level
  | rightOf _ _ level => level

end Frame

/-- What a run of the machine is to read. -/
inductive Goal where
  /-- An operand and the infix operators above a floor. -/
  | expression (floor : Int)
  /-- A primary or an application of prefix operators. -/
  | operand
deriving Repr, DecidableEq

/-- A run: its goal, the levels of nesting in use before it, and the most there may be. -/
structure Machine where
  goal : Goal
  depth : Nat
  limit : Int
deriving Repr, DecidableEq

namespace Machine

/-- What the machine waits for. -/
inductive State where
  /-- The start of an operand. -/
  | operand (stack : List Frame)
  /-- The string literal on the right of an operator. -/
  | pattern (left : Expr) (op : Token) (stack : List Frame)
  /-- What follows a complete operand. -/
  | operator (done : Expr) (stack : List Frame)
deriving Repr, DecidableEq

/-- What to do about a token. -/
inductive Move where
  | shift (state : State)
  | done (e : Expr)
  | reject (complaint : Complaint)
deriving Repr, DecidableEq

/-- How many levels of nesting a run has opened while a stack is on. -/
def nesting (m : Machine) (stack : List Frame) : Nat :=
  match m.goal with
  | .expression _ => stack.length + 1
  | .operand => stack.length

/-- Whether an operand that starts on top of a stack is nested too deep. -/
def isTooDeep (m : Machine) (stack : List Frame) : Bool :=
  0 < m.nesting stack && m.limit < ((m.depth + m.nesting stack : Nat) : Int)

/-- The table entry of a kind of token whose level is above a floor. -/
def infixAbove? (kind : TokenKind) (floor : Int) : Option InfixOp :=
  match kind.infixOp? with
  | some op => if floor < op.level then some op else none
  | none => none

/-- A token at the start of an operand. -/
def startOperand (m : Machine) (stack : List Frame) (t : Token) : Move :=
  if m.isTooDeep stack then .reject (.tooDeep m.limit)
  else match t.kind.prefixLevel? with
    | some level => .shift (.operand (.operandOf t level :: stack))
    | none =>
      match t.kind with
      | .number => .shift (.operator (.number t.text) stack)
      | .string => .shift (.operator (.string t.text) stack)
      | .identity => .shift (.operator (.identity t.text) stack)
      | .leftParen => .shift (.operand (.group :: stack))
      | _ => .reject (.unexpected .input none)

/-- An infix operator behind a complete operand. -/
def takeInfix (op : InfixOp) (t : Token) (left : Expr) (stack : List Frame) : Move :=
  if op.reserved then .reject .reserved
  else if op.stringArg then .shift (.pattern left t stack)
  else .shift (.operand (.rightOf left t op.level :: stack))

/-- A token in place of a string literal. -/
def takePattern (left : Expr) (op : Token) (stack : List Frame) (t : Token) : Move :=
  match t.kind with
  | .string => .shift (.operator (.binary op left (.string t.text) false) stack)
  | _ => .reject (.unexpected (.rightOf op.text) (some .string))

/-- A token behind a complete operand: the operand joins the frames that the token does not
continue, innermost first. -/
def settle (m : Machine) (t : Token) : Expr → List Frame → Move
  | e, [] =>
    match m.goal with
    | .operand => .done e
    | .expression floor =>
      match infixAbove? t.kind floor with
      | some op => takeInfix op t e []
      | none => .done e
  | e, frame :: stack =>
    match infixAbove? t.kind frame.floor with
    | some op => takeInfix op t e (frame :: stack)
    | none =>
      match frame with
      | .group =>
        match t.kind with
        | .rightParen => .shift (.operator e.grouped stack)
        | _ => .reject (.unexpected .group (some .rightParen))
      | .operandOf op _ => settle m t (.unary op e) stack
      | .rightOf left op _ => settle m t (.binary op left e false) stack

/-- What to do about a token in a state. -/
def step (m : Machine) (t : Token) : State → Move
  | .operand stack => m.startOperand stack t
  | .pattern left op stack => takePattern left op stack t
  | .operator e stack => m.settle t e stack

/-- The end of a run at the closing token of the stream. -/
def close (m : Machine) (s : State) (last : Token) (error : Option LexError) :
    Except ParseError Expr :=
  match m.step last s with
  | .done e => .ok e
  | .reject complaint => .error (.about last error complaint)
  | .shift _ => .error (.about last error (.unexpected .input none))

/-- Runs the machine over tokens. The result is the expression or the error, and the tokens that
were not shifted. -/
def run (m : Machine) (ending : Ending) : State → List Token → Except ParseError Expr × List Token
  | s, [] =>
    match ending with
    | .broken fault => (.error (.broken fault), [])
    | .closed last error => (m.close s last error, [])
  | s, t :: tokens =>
    match m.step t s with
    | .done e => (.ok e, t :: tokens)
    | .reject complaint => (.error (.grammatical ⟨t, complaint⟩), t :: tokens)
    | .shift s' => run m ending s' tokens

end Machine

end FilterQuery
