import FilterQuery.Parser

/-!
# Recursive descent

The same parser written with calls in place of a stack. A tree holds the cursor, the level of
nesting and the root built last; the functions change it in place, and they fail by throwing.

**Levels.** `enter` opens a level and throws if it is one too many. `leave` closes it, and it is run
however the rest of the call ends, thrown errors included. An error of `enter` itself comes before
there is anything to leave.

**Nodes.** A node may be missing, so that what stands behind a complaint has a result as well.

**Turns.** The recursion is bounded. Each call and each turn of the loop over infix operators takes
one of a number of turns, and with none left nothing at all comes out. Two turns for each token are
enough, and with more of them the result is the same.
-/

namespace FilterQuery

/-- An expression under construction: any part of it may be missing. -/
inductive Node where
  | nil
  | identity (text : Bytes)
  | string (text : Bytes)
  | number (text : Bytes)
  | unary (op : Token) (arg : Node)
  | binary (op : Token) (left right : Node) (paren : Bool)
deriving Repr, DecidableEq

namespace Node

/-- The node as it stands between parentheses. -/
def grouped : Node → Node
  | binary op left right _ => binary op left right true
  | n => n

/-- The expression that the node is, if nothing is missing in it. -/
def expr? : Node → Option Expr
  | nil => none
  | identity text => some (.identity text)
  | string text => some (.string text)
  | number text => some (.number text)
  | unary op arg => return .unary op (← arg.expr?)
  | binary op left right paren => return .binary op (← left.expr?) (← right.expr?) paren

end Node

/-- An expression as a node. -/
def Expr.node : Expr → Node
  | identity text => .identity text
  | string text => .string text
  | number text => .number text
  | unary op arg => .unary op arg.node
  | binary op left right paren => .binary op left.node right.node paren

/-- What the functions work on. -/
structure Tree where
  cursor : Cursor
  depth : Int
  root : Node
deriving Repr

namespace Tree

/-- A tree on the first token of a lexer. -/
def ofLexer (l : Lexer) : Except Fault Tree :=
  match Cursor.ofLexer l with
  | .ok cursor => .ok ⟨cursor, 0, .nil⟩
  | .error fault => .error fault

/-- The root as text. -/
def render (tree : Tree) : Bytes :=
  match tree.root.expr? with
  | some e => e.render
  | none => []

end Tree

/-- A computation on a tree. -/
abbrev Descent := ExceptT ParseError (StateT Tree Option)

namespace Descent

/-- Runs a computation: its result, thrown or not, and the tree it leaves. -/
def run {α : Type} (x : Descent α) (tree : Tree) : Option (Except ParseError α × Tree) :=
  StateT.run (ExceptT.run x) tree

/-! ## Tokens -/

/-- The current token. -/
def current : Descent Token := do
  return (← get).cursor.current

/-- What the cursor answers. -/
def ask (question : Cursor → Except Fault Token × Cursor) : Descent Token := do
  let tree ← get
  let (result, cursor) := question tree.cursor
  set { tree with cursor }
  match result with
  | .ok token => return token
  | .error fault => throw (.broken fault)

/-- Passes the current token. -/
def next : Descent Token :=
  ask Cursor.next

/-- The token behind the current one. -/
def peek : Descent Token :=
  ask Cursor.peek

/-! ## Complaints -/

/-- Throws an error, and drops the root. -/
def abandon (error : ParseError) : Descent Unit := do
  modify fun tree => { tree with root := .nil }
  throw error

/-- Complains about a token. -/
def complain (token : Token) (complaint : Complaint) : Descent Unit :=
  abandon (.grammatical ⟨token, complaint⟩)

/-- Complains about a token that does not belong where it stands. The token of a lexical error
passes that error on. -/
def unexpected (token : Token) (place : Place) (expected : Option TokenKind) : Descent Unit := do
  if token.kind = .error then
    if let some error := (← get).cursor.lexer.error then
      abandon (.lexical error)
  complain token (.unexpected place expected)

/-- The current token, which must be of the given kind. -/
def expect (kind : TokenKind) (place : Place) : Descent Token := do
  let token ← current
  if token.kind ≠ kind then
    unexpected token place (some kind)
  return token

/-! ## Levels -/

/-- Opens a level of nesting. -/
def enter (limit : Int) : Descent Unit := do
  modify fun tree => { tree with depth := tree.depth + 1 }
  if limit < (← get).depth then
    complain (← current) (.tooDeep limit)

/-- Closes a level of nesting. -/
def leave : StateT Tree Option Unit :=
  modify fun tree => { tree with depth := tree.depth - 1 }

/-! ## Expressions -/

/-- What comes of a call when there are no turns left. -/
def exhausted {α : Type} : Descent α :=
  ExceptT.mk failure

mutual

/-- An operand and the infix operators above a floor. -/
def expressionIn (limit floor : Int) : (turns : Nat) → Descent Node
  | 0 => exhausted
  | turns + 1 => do
    enter limit
    ExceptT.mk do
      let result ← ExceptT.run do
        continuedIn limit floor turns (← operandIn limit turns)
      -- Both results come here, so the level is closed also when an error passes through.
      leave
      return result

/-- The infix operators above a floor, behind a left operand. -/
def continuedIn (limit floor : Int) : (turns : Nat) → (left : Node) → Descent Node
  | 0, _ => exhausted
  | turns + 1, left => do
    let token ← current
    match token.kind.infixOp? with
    | none => return left
    | some op =>
      if op.level ≤ floor then
        return left
      if op.reserved then
        complain token .reserved
      let _ ← next
      let right ←
        if op.stringArg then do
          let pattern ← expect .string (.rightOf token.text)
          let _ ← next
          pure (Node.string pattern.text)
        else expressionIn limit op.level turns
      continuedIn limit floor turns (.binary token left right false)

/-- A primary or an application of prefix operators. -/
def operandIn (limit : Int) : (turns : Nat) → Descent Node
  | 0 => exhausted
  | turns + 1 => do
    let token ← current
    match token.kind.prefixLevel? with
    | some level =>
      let _ ← next
      return .unary token (← expressionIn limit level turns)
    | none =>
      match token.kind with
      | .number =>
        let _ ← next
        return .number token.text
      | .string =>
        let _ ← next
        return .string token.text
      | .identity =>
        let _ ← next
        return .identity token.text
      | .leftParen =>
        let _ ← next
        let inner := (← expressionIn limit 0 turns).grouped
        let _ ← expect .rightParen .group
        let _ ← next
        return inner
      | _ =>
        unexpected token .input none
        return .nil

end

/-- The turns that the tokens left can take: two for each of them, and two for the closing one. -/
def turns : Descent Nat := do
  return 2 * (← get).cursor.upcoming.1.length + 2

/-- An operand and the infix operators above a floor, from the current token on. -/
def expression (limit floor : Int) : Descent Node := do
  expressionIn limit floor (← turns)

/-- A primary or an application of prefix operators, from the current token on. -/
def operand (limit : Int) : Descent Node := do
  operandIn limit (← turns)

/-- Reads an expression up to the end of the text, and keeps it as the root. -/
def whole (limit : Int) : Descent Unit := do
  let root ← expression limit 0
  modify fun tree => { tree with root }
  let _ ← expect .eof .input

/-- Catches an error. A break is none, and it is thrown on. -/
def recover (x : Descent Unit) : Descent (Option ParseError) :=
  tryCatch (do x; return none) fun error =>
    match error with
    | .broken fault => throw (.broken fault)
    | error => return some error

/-- Builds the root from the whole text, or gives the error. -/
def build (limit : Int) : Descent (Option ParseError) :=
  recover (whole limit)

end Descent

end FilterQuery
