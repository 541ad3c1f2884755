import FilterQuery.Lexer

/-!
# Token cursors

A cursor stands on one token of a stream and reads the tokens behind it only when asked to: one
token ahead at most. It never moves back, and on the closing token it stays where it is.
-/

namespace FilterQuery

/-- A place in a token stream that is being read. -/
structure Cursor where
  /-- The tokens already passed, the last one first. -/
  passed : List Token
  current : Token
  /-- The token behind the current one, if it has been read. -/
  ahead : Option Token
  lexer : Lexer
deriving Repr

namespace Cursor

/-- A cursor on the first token of a lexer. -/
def ofLexer (l : Lexer) : Except Fault Cursor :=
  match l.nextToken with
  | (.ok token, l') => .ok ⟨[], token, none, l'⟩
  | (.error fault, _) => .error fault

/-- The tokens that have been read so far. -/
def buffered (c : Cursor) : List Token :=
  c.passed.reverse ++ c.current :: c.ahead.toList

/-- The cursor on the given token, behind the current one. -/
def moveTo (c : Cursor) (token : Token) : Cursor :=
  { c with passed := c.current :: c.passed, current := token, ahead := none }

/-- Passes the current token and gives it. A token that cannot be read leaves the cursor in
place. -/
def next (c : Cursor) : Except Fault Token × Cursor :=
  match c.ahead with
  | some token => (.ok c.current, c.moveTo token)
  | none =>
    if c.current.isClosing then (.ok c.current, c)
    else
      match c.lexer.nextToken with
      | (.ok token, l) => (.ok c.current, { c with lexer := l }.moveTo token)
      | (.error fault, l) => (.error fault, { c with lexer := l })

/-- The token behind the current one; on the closing token it is that token again. -/
def peek (c : Cursor) : Except Fault Token × Cursor :=
  match c.ahead with
  | some token => (.ok token, c)
  | none =>
    if c.current.isClosing then (.ok c.current, c)
    else
      match c.lexer.nextToken with
      | (.ok token, l) => (.ok token, { c with lexer := l, ahead := some token })
      | (.error fault, l) => (.error fault, { c with lexer := l })

/-- Passes as many tokens as given. -/
def advance : (count : Nat) → Cursor → Cursor
  | 0, c => c
  | count + 1, c => advance count c.next.2

/-- The tokens from the current one up to the closing one, and the ending. -/
def upcoming (c : Cursor) : List Token × Ending :=
  if c.current.isClosing then ([], .closed c.current c.lexer.error)
  else
    match c.ahead with
    | none =>
      let (tokens, ending) := c.lexer.stream
      (c.current :: tokens, ending)
    | some token =>
      if token.isClosing then ([c.current], .closed token c.lexer.error)
      else
        let (tokens, ending) := c.lexer.stream
        (c.current :: token :: tokens, ending)

end Cursor

end FilterQuery
