import FilterQuery.Lexer.Dialect
import FilterQuery.Lexer.Error

/-!
# The lexer

A lexer walks over its input and gives one token at a time. Its state is a position and two pieces
of text: `pending`, read since the last token but not yet given out, and `rest`, not yet read. A
caller may also move it one character at a time; the characters passed over then join the text of
the next token.

Two things can go wrong besides a text that no rule matches. A rule that strips quotes may win
while less than two bytes are pending, and a rule that skips nothing may win forever. Both are
reported as faults; no rule of the filter dialect causes either.
-/

namespace FilterQuery

/-- Ways in which a dialect can break the lexer. -/
inductive Fault where
  /-- The text to be unquoted is shorter than two quotes. -/
  | unquotable
  /-- A rule keeps matching the empty text, and no token is ever reached. -/
  | endless
deriving Repr, DecidableEq

/-- The state of the lexical scan. -/
structure Lexer where
  rules : List Rule
  input : Bytes
  /-- The length of the input. -/
  size : Nat
  /-- Where the pending text starts. -/
  start : Position
  /-- Text read since the last token. -/
  pending : Bytes
  /-- Text not read yet. -/
  rest : Bytes
  /-- A token given out by `emit?` and not taken yet. -/
  buffered : Option Token
  /-- The lexical error, once there is one. -/
  error : Option LexError
  /-- Whether the last token, or an error token, has been given out. -/
  ended : Bool
deriving Repr

namespace Lexer

/-- A lexer at the beginning of a text. The rules are completed first. -/
def ofText (rules : List Rule) (input : Bytes) : Lexer where
  rules := completeRules rules
  input := input
  size := input.length
  start := .start
  pending := []
  rest := input
  buffered := none
  error := none
  ended := false

/-- The offset up to which the input has been read. -/
def pos (l : Lexer) : Nat :=
  l.start.offset + l.pending.length

/-- Whether all input has been read. -/
def isEnd (l : Lexer) : Bool :=
  l.rest.isEmpty

/-- The lexer with the next token starting at the current position. -/
def restart (l : Lexer) : Lexer :=
  { l with start := l.start.advance l.pending, pending := [] }

/-- The lexer with some text moved from `rest` to `pending`. -/
def read (l : Lexer) (text rest : Bytes) : Lexer :=
  { l with pending := l.pending ++ text, rest := rest }

/-! ## Moving by characters -/

/-- The chunk at the current position. -/
def peek (l : Lexer) : Option Utf8.Chunk :=
  match l.rest with
  | [] => none
  | b :: rest => some (Utf8.chunkAt b rest)

/-- The chunk at the current position, and the lexer behind it. -/
def next (l : Lexer) : Option Utf8.Chunk × Lexer :=
  match l.peek with
  | none => (none, l)
  | some chunk => (some chunk, l.read chunk.bytes (l.rest.drop chunk.bytes.length))

/-- Offsets are 64-bit numbers; no offset reaches this one. -/
def offsetLimit : Int := 9223372036854775808

/-- The next `count` bytes, or all there are. A negative count, and one that leads beyond the
offsets there are, is refused. -/
def peekBytes (l : Lexer) (count : Int) : Option Bytes :=
  if count < 0 || offsetLimit ≤ l.pos + count then none else some (l.rest.take count.toNat)

/-! ## Giving out tokens -/

/-- The pending text as a token with a given text, and the lexer behind it. -/
def give (l : Lexer) (kind : TokenKind) (text : Bytes) : Token × Lexer :=
  (.located l.start kind text, l.restart)

/-- Gives out the pending text as a token of the given kind, to be taken by the next call of
`nextToken`. Only one token can wait: while there is one, `emit?` is refused. -/
def emit? (l : Lexer) (kind : TokenKind) : Option Lexer :=
  match l.buffered with
  | some _ => none
  | none =>
    let (token, l') := l.give kind l.pending
    some { l' with buffered := some token }

/-- The error at the current token start. -/
def errorHere (l : Lexer) : LexError :=
  ⟨l.input, l.start.offset, l.start.line, l.start.column⟩

/-- The error token, and the lexer stopped by it. -/
def fail (l : Lexer) : Token × Lexer :=
  let e := l.errorHere
  (.located l.start .error e.message, { l with error := some e, ended := true })

/-- The end token, and the lexer stopped by it. -/
def finish (l : Lexer) : Token × Lexer :=
  let (token, l') := l.give .eof l.pending
  (token, { l' with ended := true })

/-- Runs rules until one of them gives a token. Every run but the last skips at least one byte, so
as many runs as the input has bytes, and one more, are enough; a lexer that needs more never gets
to a token. -/
def scan : (runs : Nat) → Lexer → Except Fault Token × Lexer
  | 0, l => (.error .endless, l)
  | runs + 1, l =>
    if l.ended then (.ok (.pastEnd l.size), l)
    else if l.isEnd then
      let (token, l') := l.finish
      (.ok token, l')
    else
      match Rule.firstMatch l.rules l.rest with
      | none =>
        let (token, l') := l.fail
        (.ok token, l')
      | some (rule, lexeme, rest) =>
        let l' := l.read lexeme rest
        match rule.action with
        | .skip => scan runs l'.restart
        | .emit =>
          let (token, l'') := l'.give rule.kind l'.pending
          (.ok token, l'')
        | .unquote =>
          if l'.pending.length < 2 then (.error .unquotable, l')
          else
            let (token, l'') := l'.give rule.kind (l'.pending.drop 1).dropLast
            (.ok token, l'')

/-- The next token. At the end of the input it is an `eof` token holding the pending text; after
that, and after an error token, it is an empty `eof` token over and over. -/
def nextToken (l : Lexer) : Except Fault Token × Lexer :=
  match l.buffered with
  | some token => (.ok token, { l with buffered := none })
  | none => scan (l.size + 1) l

end Lexer

/-! ## Whole token streams -/

/-- How a token stream ends. -/
inductive Ending where
  /-- With a closing token; if it reports a lexical error, with that error. -/
  | closed (last : Token) (error : Option LexError)
  /-- With a fault in place of a token. -/
  | broken (fault : Fault)
deriving Repr, DecidableEq

namespace Lexer

/-- Adds tokens up to the closing one to those already `found`, which are in reverse. Every token
but a buffered one and the closing one takes at least a byte, which bounds their number; a stream
that is longer never ends. -/
def collect (found : List Token) : (bound : Nat) → Lexer → List Token × Ending
  | 0, _ => (found.reverse, .broken .endless)
  | bound + 1, l =>
    match l.nextToken with
    | (.error fault, _) => (found.reverse, .broken fault)
    | (.ok token, l') =>
      if token.isClosing then (found.reverse, .closed token l'.error)
      else collect (token :: found) bound l'

/-- The tokens that the lexer still has to give, up to the closing one, and the ending. -/
def stream (l : Lexer) : List Token × Ending :=
  collect [] (l.size + 2) l

end Lexer

/-- The tokens of an expression, the closing one included, or the lexical error in it. The rules of
the filter language break no stream (`Lexer.stream_closed`), so the last case does not occur. -/
def tokenize (input : Bytes) : Except LexError (List Token) :=
  match (Lexer.ofText filterRules input).stream with
  | (_, .closed _ (some error)) => .error error
  | (tokens, .closed last none) => .ok (tokens ++ [last])
  | (tokens, .broken _) => .ok tokens

end FilterQuery
