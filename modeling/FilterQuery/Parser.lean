import FilterQuery.Parser.Cursor
import FilterQuery.Parser.Machine

/-!
# Parsing

A parser is a cursor together with the expression that was built last and the levels of nesting
that are in use. Parts of one text can be parsed one after the other, also behind an error: what
has been passed stays passed. A parse that fails for its depth leaves one level in use for good.
-/

namespace FilterQuery

/-- The depth that expressions may have unless another limit is set. -/
def defaultDepth : Int := 1000

/-- A parse in progress. -/
structure Parser where
  cursor : Cursor
  /-- Levels of nesting that are in use. -/
  depth : Nat
  /-- The expression that was built last. -/
  root : Option Expr
deriving Repr

namespace Parser

/-- A parser on the first token of a lexer. -/
def ofLexer (l : Lexer) : Except Fault Parser :=
  match Cursor.ofLexer l with
  | .ok cursor => .ok ⟨cursor, 0, none⟩
  | .error fault => .error fault

/-- The parser after a failure. Only a break, which is no verdict on the text, leaves the
expression built before. -/
def failed (p : Parser) (e : ParseError) : Parser :=
  match e with
  | .broken _ => p
  | _ => { p with root := none, depth := if e.isTooDeep then p.depth + 1 else p.depth }

/-- Parses from the current token on, up to what the goal leaves over. -/
def run (p : Parser) (limit : Int) (goal : Goal) : Except ParseError Expr × Parser :=
  let (tokens, ending) := p.cursor.upcoming
  let (result, rest) := Machine.run ⟨goal, p.depth, limit⟩ ending (.operand []) tokens
  let p' := { p with cursor := p.cursor.advance (tokens.length - rest.length) }
  match result with
  | .ok e => (.ok e, p')
  | .error e => (.error e, p'.failed e)

/-- Parses an operand and the infix operators above a floor. -/
def expression (p : Parser) (limit floor : Int) : Except ParseError Expr × Parser :=
  p.run limit (.expression floor)

/-- Parses an expression up to the end of the text. -/
def build (p : Parser) (limit : Int) : Except ParseError Expr × Parser :=
  match p.expression limit 0 with
  | (.error e, p') => (.error e, p')
  | (.ok e, p') =>
    let t := p'.cursor.current
    if t.kind = .eof then (.ok e, { p' with root := some e })
    else
      let e := ParseError.about t p'.cursor.lexer.error (.unexpected .input (some .eof))
      (.error e, p'.failed e)

end Parser

/-- Parses a whole text with the given rules. -/
def parseWith (rules : List Rule) (limit : Int) (input : Bytes) : Except ParseError Expr :=
  match Parser.ofLexer (.ofText rules input) with
  | .ok p => (p.build limit).1
  | .error fault => .error (.broken fault)

/-- Parses a whole text of the filter language. -/
def parse (limit : Int) (input : Bytes) : Except ParseError Expr :=
  parseWith filterRules limit input

end FilterQuery
