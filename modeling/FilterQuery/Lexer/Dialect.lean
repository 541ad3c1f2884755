import FilterQuery.Lexer.Rule

/-!
# The filter dialect

The rules of the filter language, in the order in which they are tried. Longer operators stand
before those that begin them, and keywords before identities. The signs `?` and `:` and the
keyword `in` are tokens of the language although no production uses them.
-/

namespace FilterQuery

namespace Rule

/-- The rule of an operator or sign. -/
def sign (kind : TokenKind) : Rule := ⟨kind, .literal [] false, .emit⟩

/-- The rule of a keyword. -/
def word (kind : TokenKind) : Rule := ⟨kind, .literal [] true, .emit⟩

end Rule

/-- Rules with every defaulted text filled in, ready to lex with. -/
def completeRules (rules : List Rule) : List Rule :=
  rules.map Rule.complete

/-- The rules of the filter language as they are written down. -/
def filterRules : List Rule := [
  .sign .leftParen,
  .sign .rightParen,
  .sign .comma,
  .sign .equal,
  .sign .notEqual,
  .sign .greaterEqual,
  .sign .lessEqual,
  .sign .regexNotMatch,
  .sign .regexMatch,
  .sign .less,
  .sign .greater,
  .sign .question,
  .sign .colon,
  .word .and,
  .word .or,
  .word .not,
  .word .isIn,
  ⟨.other 0, .scan .blank, .skip⟩,
  ⟨.number, .scan .number, .emit⟩,
  ⟨.identity, .scan .identity, .emit⟩,
  ⟨.string, .scan .string, .unquote⟩,
  .sign .minus]

/-- The filter dialect. -/
def filterDialect : List Rule :=
  completeRules filterRules

end FilterQuery
