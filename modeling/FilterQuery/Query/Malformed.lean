import FilterQuery.Json.Read
import FilterQuery.Query.Schema

/-!
# Malformed output

An expression that parses may still not make a query: a literal stands where a filter is needed, a
comparison has no field on its left or no plain value on its right, the nesting is too deep, a
number is no JSON number, or the document violates the schema of queries.
-/

namespace FilterQuery

/-- Why no query comes out. Forms of expressions are given by name, expressions by their text. -/
inductive Cause where
  | emptyExpression
  | tooDeep (limit : Int)
  /-- An infix operator that is neither a connective nor a comparison. -/
  | infixNotFilter (op : Bytes)
  | unaryNotFilter (op : Bytes)
  | formNotFilter (form : Bytes)
  | notField (form text : Bytes)
  | badFieldName (text : Bytes)
  | badBound (form text : Bytes)
  | badOperand (op form : Bytes)
  | badPattern (form : Bytes)
  /-- A comparison that no kind of filter is made for. -/
  | unsupported (op : Bytes)
  | badNumber (literal : Bytes)
  | unreadable (error : Json.ReadError)
  | violations (found : List Violation)
deriving Repr, DecidableEq

namespace Cause

/-- The cause in words. -/
def message : Cause → Bytes
  | emptyExpression => ascii "empty expression"
  | tooDeep limit =>
    ascii "hit max depth " ++ Bytes.ofInt limit ++ ascii " on filter generation"
  | infixNotFilter op => ascii "operator " ++ op ++ ascii " can not be used as a filter"
  | unaryNotFilter op => ascii "unary " ++ op ++ ascii " can not be used as a filter"
  | formNotFilter form => form ++ ascii " can not be used as a filter"
  | notField form text =>
    ascii "expected a field but found " ++ form ++ ascii " (" ++ text ++ ascii ")"
  | badFieldName text => ascii "invalid field name " ++ Quoted.quote text
  | badBound form text =>
    ascii "unsupported type for comparison: " ++ form ++ ascii " (" ++ text ++ ascii ")"
  | badOperand op form => ascii "unsupported second argument for " ++ op ++ ascii ": " ++ form
  | badPattern form => ascii "regex pattern must be a string: " ++ form
  | unsupported op => ascii "unsupported binary expression: " ++ op
  | badNumber literal => Json.badNumberMessage literal
  | unreadable error => error.message
  | .violations found =>
    ascii "schema validation failed: " ++ Bytes.join (ascii "; ") (found.map Violation.message)

end Cause

/-- The expression or document at fault, and the cause. -/
structure Malformed where
  doc : Bytes
  cause : Cause
deriving Repr, DecidableEq

namespace Malformed

/-- The text of the error. -/
def message (e : Malformed) : Bytes :=
  ascii "malformed output for " ++ Quoted.quote e.doc ++ ascii ": " ++ e.cause.message

end Malformed

/-- Checks that a text starts with a query document. -/
def validate (doc : Bytes) : Except Malformed Unit :=
  match Json.readFirst doc with
  | .error e => .error ⟨doc, .unreadable e⟩
  | .ok (value, _) =>
    match Query.schema.check [] value with
    | [] => .ok ()
    | violations => .error ⟨doc, .violations violations⟩

end FilterQuery
