import FilterQuery.Parser
import FilterQuery.Query.Generate

/-!
# Compilation

A text of the filter language is parsed, turned into a query and written as a JSON document, and
the document is checked against the schema of queries before it is handed out.
-/

namespace FilterQuery

/-- The limits of a compilation. -/
structure Limits where
  /-- How deep an expression may be nested. -/
  expression : Int := defaultDepth
  /-- How deep a filter may be nested. -/
  filter : Int := defaultFilterDepth
deriving Repr, DecidableEq

/-- Why a text does not compile. -/
inductive CompileError where
  | parse (error : ParseError)
  | malformed (error : Malformed)
deriving Repr, DecidableEq

namespace CompileError

/-- The text of the error. -/
def message : CompileError → Bytes
  | .parse e => e.message
  | .malformed e => e.message

end CompileError

/-- A query and its document. -/
structure Compiled where
  query : Query
  document : Bytes
deriving Repr

/-- Compiles a text of the filter language. -/
def compile (limits : Limits) (input : Bytes) : Except CompileError Compiled :=
  match parse limits.expression input with
  | .error e => .error (.parse e)
  | .ok e =>
    match generate limits.filter (some e) with
    | .error e => .error (.malformed e)
    | .ok query =>
      match query.toJson.encode with
      | .error literal => .error (.malformed ⟨input, .badNumber literal⟩)
      | .ok document =>
        match validate document with
        | .error e => .error (.malformed e)
        | .ok () => .ok ⟨query, document⟩

/-- What a compilation that succeeds has gone through. -/
theorem compile_eq_ok {limits : Limits} {input : Bytes} {c : Compiled} :
    compile limits input = .ok c ↔ ∃ e filter, parse limits.expression input = .ok e ∧
      e.filterAt limits.filter 0 = .ok filter ∧ c.query = .ofFilter filter ∧
      c.query.toJson.encode = .ok c.document ∧ validate c.document = .ok () := by
  constructor
  · intro h
    simp only [compile] at h
    split at h
    · cases h
    next e hparse =>
    split at h
    · cases h
    next query hquery =>
    split at h
    · cases h
    next document hdocument =>
    split at h
    · cases h
    next hvalid =>
    cases h
    obtain ⟨filter, hfilter, hmade⟩ := Except.map_eq_ok.1 hquery
    exact ⟨e, filter, hparse, hfilter, hmade.symm, hdocument, hvalid⟩
  · obtain ⟨query, document⟩ := c
    rintro ⟨e, filter, hparse, hfilter, rfl, hdocument, hvalid⟩
    simp only [compile, generate, hparse, hfilter, Except.map, hdocument, hvalid]

end FilterQuery
