import FilterQuery.Json

/-!
# Filters

A filter selects documents. Atomic filters test one field; a `bool` filter combines others, each
occurrence of it holding either a list of filters or a single one.
-/

namespace FilterQuery

/-- How the filters inside a `bool` filter take part in it. -/
inductive Occur where
  /-- All of them hold. -/
  | must
  /-- At least one of them holds. -/
  | should
  /-- None of them holds. -/
  | mustNot
deriving Repr, DecidableEq

namespace Occur

/-- The key of an occurrence. -/
def key : Occur → Bytes
  | must => ascii "must"
  | should => ascii "should"
  | mustNot => ascii "must_not"

end Occur

/-- A filter. -/
inductive Filter where
  /-- The field has the value. -/
  | term (field : Bytes) (value : Json)
  /-- The field is on the named side of the value. -/
  | range (field bound : Bytes) (value : Json)
  /-- The field matches the regular expression. -/
  | regexp (field pattern : Bytes)
  /-- A `bool` filter over a list. -/
  | list (occur : Occur) (filters : List Filter)
  /-- A `bool` filter over a single filter. -/
  | one (occur : Occur) (filter : Filter)
  /-- Any value in place of a filter. -/
  | literal (value : Json)
deriving Repr

namespace Filter

/-- All of the filters hold. -/
def all (filters : List Filter) : Filter := list .must filters

/-- At least one of the filters holds. -/
def any (filters : List Filter) : Filter := list .should filters

/-- The filter does not hold. -/
def negation (filter : Filter) : Filter := list .mustNot [filter]

/-- The filter holds. -/
def must (filter : Filter) : Filter := one .must filter

/-- The filter does not hold, in the form for a single atom. -/
def mustNot (filter : Filter) : Filter := one .mustNot filter

/-- Whether nothing stands in place of a filter. -/
def isMissing : Filter → Bool
  | literal .null => true
  | _ => false

/-- An object with one member. -/
def wrap (key : Bytes) (value : Json) : Json :=
  .object [(key, value)]

/-- A `bool` filter with one occurrence. -/
def wrapBool (occur : Occur) (value : Json) : Json :=
  wrap (ascii "bool") (wrap occur.key value)

mutual

/-- The filter as a JSON value. An occurrence that holds nothing is left out. -/
def toJson : Filter → Json
  | term field value => wrap (ascii "term") (wrap field value)
  | range field bound value => wrap (ascii "range") (wrap field (wrap bound value))
  | regexp field pattern => wrap (ascii "regexp") (wrap field (.string pattern))
  | list occur filters => wrapBool occur (.array (toJsonList filters))
  | one occur filter =>
    if filter.isMissing then wrap (ascii "bool") (.object [])
    else wrapBool occur filter.toJson
  | literal value => value

/-- The filters as JSON values. -/
def toJsonList : List Filter → List Json
  | [] => []
  | filter :: filters => filter.toJson :: toJsonList filters

end

end Filter

/-- A query document: an envelope around the root filter. -/
structure Query where
  /-- The filters in the envelope; there may be no list at all. -/
  filters : Option (List Filter)
deriving Repr

namespace Query

/-- The query with a given root filter. -/
def ofFilter (filter : Filter) : Query :=
  ⟨some [filter]⟩

/-- The query without a filter list. -/
def empty : Query := ⟨none⟩

/-- The root filter. -/
def root (q : Query) : Filter :=
  match q.filters with
  | some (filter :: _) => filter
  | _ => .literal .null

/-- The query document. -/
def toJson (q : Query) : Json :=
  let filters :=
    match q.filters with
    | some filters => .array (Filter.toJsonList filters)
    | none => .null
  Filter.wrap (ascii "query") (Filter.wrap (ascii "filtered") (Filter.wrap (ascii "filter") filters))

end Query

end FilterQuery
