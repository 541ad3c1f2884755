import FilterQuery.Json.Equal
import FilterQuery.Json.Read

/-!
# Suites

A suite is a list of expressions, each with the filter that it must compile to and the documents
that it must find. A suite is run with any compile function and any search function.
-/

namespace FilterQuery

/-- How a check ends. -/
inductive Verdict where
  | pass
  /-- Something is not as it should be. -/
  | fail
  /-- Something is so wrong that the check cannot go on. -/
  | stop
deriving Repr, DecidableEq

namespace Verdict

/-- The verdict on two checks, the second of which was made in spite of the first. -/
def and : Verdict → Verdict → Verdict
  | stop, _ => stop
  | _, stop => stop
  | pass, pass => pass
  | _, _ => fail

/-- The verdict on a condition. -/
def ofBool (holds : Bool) : Verdict :=
  if holds then pass else fail

end Verdict

/-! ## The filters of a document -/

/-- Whether two names are equal but for the case of their letters. -/
def sameName (a b : Bytes) : Bool :=
  let fold (b : UInt8) : UInt8 := if 0x61 ≤ b && b ≤ 0x7A then b - 0x20 else b
  a.map fold == b.map fold

/-- Reads an object member by member: each member of the given name is read on top of what was
read before. Null says nothing, and nothing but an object will do otherwise. -/
def readMembers {α : Type} (name : Bytes) (read : α → Json → Option α) (before : α) :
    Json → Option α
  | .null => some before
  | .object members =>
    members.foldlM (fun now (key, value) => if sameName key name then read now value else some now)
      before
  | _ => none

/-- Reads a filter list. A later list replaces an earlier one, and so does null. -/
def readFilters (_ : List Json) : Json → Option (List Json)
  | .null => some []
  | .array items => some items
  | _ => none

/-- The filters in the envelope of a query document. -/
def filtersOf? (document : Json) : Option (List Json) :=
  readMembers (ascii "query")
    (readMembers (ascii "filtered") (readMembers (ascii "filter") readFilters)) [] document

/-! ## Checks -/

/-- Whether a filter holds the data that a text asks for. -/
def hasData (want : Bytes) (filter : Json) : Bool :=
  match Json.read want with
  | .ok value => value.isFinite && filter.isFinite && value.same filter
  | .error _ => false

/-- Checks that a document holds one filter, and that filter the wanted data. -/
def checkDocument (want document : Bytes) : Verdict :=
  match Json.read document with
  | .error _ => .stop
  | .ok value =>
    match filtersOf? value with
    | some [filter] => .ofBool (hasData want filter)
    | _ => .stop

/-- A compile function, as far as suites are concerned. -/
abbrev CompileFn := Bytes → Option Bytes

/-- Checks that an expression compiles to the wanted filter. -/
def checkCompile (compile : CompileFn) (expression want : Bytes) : Verdict :=
  match compile expression with
  | none => .stop
  | some document => checkDocument want document

/-- Checks that an expression does not compile. -/
def checkReject (compile : CompileFn) (expression : Bytes) : Verdict :=
  .ofBool (compile expression).isNone

/-! ## Suites -/

/-- An expression, the filter that it compiles to and the documents that it finds. -/
structure Spec where
  expression : Bytes
  filter : Bytes
  hits : List Bytes
deriving Repr, DecidableEq

/-- What a suite did: the expressions that were compiled, the documents that were searched for,
and the verdict. -/
structure SuiteRun where
  compiled : List Bytes
  searched : List Bytes
  verdict : Verdict
deriving Repr, DecidableEq

namespace SuiteRun

/-- A run that did nothing. -/
def empty : SuiteRun := ⟨[], [], .pass⟩

/-- A run after an earlier step. -/
def after (compiled : Bytes) (searched : Option Bytes) (verdict : Verdict) (run : SuiteRun) :
    SuiteRun :=
  ⟨compiled :: run.compiled, searched.toList ++ run.searched, verdict.and run.verdict⟩

end SuiteRun

/-- Checks the filter of every expression, up to the first one that cannot be checked. -/
def compileSuite (compile : CompileFn) : List Spec → SuiteRun
  | [] => .empty
  | spec :: specs =>
    match checkCompile compile spec.expression spec.filter with
    | .stop => SuiteRun.empty.after spec.expression none .stop
    | verdict => (compileSuite compile specs).after spec.expression none verdict

/-- Whether two lists hold the same texts, each as often. -/
def sameHits (xs ys : List Bytes) : Bool :=
  xs.mergeSort Bytes.le == ys.mergeSort Bytes.le

/-- Searches for every expression that compiles and checks what is found. The search function is
given the index of the expression, the expression's entry and the document. -/
def searchSuite (compile : CompileFn) (search : Nat → Spec → Bytes → List Bytes) :
    (index : Nat) → List Spec → SuiteRun
  | _, [] => .empty
  | index, spec :: specs =>
    let more := searchSuite compile search (index + 1) specs
    match compile spec.expression with
    | none => more.after spec.expression none .fail
    | some document =>
      let hits := search index spec document
      more.after spec.expression (some document) (.ofBool (sameHits spec.hits hits))

end FilterQuery
