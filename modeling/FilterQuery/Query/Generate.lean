import FilterQuery.Expr
import FilterQuery.Expr.Operator
import FilterQuery.Lexer.Rule
import FilterQuery.Query.Filter
import FilterQuery.Query.Malformed

/-!
# From expressions to filters

An expression in filter position is a comparison of a field with a value, or a connective over
expressions in filter position. Every operand of a connective is one level deeper than the
connective itself, except the left operand of a run `a and b and c …` or `a or b or c …`: it stays
on the level of the run, so that only real nesting counts against the limit.
-/

namespace FilterQuery

/-- The depth that filters may have unless another limit is set. -/
def defaultFilterDepth : Int := 1000

namespace Expr

/-- The value that an expression stands for on the right of a comparison: a literal, or a number
behind minus signs. -/
def value? : Expr → Option Json
  | string text => some (.string text)
  | number text => some (.number text)
  | identity text =>
    match truth? text with
    | some b => some (.bool b)
    | none => if isNull text then some .null else none
  | unary op arg =>
    match op.kind, arg.value? with
    | .minus, some (.number text) => some (.number (negate text))
    | _, _ => none
  | binary _ _ _ _ => none

/-- The field that an expression stands for on the left of a comparison. -/
def field (e : Expr) : Except Cause Bytes :=
  match e with
  | identity text => if isValidIdentity text then .ok text else .error (.badFieldName text)
  | _ => .error (.notField e.formName e.render)

/-- A field is an identity with a valid text. -/
theorem field_eq_ok {e : Expr} {field : Bytes} :
    e.field = .ok field ↔ e = .identity field ∧ isValidIdentity field = true := by
  cases e with
  | identity text =>
    simp only [Expr.field]
    split
    · next hvalid =>
      simp only [Except.ok.injEq, identity.injEq]
      constructor
      · rintro rfl
        exact ⟨rfl, hvalid⟩
      · exact fun h => h.1
    · next hvalid =>
      simp only [reduceCtorEq, identity.injEq, false_iff]
      rintro ⟨rfl, h⟩
      exact hvalid h
  | _ => simp [Expr.field]

/-- Whether an expression, on the left of a connective, continues a run of that connective. -/
def continuesRun (kind : TokenKind) : Expr → Bool
  | binary op _ _ paren => !paren && op.kind == kind
  | _ => false

end Expr

theorem Except.map_eq_ok {ε α β : Type} {f : α → β} {x : Except ε α} {b : β} :
    x.map f = .ok b ↔ ∃ a, x = .ok a ∧ f a = b := by
  cases x <;> simp [Except.map]

theorem Except.exists_of_isOk {ε α : Type} {x : Except ε α} (h : x.isOk = true) :
    ∃ a, x = .ok a := by
  cases x with
  | error e => cases h
  | ok a => exact ⟨a, rfl⟩

/-- The operators that set a bound, with the keys of their bounds. -/
def rangeOps : List (TokenKind × Bytes) :=
  [(.less, ascii "lt"), (.lessEqual, ascii "lte"), (.greater, ascii "gt"),
    (.greaterEqual, ascii "gte")]

namespace TokenKind

/-- A filter that compares a field with a bound. An operator that is not in the table would set a
bound with an empty key. -/
def rangeFilter (kind : TokenKind) (field : Bytes) (right : Expr) : Except Cause Filter :=
  match right.value? with
  | some value => .ok (.range field ((rangeOps.lookup kind).getD []) value)
  | none => .error (.badBound right.formName right.render)

/-- A filter on the value of a field. -/
def termFilter (kind : TokenKind) (field : Bytes) (right : Expr) : Except Cause Filter :=
  match right.value? with
  | some value => .ok (.term field value)
  | none => .error (.badOperand kind.keyword right.formName)

/-- A filter that matches a field against a pattern. -/
def regexpFilter (field : Bytes) (right : Expr) : Except Cause Filter :=
  match right with
  | .string pattern => .ok (.regexp field pattern)
  | _ => .error (.badPattern right.formName)

/-- The filter of a comparison with the operator. -/
def filter (kind : TokenKind) (field : Bytes) (right : Expr) : Except Cause Filter :=
  match kind with
  | .greaterEqual | .lessEqual | .greater | .less => kind.rangeFilter field right
  | .equal => kind.termFilter field right
  | .notEqual => (kind.termFilter field right).map Filter.mustNot
  | .regexMatch => (regexpFilter field right).map Filter.must
  | .regexNotMatch => (regexpFilter field right).map Filter.mustNot
  | _ => .error (.unsupported kind.keyword)

theorem lookup_rangeOps (kind : TokenKind) : rangeOps.lookup kind =
    if kind = .less then some (ascii "lt") else if kind = .lessEqual then some (ascii "lte")
    else if kind = .greater then some (ascii "gt")
    else if kind = .greaterEqual then some (ascii "gte") else none := by
  cases kind <;> rfl

/-- **The filter of a comparison** is about the value of its right side, or about a pattern. -/
theorem filter_eq_ok {kind : TokenKind} {field : Bytes} {right : Expr} {filter : Filter} :
    kind.filter field right = .ok filter ↔
    (∃ value, right.value? = some value ∧ (kind = .equal ∧ .term field value = filter ∨
      kind = .notEqual ∧ .mustNot (.term field value) = filter ∨
      ∃ bound, rangeOps.lookup kind = some bound ∧ .range field bound value = filter)) ∨
    ∃ pattern, right = .string pattern ∧
      (kind = .regexMatch ∧ .must (.regexp field pattern) = filter ∨
        kind = .regexNotMatch ∧ .mustNot (.regexp field pattern) = filter) := by
  cases kind with
  | greaterEqual | lessEqual | greater | less =>
    cases h : right.value? <;>
      simp [TokenKind.filter, rangeFilter, h, lookup_rangeOps]
  | equal | notEqual =>
    cases h : right.value? <;>
      simp [TokenKind.filter, termFilter, Except.map, h, lookup_rangeOps]
  | regexMatch | regexNotMatch =>
    cases right <;>
      simp [TokenKind.filter, regexpFilter, Except.map, lookup_rangeOps]
  | _ => simp [TokenKind.filter, lookup_rangeOps]

end TokenKind

/-- The filter of a comparison between two expressions. The left side is looked at first. -/
def compareFilter (kind : TokenKind) (left right : Expr) : Except Cause Filter :=
  match left.field with
  | .ok field => kind.filter field right
  | .error cause => .error cause

/-- How the operands of a connective take part in its filter. -/
def connective? : TokenKind → Option Occur
  | .and => some .must
  | .or => some .should
  | _ => none

theorem compareFilter_eq_ok {kind : TokenKind} {left right : Expr} {filter : Filter} :
    compareFilter kind left right = .ok filter ↔
      ∃ field, left.field = .ok field ∧ kind.filter field right = .ok filter := by
  cases h : left.field <;> simp [compareFilter, h]

namespace Expr

/-- The filter of an expression at a depth. The depth is checked before anything else, and the
left operand of a connective comes before the right one. -/
def filterAt (limit : Int) : (depth : Nat) → Expr → Except Malformed Filter
  | depth, e =>
    if limit < depth then .error ⟨e.render, .tooDeep limit⟩
    else match e with
      | unary op arg =>
        match op.kind with
        | .not => (filterAt limit (depth + 1) arg).map Filter.negation
        | _ => .error ⟨e.render, .unaryNotFilter op.text⟩
      | binary op left right _ =>
        if op.kind.isComparison then
          match compareFilter op.kind left right with
          | .ok filter => .ok filter
          | .error cause => .error ⟨e.render, cause⟩
        else
          match connective? op.kind with
          | none => .error ⟨e.render, .infixNotFilter op.text⟩
          | some occur =>
            let leftDepth := if left.continuesRun op.kind then depth else depth + 1
            match filterAt limit leftDepth left with
            | .error error => .error error
            | .ok first =>
              match filterAt limit (depth + 1) right with
              | .error error => .error error
              | .ok second => .ok (.list occur [first, second])
      | _ => .error ⟨e.render, .formNotFilter e.formName⟩

/-- Only a negation is a filter among the prefix applications. -/
theorem filterAt_unary_eq_ok {limit : Int} {depth : Nat} {op : Token} {arg : Expr}
    {filter : Filter} : (unary op arg).filterAt limit depth = .ok filter ↔
      (depth : Int) ≤ limit ∧ op.kind = .not ∧
      ∃ inner, arg.filterAt limit (depth + 1) = .ok inner ∧ inner.negation = filter := by
  by_cases hdeep : limit < depth
  · simp [filterAt, hdeep, Int.not_le.2 hdeep]
  · simp only [filterAt, if_neg hdeep, Int.not_lt.1 hdeep, true_and]
    split
    · next hkind => simp [hkind, Except.map_eq_ok]
    · next hkind =>
      have hne : op.kind ≠ .not := hkind
      simp [hne]

/-- A binary expression is a filter as a comparison or as a connective. -/
theorem filterAt_binary_eq_ok {limit : Int} {depth : Nat} {op : Token} {left right : Expr}
    {paren : Bool} {filter : Filter} :
    (binary op left right paren).filterAt limit depth = .ok filter ↔
      (depth : Int) ≤ limit ∧
      ((∃ field, op.kind.isComparison = true ∧ left.field = .ok field ∧
          op.kind.filter field right = .ok filter) ∨
        op.kind.isComparison = false ∧ ∃ occur first second, connective? op.kind = some occur ∧
          left.filterAt limit (if left.continuesRun op.kind then depth else depth + 1) = .ok first ∧
          right.filterAt limit (depth + 1) = .ok second ∧
          .list occur [first, second] = filter) := by
  by_cases hdeep : limit < depth
  · simp [filterAt, hdeep, Int.not_le.2 hdeep]
  simp only [filterAt, if_neg hdeep, Int.not_lt.1 hdeep, true_and]
  cases hc : op.kind.isComparison with
  | true =>
    simp only [if_true, true_and, ← compareFilter_eq_ok, Bool.true_eq_false, false_and, or_false]
    cases hcompare : compareFilter op.kind left right <;> simp
  | false =>
    simp only [Bool.false_eq_true, if_false]
    cases hoccur : connective? op.kind with
    | none => simp
    | some occur =>
      cases left.filterAt limit (if left.continuesRun op.kind then depth else depth + 1) with
      | error malformed => simp
      | ok first => cases right.filterAt limit (depth + 1) <;> simp

end Expr

/-- The query of an expression; without an expression there is none. -/
def generate (limit : Int) (root : Option Expr) : Except Malformed Query :=
  match root with
  | none => .error ⟨[], .emptyExpression⟩
  | some e => (e.filterAt limit 0).map Query.ofFilter

end FilterQuery
