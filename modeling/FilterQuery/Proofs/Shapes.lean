import FilterQuery.Query.Generate
import Mathlib.Logic.Basic

/-!
# The shapes that are filters

Expressions of any shape can be handed to the generator, also such that no text parses to them. This
module says which of them make a query, and what the query is.

**Theorem (`generate_fragment`).** An expression makes a query just when it has a fragment and
nothing in filter position stands below the limit on depth; the query holds the fragment and nothing
else. If there is no query, the error is about the first expression at fault, from left to right.

**Fragments.** `Fragment` is the table from expressions to JSON values: one rule for comparisons
with a value, one for matches against a pattern, one for negations and one for connectives. Its
domain is the grammar of filters. `Value` is the same for what stands on the right of a comparison.

**Faults.** `Faulty` says what can be wrong with an expression on its own, apart from its operands
in filter position. `Visits` reaches the operands in the order in which they are looked at.
-/

namespace FilterQuery

open FilterQuery.Filter (wrap)

/-! ## Values -/

/-- The values on the right of a comparison. -/
inductive Value : Expr → Json → Prop
  | string (text : Bytes) : Value (.string text) (.string text)
  | number (text : Bytes) : Value (.number text) (.number text)
  | negated {op : Token} {arg : Expr} {text : Bytes} : op.kind = .minus →
      Value arg (.number text) → Value (.unary op arg) (.number (negate text))
  | yes : Value (.identity (ascii "true")) (.bool true)
  | no : Value (.identity (ascii "false")) (.bool false)
  | null : Value (.identity (ascii "null")) .null

theorem value_iff {e : Expr} {v : Json} : Value e v ↔ e.value? = some v := by
  constructor
  · intro h
    induction h with
    | negated hop _ ih => simp only [Expr.value?, hop, ih]
    | _ => rfl
  · intro h
    induction e generalizing v with
    | string text =>
      cases h
      exact .string text
    | number text =>
      cases h
      exact .number text
    | identity text =>
      by_cases htrue : text = ascii "true"
      · subst htrue
        cases h
        exact .yes
      by_cases hfalse : text = ascii "false"
      · subst hfalse
        cases h
        exact .no
      by_cases hnull : text = ascii "null"
      · subst hnull
        cases h
        exact .null
      simp [Expr.value?, truth?, isNull, htrue, hfalse, hnull] at h
    | unary op arg ih =>
      simp only [Expr.value?] at h
      split at h
      · next hop harg =>
        cases h
        exact .negated hop (ih harg)
      · cases h
    | binary => cases h

/-- The expression is a number literal behind that many minus signs. -/
inductive Signed : Nat → Bytes → Expr → Prop
  | number (text : Bytes) : Signed 0 text (.number text)
  | minus {signs : Nat} {text : Bytes} {op : Token} {arg : Expr} : op.kind = .minus →
      Signed signs text arg → Signed (signs + 1) text (.unary op arg)

/-- **Minus signs cancel in pairs.** -/
theorem Signed.value {signs : Nat} {text : Bytes} {e : Expr} (h : Signed signs text e)
    (hhead : text.head? ≠ some 0x2D) :
    Value e (.number (if signs % 2 = 0 then text else 0x2D :: text)) := by
  induction h with
  | number text => exact .number text
  | @minus signs text op arg hop _ ih =>
    have hflip : negate text = 0x2D :: text := by
      cases text with
      | nil => rfl
      | cons b rest =>
        have hb : b ≠ 0x2D := fun hb => hhead (congrArg some hb)
        simp only [negate, if_neg hb]
    have hvalue := Value.negated hop (ih hhead)
    rcases Nat.mod_two_eq_zero_or_one signs with heven | hodd
    · rw [if_pos heven, hflip] at hvalue
      rwa [if_neg (by omega)]
    · rw [if_neg (by omega)] at hvalue
      rwa [if_pos (by omega)]

/-! ## Fragments -/

/-- The fragment that compares a field with a value. -/
def valueFragment? (field : Bytes) (v : Json) : TokenKind → Option Json
  | .equal => some (wrap (ascii "term") (wrap field v))
  | .notEqual =>
    some (wrap (ascii "bool") (wrap (ascii "must_not") (wrap (ascii "term") (wrap field v))))
  | .less => some (wrap (ascii "range") (wrap field (wrap (ascii "lt") v)))
  | .lessEqual => some (wrap (ascii "range") (wrap field (wrap (ascii "lte") v)))
  | .greater => some (wrap (ascii "range") (wrap field (wrap (ascii "gt") v)))
  | .greaterEqual => some (wrap (ascii "range") (wrap field (wrap (ascii "gte") v)))
  | _ => none

/-- The fragment that matches a field against a pattern. -/
def patternFragment? (field pattern : Bytes) : TokenKind → Option Json
  | .regexMatch => some (wrap (ascii "bool") (wrap (ascii "must")
      (wrap (ascii "regexp") (wrap field (.string pattern)))))
  | .regexNotMatch => some (wrap (ascii "bool") (wrap (ascii "must_not")
      (wrap (ascii "regexp") (wrap field (.string pattern)))))
  | _ => none

/-- The fragment that joins two others. -/
def joinedFragment? (first second : Json) : TokenKind → Option Json
  | .and => some (wrap (ascii "bool") (wrap (ascii "must") (.array [first, second])))
  | .or => some (wrap (ascii "bool") (wrap (ascii "should") (.array [first, second])))
  | _ => none

/-- The table from expressions to JSON values. -/
inductive Fragment : Expr → Json → Prop
  | compared {op : Token} {field : Bytes} {right : Expr} {v json : Json} {paren : Bool} :
      isValidIdentity field = true → Value right v → valueFragment? field v op.kind = some json →
      Fragment (.binary op (.identity field) right paren) json
  | matched {op : Token} {field pattern : Bytes} {json : Json} {paren : Bool} :
      isValidIdentity field = true → patternFragment? field pattern op.kind = some json →
      Fragment (.binary op (.identity field) (.string pattern) paren) json
  | negated {op : Token} {arg : Expr} {json : Json} : op.kind = .not → Fragment arg json →
      Fragment (.unary op arg) (wrap (ascii "bool") (wrap (ascii "must_not") (.array [json])))
  | joined {op : Token} {left right : Expr} {first second json : Json} {paren : Bool} :
      Fragment left first → Fragment right second →
      joinedFragment? first second op.kind = some json →
      Fragment (.binary op left right paren) json

/-- The expressions in filter position in an expression at a depth, each with its own depth. -/
inductive Placed : Nat → Expr → Nat → Expr → Prop
  | here (depth : Nat) (e : Expr) : Placed depth e depth e
  | negated {depth n : Nat} {op : Token} {arg e : Expr} : op.kind = .not →
      Placed (depth + 1) arg n e → Placed depth (.unary op arg) n e
  | left {depth n : Nat} {op : Token} {left right e : Expr} {paren : Bool} :
      op.kind = .and ∨ op.kind = .or →
      Placed (if left.continuesRun op.kind then depth else depth + 1) left n e →
      Placed depth (.binary op left right paren) n e
  | right {depth n : Nat} {op : Token} {left right e : Expr} {paren : Bool} :
      op.kind = .and ∨ op.kind = .or → Placed (depth + 1) right n e →
      Placed depth (.binary op left right paren) n e

section Placed

variable {depth : Nat} {op : Token} {P : Nat → Prop}

theorem forall_placed_unary {arg : Expr} (hop : op.kind = .not) :
    (∀ n v, Placed depth (.unary op arg) n v → P n) ↔
      P depth ∧ ∀ n v, Placed (depth + 1) arg n v → P n := by
  constructor
  · intro h
    exact ⟨h depth _ (.here _ _), fun n v hv => h n v (.negated hop hv)⟩
  · rintro ⟨hhere, harg⟩ n v hv
    cases hv with
    | here => exact hhere
    | negated _ hv => exact harg n v hv

theorem forall_placed_comparison {left right : Expr} {paren : Bool}
    (hop : op.kind.isComparison = true) :
    (∀ n v, Placed depth (.binary op left right paren) n v → P n) ↔ P depth := by
  constructor
  · intro h
    exact h depth _ (.here _ _)
  · intro hhere n v hv
    cases hv with
    | here => exact hhere
    | left hkind | right hkind =>
      rcases hkind with hkind | hkind <;> simp [hkind, TokenKind.isComparison] at hop

theorem forall_placed_connective {left right : Expr} {paren : Bool}
    (hop : op.kind = .and ∨ op.kind = .or) :
    (∀ n v, Placed depth (.binary op left right paren) n v → P n) ↔
      P depth ∧
      (∀ n v, Placed (if left.continuesRun op.kind then depth else depth + 1) left n v → P n) ∧
      ∀ n v, Placed (depth + 1) right n v → P n := by
  constructor
  · intro h
    exact ⟨h depth _ (.here _ _), fun n v hv => h n v (.left hop hv),
      fun n v hv => h n v (.right hop hv)⟩
  · rintro ⟨hhere, hleft, hright⟩ n v hv
    cases hv with
    | here => exact hhere
    | left _ hv => exact hleft n v hv
    | right _ hv => exact hright n v hv

end Placed

/-! ## Filters are fragments -/

theorem isComparison_of_connective {kind : TokenKind} {occur : Occur}
    (h : connective? kind = some occur) : kind.isComparison = false := by
  cases kind with
  | and | or => rfl
  | _ => cases h

theorem connective?_eq_some {kind : TokenKind} {occur : Occur} :
    connective? kind = some occur ↔ kind = .and ∧ occur = .must ∨ kind = .or ∧ occur = .should := by
  cases kind <;> cases occur <;> simp [connective?]

/-- The filters of comparisons are their fragments. -/
theorem TokenKind.exists_filter_iff {kind : TokenKind} {field : Bytes} {right : Expr}
    {json : Json} :
    (∃ filter, kind.filter field right = .ok filter ∧ filter.toJson = json) ↔
      (∃ v, Value right v ∧ valueFragment? field v kind = some json) ∨
      ∃ pattern, right = .string pattern ∧ patternFragment? field pattern kind = some json := by
  simp only [filter_eq_ok, value_iff]
  cases kind <;>
    simp [lookup_rangeOps, valueFragment?, patternFragment?, Filter.must, Filter.mustNot,
      Filter.toJson, Filter.isMissing, Filter.wrapBool, Occur.key]

theorem isComparison_of_value {field : Bytes} {v json : Json} {kind : TokenKind}
    (h : valueFragment? field v kind = some json) : kind.isComparison = true := by
  cases kind with
  | equal | notEqual | less | lessEqual | greater | greaterEqual => rfl
  | _ => cases h

theorem isComparison_of_pattern {field pattern : Bytes} {json : Json} {kind : TokenKind}
    (h : patternFragment? field pattern kind = some json) : kind.isComparison = true := by
  cases kind with
  | regexMatch | regexNotMatch => rfl
  | _ => cases h

/-- The filters of connectives are their fragments. -/
theorem joinedFragment?_toJson {kind : TokenKind} {occur : Occur}
    (h : connective? kind = some occur) (first second : Filter) :
    joinedFragment? first.toJson second.toJson kind =
      some (Filter.list occur [first, second]).toJson := by
  rcases connective?_eq_some.1 h with ⟨rfl, rfl⟩ | ⟨rfl, rfl⟩ <;> rfl

theorem exists_connective {first second json : Json} {kind : TokenKind}
    (h : joinedFragment? first second kind = some json) :
    ∃ occur, connective? kind = some occur := by
  cases kind with
  | and | or => exact ⟨_, rfl⟩
  | _ => cases h

/-- **Filters are fragments.** -/
theorem Expr.exists_filterAt_iff {limit : Int} {depth : Nat} {e : Expr} {json : Json} :
    (∃ filter, e.filterAt limit depth = .ok filter ∧ filter.toJson = json) ↔
      Fragment e json ∧ ∀ n v, Placed depth e n v → (n : Int) ≤ limit := by
  induction e generalizing depth json with
  | identity | string | number =>
    constructor
    · rintro ⟨filter, hfilter, -⟩
      simp only [filterAt] at hfilter
      split at hfilter <;> cases hfilter
    · rintro ⟨⟨⟩, -⟩
  | unary op arg ih =>
    simp only [filterAt_unary_eq_ok]
    constructor
    · rintro ⟨filter, ⟨hle, hop, inner, hinner, rfl⟩, rfl⟩
      obtain ⟨hfragment, hplaced⟩ := ih.1 ⟨inner, hinner, rfl⟩
      exact ⟨.negated hop hfragment, (forall_placed_unary hop).2 ⟨hle, hplaced⟩⟩
    · rintro ⟨hfragment, hplaced⟩
      cases hfragment with
      | negated hop hfragment =>
        obtain ⟨hle, hplaced⟩ := (forall_placed_unary hop).1 hplaced
        obtain ⟨inner, hinner, rfl⟩ := ih.2 ⟨hfragment, hplaced⟩
        exact ⟨_, ⟨hle, hop, inner, hinner, rfl⟩, rfl⟩
  | binary op left right paren ihl ihr =>
    simp only [filterAt_binary_eq_ok]
    constructor
    · rintro ⟨filter, ⟨hle, hcompared | hjoined⟩, rfl⟩
      · obtain ⟨field, hc, hfield, hmade⟩ := hcompared
        obtain ⟨rfl, hvalid⟩ := field_eq_ok.1 hfield
        refine ⟨?_, (forall_placed_comparison hc).2 hle⟩
        rcases TokenKind.exists_filter_iff.1 ⟨filter, hmade, rfl⟩ with
          ⟨v, hv, hjson⟩ | ⟨pattern, rfl, hjson⟩
        · exact .compared hvalid hv hjson
        · exact .matched hvalid hjson
      · obtain ⟨-, occur, first, second, hoccur, hfirst, hsecond, rfl⟩ := hjoined
        obtain ⟨hleft, hplacedLeft⟩ := ihl.1 ⟨first, hfirst, rfl⟩
        obtain ⟨hright, hplacedRight⟩ := ihr.1 ⟨second, hsecond, rfl⟩
        have hkind := (connective?_eq_some.1 hoccur).imp And.left And.left
        exact ⟨.joined hleft hright (joinedFragment?_toJson hoccur first second),
          (forall_placed_connective hkind).2 ⟨hle, hplacedLeft, hplacedRight⟩⟩
    · rintro ⟨hfragment, hplaced⟩
      cases hfragment with
      | @compared _ field _ v _ _ hvalid hv hjson =>
        have hc := isComparison_of_value hjson
        obtain ⟨filter, hmade, rfl⟩ := TokenKind.exists_filter_iff.2 (.inl ⟨v, hv, hjson⟩)
        have hle := (forall_placed_comparison hc).1 hplaced
        exact ⟨filter, ⟨hle, .inl ⟨field, hc, field_eq_ok.2 ⟨rfl, hvalid⟩, hmade⟩⟩, rfl⟩
      | @matched _ field pattern _ _ hvalid hjson =>
        have hc := isComparison_of_pattern hjson
        obtain ⟨filter, hmade, rfl⟩ := TokenKind.exists_filter_iff.2 (.inr ⟨pattern, rfl, hjson⟩)
        have hle := (forall_placed_comparison hc).1 hplaced
        exact ⟨filter, ⟨hle, .inl ⟨field, hc, field_eq_ok.2 ⟨rfl, hvalid⟩, hmade⟩⟩, rfl⟩
      | @joined _ _ _ first second _ _ hleft hright hjson =>
        obtain ⟨occur, hoccur⟩ := exists_connective hjson
        have hkind := (connective?_eq_some.1 hoccur).imp And.left And.left
        obtain ⟨hle, hplacedLeft, hplacedRight⟩ := (forall_placed_connective hkind).1 hplaced
        obtain ⟨first, hfirst, rfl⟩ := ihl.2 ⟨hleft, hplacedLeft⟩
        obtain ⟨second, hsecond, rfl⟩ := ihr.2 ⟨hright, hplacedRight⟩
        rw [joinedFragment?_toJson hoccur] at hjson
        exact ⟨_, ⟨hle, .inr ⟨isComparison_of_connective hoccur, occur, first, second, hoccur,
          hfirst, hsecond, rfl⟩⟩, Option.some.inj hjson⟩

/-! ## Faults -/

/-- Making the filter of an expression at a depth comes to make the filter of another one at its own
depth. The right operand of a connective is only reached if the left one has a filter. -/
inductive Visits (limit : Int) : Nat → Expr → Nat → Expr → Prop
  | here (depth : Nat) (e : Expr) : Visits limit depth e depth e
  | negated {depth n : Nat} {op : Token} {arg e : Expr} : (depth : Int) ≤ limit → op.kind = .not →
      Visits limit (depth + 1) arg n e → Visits limit depth (.unary op arg) n e
  | left {depth n : Nat} {op : Token} {occur : Occur} {left right e : Expr} {paren : Bool} :
      (depth : Int) ≤ limit → connective? op.kind = some occur →
      Visits limit (if left.continuesRun op.kind then depth else depth + 1) left n e →
      Visits limit depth (.binary op left right paren) n e
  | right {depth n : Nat} {op : Token} {occur : Occur} {left right e : Expr} {paren : Bool}
      {first : Filter} : (depth : Int) ≤ limit → connective? op.kind = some occur →
      left.filterAt limit (if left.continuesRun op.kind then depth else depth + 1) = .ok first →
      Visits limit (depth + 1) right n e → Visits limit depth (.binary op left right paren) n e

/-- The right side fits the comparison: a pattern is a string literal, and all else has a value. -/
def Suits (right : Expr) : TokenKind → Prop
  | .regexMatch | .regexNotMatch => ∃ pattern, right = .string pattern
  | _ => ∃ v, Value right v

/-- The complaint about the right side of a comparison. -/
def rightComplaint? (right : Expr) : TokenKind → Option Cause
  | .equal => some (.badOperand (ascii "==") right.formName)
  | .notEqual => some (.badOperand (ascii "!=") right.formName)
  | .less | .lessEqual | .greater | .greaterEqual => some (.badBound right.formName right.render)
  | .regexMatch | .regexNotMatch => some (.badPattern right.formName)
  | _ => none

/-- What is wrong with a comparison. The left side is looked at first. -/
inductive BadComparison (kind : TokenKind) (right : Expr) : Expr → Cause → Prop
  | notField {left : Expr} : (∀ text, left ≠ .identity text) →
      BadComparison kind right left (.notField left.formName left.render)
  | fieldName {text : Bytes} : isValidIdentity text = false →
      BadComparison kind right (.identity text) (.badFieldName text)
  | right {text : Bytes} {cause : Cause} : isValidIdentity text = true → ¬ Suits right kind →
      rightComplaint? right kind = some cause → BadComparison kind right (.identity text) cause

/-- What is wrong with an expression at a depth, apart from its operands in filter position. The
depth is looked at first. -/
inductive Faulty (limit : Int) (depth : Nat) : Expr → Cause → Prop
  | tooDeep (e : Expr) : limit < depth → Faulty limit depth e (.tooDeep limit)
  | literal {e : Expr} : (depth : Int) ≤ limit → (∀ op arg, e ≠ .unary op arg) →
      (∀ op left right paren, e ≠ .binary op left right paren) →
      Faulty limit depth e (.formNotFilter e.formName)
  | unary {op : Token} (arg : Expr) : (depth : Int) ≤ limit → op.kind ≠ .not →
      Faulty limit depth (.unary op arg) (.unaryNotFilter op.text)
  | binary {op : Token} (left right : Expr) (paren : Bool) : (depth : Int) ≤ limit →
      op.kind.isComparison = false → connective? op.kind = none →
      Faulty limit depth (.binary op left right paren) (.infixNotFilter op.text)
  | comparison {op : Token} {left right : Expr} {paren : Bool} {cause : Cause} :
      (depth : Int) ≤ limit → op.kind.isComparison = true →
      BadComparison op.kind right left cause →
      Faulty limit depth (.binary op left right paren) cause

theorem Expr.field_eq_error {e : Expr} {cause : Cause} : e.field = .error cause ↔
    (∃ text, e = .identity text ∧ isValidIdentity text = false ∧ cause = .badFieldName text) ∨
      (∀ text, e ≠ .identity text) ∧ cause = .notField e.formName e.render := by
  cases e with
  | identity text =>
    cases hvalid : isValidIdentity text with
    | true => simp [field, hvalid]
    | false => simp [field, hvalid, @eq_comm _ cause]
  | _ => simp [field, @eq_comm _ cause]

theorem exists_value_iff {e : Expr} : (∃ v, Value e v) ↔ e.value? ≠ none := by
  simp only [value_iff, Option.ne_none_iff_exists']

theorem TokenKind.filter_eq_error {kind : TokenKind} (hc : kind.isComparison = true) {field : Bytes}
    {right : Expr} {cause : Cause} :
    kind.filter field right = .error cause ↔
      ¬ Suits right kind ∧ rightComplaint? right kind = some cause := by
  cases kind <;> cases hc
  case less | lessEqual | greater | greaterEqual =>
    cases hvalue : right.value? <;>
      simp [TokenKind.filter, rangeFilter, Suits, exists_value_iff, rightComplaint?, hvalue]
  case equal | notEqual =>
    cases hvalue : right.value? <;>
      simp [TokenKind.filter, termFilter, Except.map, Suits, exists_value_iff, rightComplaint?,
        hvalue, keyword]
  case regexMatch | regexNotMatch =>
    cases right <;> simp [TokenKind.filter, regexpFilter, Except.map, Suits, rightComplaint?]

theorem compareFilter_eq_error {kind : TokenKind} (hc : kind.isComparison = true)
    {left right : Expr} {cause : Cause} :
    compareFilter kind left right = .error cause ↔ BadComparison kind right left cause := by
  cases hfield : left.field with
  | ok field =>
    obtain ⟨rfl, hvalid⟩ := Expr.field_eq_ok.1 hfield
    simp only [compareFilter, hfield, TokenKind.filter_eq_error hc]
    constructor
    · rintro ⟨hsuits, hcause⟩
      exact .right hvalid hsuits hcause
    · intro h
      cases h with
      | notField hne => exact absurd rfl (hne field)
      | fieldName hinvalid =>
        rw [hvalid] at hinvalid
        cases hinvalid
      | right _ hsuits hcause => exact ⟨hsuits, hcause⟩
  | error cause' =>
    simp only [compareFilter, hfield, Except.error.injEq]
    rcases Expr.field_eq_error.1 hfield with ⟨text, rfl, hinvalid, rfl⟩ | ⟨hne, rfl⟩
    · constructor
      · rintro rfl
        exact .fieldName hinvalid
      · intro h
        cases h with
        | notField hne => exact absurd rfl (hne text)
        | fieldName _ => rfl
        | right hvalid _ _ =>
          rw [hvalid] at hinvalid
          cases hinvalid
    · constructor
      · rintro rfl
        exact .notField hne
      · intro h
        cases h with
        | notField _ => rfl
        | fieldName _ => exact absurd rfl (hne _)
        | right _ _ _ => exact absurd rfl (hne _)

/-- What is wrong with an expression on its own is the error. -/
theorem Faulty.filterAt_eq_error {limit : Int} {depth : Nat} {e : Expr} {cause : Cause}
    (h : Faulty limit depth e cause) : e.filterAt limit depth = .error ⟨e.render, cause⟩ := by
  cases h with
  | tooDeep e hlt => cases e <;> simp only [Expr.filterAt, if_pos hlt]
  | literal hle hunary hbinary =>
    cases e with
    | unary op arg => exact absurd rfl (hunary op arg)
    | binary op left right paren => exact absurd rfl (hbinary op left right paren)
    | _ => simp only [Expr.filterAt, if_neg (Int.not_lt.2 hle)]
  | @unary op arg hle hop =>
    simp only [Expr.filterAt, if_neg (Int.not_lt.2 hle)]
  | binary left right paren hle hc hoccur =>
    rw [Expr.filterAt, if_neg (Int.not_lt.2 hle)]
    simp only [hc, hoccur, Bool.false_eq_true, if_false]
  | comparison hle hc hbad =>
    rw [Expr.filterAt, if_neg (Int.not_lt.2 hle)]
    simp only [hc, (compareFilter_eq_error hc).2 hbad, if_true]

/-- What goes wrong with an expression that is visited goes wrong as a whole. -/
theorem Visits.filterAt_eq_error {limit : Int} {depth n : Nat} {e v : Expr} {malformed : Malformed}
    (h : Visits limit depth e n v) (hv : v.filterAt limit n = .error malformed) :
    e.filterAt limit depth = .error malformed := by
  induction h with
  | here depth e => exact hv
  | negated hle hnot _ ih =>
    rw [Expr.filterAt, if_neg (Int.not_lt.2 hle)]
    simp only [hnot, ih hv, Except.map]
  | left hle hoccur _ ih =>
    rw [Expr.filterAt, if_neg (Int.not_lt.2 hle)]
    simp only [isComparison_of_connective hoccur, Bool.false_eq_true, if_false, hoccur, ih hv]
  | right hle hoccur hleft _ ih =>
    rw [Expr.filterAt, if_neg (Int.not_lt.2 hle)]
    simp only [isComparison_of_connective hoccur, Bool.false_eq_true, if_false, hoccur, hleft,
      ih hv]

theorem Faulty.exists_visits {limit : Int} {depth : Nat} {e : Expr} {cause : Cause}
    {malformed : Malformed} (h : Faulty limit depth e cause)
    (herror : e.filterAt limit depth = .error malformed) :
    ∃ n v cause, Visits limit depth e n v ∧ Faulty limit n v cause ∧
      malformed = ⟨v.render, cause⟩ := by
  rw [h.filterAt_eq_error] at herror
  exact ⟨depth, e, cause, .here _ _, h, (Except.error.inj herror).symm⟩

/-- An error has a place where something is wrong. -/
theorem Expr.exists_faulty {limit : Int} {depth : Nat} {e : Expr} {malformed : Malformed}
    (h : e.filterAt limit depth = .error malformed) :
    ∃ n v cause, Visits limit depth e n v ∧ Faulty limit n v cause ∧
      malformed = ⟨v.render, cause⟩ := by
  induction e generalizing depth with
  | identity | string | number =>
    by_cases hdeep : limit < depth
    · exact (Faulty.tooDeep _ hdeep).exists_visits h
    · exact (Faulty.literal (Int.not_lt.1 hdeep) (by simp) (by simp)).exists_visits h
  | unary op arg ih =>
    by_cases hdeep : limit < depth
    · exact (Faulty.tooDeep _ hdeep).exists_visits h
    have hle := Int.not_lt.1 hdeep
    by_cases hnot : op.kind = .not
    · simp only [filterAt, if_neg hdeep, hnot] at h
      cases harg : arg.filterAt limit (depth + 1) with
      | ok filter =>
        rw [harg] at h
        cases h
      | error found =>
        rw [harg] at h
        obtain rfl := Except.error.inj h
        obtain ⟨n, v, cause, hv, hfaulty⟩ := ih harg
        exact ⟨n, v, cause, .negated hle hnot hv, hfaulty⟩
    · exact (Faulty.unary arg hle hnot).exists_visits h
  | binary op left right paren ihl ihr =>
    by_cases hdeep : limit < depth
    · exact (Faulty.tooDeep _ hdeep).exists_visits h
    have hle := Int.not_lt.1 hdeep
    cases hc : op.kind.isComparison with
    | true =>
      cases hcompare : compareFilter op.kind left right with
      | error cause =>
        exact (Faulty.comparison hle hc ((compareFilter_eq_error hc).1 hcompare)).exists_visits h
      | ok filter =>
        simp only [filterAt, if_neg hdeep, hc, hcompare, if_true] at h
        cases h
    | false =>
      cases hoccur : connective? op.kind with
      | none => exact (Faulty.binary left right paren hle hc hoccur).exists_visits h
      | some occur =>
        simp only [filterAt, if_neg hdeep, hc, Bool.false_eq_true, if_false, hoccur] at h
        split at h
        · next found hleft =>
          obtain rfl := Except.error.inj h
          obtain ⟨n, v, cause, hv, hfaulty⟩ := ihl hleft
          exact ⟨n, v, cause, .left hle hoccur hv, hfaulty⟩
        next first hleft =>
        split at h
        · next found hright =>
          obtain rfl := Except.error.inj h
          obtain ⟨n, v, cause, hv, hfaulty⟩ := ihr hright
          exact ⟨n, v, cause, .right hle hoccur hleft hv, hfaulty⟩
        · cases h

/-- **The error is about the first expression at fault.** -/
theorem Expr.filterAt_eq_error {limit : Int} {depth : Nat} {e : Expr} {malformed : Malformed} :
    e.filterAt limit depth = .error malformed ↔ ∃ n v cause, Visits limit depth e n v ∧
      Faulty limit n v cause ∧ malformed = ⟨v.render, cause⟩ := by
  constructor
  · exact exists_faulty
  · rintro ⟨n, v, cause, hv, hfaulty, rfl⟩
    exact hv.filterAt_eq_error hfaulty.filterAt_eq_error

theorem generate_eq_ok {limit : Int} {e : Expr} {query : Query} :
    generate limit (some e) = .ok query ↔
      ∃ filter, e.filterAt limit 0 = .ok filter ∧ Query.ofFilter filter = query :=
  Except.map_eq_ok

theorem generate_eq_error {limit : Int} {e : Expr} {malformed : Malformed} :
    generate limit (some e) = .error malformed ↔ e.filterAt limit 0 = .error malformed := by
  cases h : e.filterAt limit 0 <;> simp [generate, h, Except.map]

/-- **Filters are what the table says.** An expression makes a query just when it has a fragment and
all that is in filter position in it is within the limit; the one filter of the query is the
fragment. A number literal behind minus signs keeps its text if they are even in number, and has one
sign otherwise. Without a query, the error is about the first expression that is at fault. -/
theorem generate_fragment (limit : Int) :
    (∀ e, (∃ query, generate limit (some e) = .ok query) ↔
      (∃ json, Fragment e json) ∧ ∀ n v, Placed 0 e n v → (n : Int) ≤ limit) ∧
    (∀ e query, generate limit (some e) = .ok query → ∃ filter, query.filters = some [filter] ∧
      ∀ json, Fragment e json ↔ json = filter.toJson) ∧
    (∀ signs text e, Signed signs text e → text.head? ≠ some 0x2D → ∀ v,
      Value e v ↔ v = .number (if signs % 2 = 0 then text else 0x2D :: text)) ∧
    (∀ e doc cause, generate limit (some e) = .error ⟨doc, cause⟩ ↔
      ∃ n v, Visits limit 0 e n v ∧ Faulty limit n v cause ∧ doc = v.render) ∧
    generate limit none = .error ⟨[], .emptyExpression⟩ := by
  refine ⟨fun e => ?_, fun e query hquery => ?_, fun signs text e hsigned hhead v => ?_,
    fun e doc cause => ?_, rfl⟩
  · constructor
    · rintro ⟨query, hquery⟩
      obtain ⟨filter, hfilter, -⟩ := generate_eq_ok.1 hquery
      obtain ⟨hfragment, hplaced⟩ := Expr.exists_filterAt_iff.1 ⟨filter, hfilter, rfl⟩
      exact ⟨⟨_, hfragment⟩, hplaced⟩
    · rintro ⟨⟨json, hfragment⟩, hplaced⟩
      obtain ⟨filter, hfilter, -⟩ := Expr.exists_filterAt_iff.2 ⟨hfragment, hplaced⟩
      exact ⟨_, generate_eq_ok.2 ⟨filter, hfilter, rfl⟩⟩
  · obtain ⟨filter, hfilter, rfl⟩ := generate_eq_ok.1 hquery
    obtain ⟨hfragment, hplaced⟩ := Expr.exists_filterAt_iff.1 ⟨filter, hfilter, rfl⟩
    refine ⟨filter, rfl, fun json => ⟨fun hjson => ?_, fun hjson => hjson ▸ hfragment⟩⟩
    obtain ⟨filter', hfilter', rfl⟩ := Expr.exists_filterAt_iff.2 ⟨hjson, hplaced⟩
    rw [Except.ok.inj (hfilter.symm.trans hfilter')]
  · have hvalue := hsigned.value hhead
    refine ⟨fun hv => ?_, fun hv => hv ▸ hvalue⟩
    exact Option.some.inj ((value_iff.1 hv).symm.trans (value_iff.1 hvalue))
  · rw [generate_eq_error, Expr.filterAt_eq_error]
    constructor
    · rintro ⟨n, v, cause', hv, hfaulty, heq⟩
      obtain ⟨rfl, rfl⟩ := Malformed.mk.inj heq
      exact ⟨n, v, hv, hfaulty, rfl⟩
    · rintro ⟨n, v, hv, hfaulty, rfl⟩
      exact ⟨n, v, cause, hv, hfaulty, rfl⟩

end FilterQuery
