import FilterQuery.Proofs.Descent
import FilterQuery.Proofs.Shapes

/-!
# Expressions that come from texts

The generator accepts expressions of any make and complains about operators, field names and
patterns that it cannot use. Part of this caution is never needed for an expression that was read
from a text.

**Theorem (`parsed_expected`).** The operators of a parsed expression are those of the grammar, its
identities, numbers and strings are spelled like tokens, and the pattern of a regular expression
operator is a string literal. So every expression that the generator visits is one of the cases it
is made for (`Expected`): an operator that sets a bound is in the table of bounds, and no part of
the tree is missing. None of the complaints about unknown operators, field names, patterns and
missing expressions is ever made.

**Readable expressions.** The lexer fixes the texts of the literals and the parser fixes what stands
where. `Readable` states both at once for every part of an expression. It holds of the tree of every
derivation (`Derives.readable`) and goes over to whatever the generator visits (`Visits.readable`).
-/

namespace FilterQuery

/-! ## Readable expressions -/

/-- The operators between two operands. -/
def binaryOperators : List TokenKind :=
  [.and, .or, .equal, .notEqual, .less, .lessEqual, .greater, .greaterEqual, .regexMatch,
    .regexNotMatch]

/-- The expressions that a text can spell. -/
inductive Readable : Expr → Prop
  | identity {text : Bytes} : isValidIdentity text = true → text ∉ reservedWords →
      Readable (.identity text)
  | string {text : Bytes} : 0x22 ∉ text → Readable (.string text)
  | number {text : Bytes} : Numeral text → Readable (.number text)
  | unary {op : Token} {arg : Expr} : op.kind ∈ [TokenKind.not, .minus] → Readable arg →
      Readable (.unary op arg)
  | binary {op : Token} {left right : Expr} {paren : Bool} : op.kind ∈ binaryOperators →
      (op.kind ∈ patternOperators → ∃ text, right = .string text) → Readable left →
      Readable right → Readable (.binary op left right paren)

theorem readable_literal {t : Token} (hkind : t.kind ∈ [TokenKind.number, .string, .identity])
    (hspelled : Spelled t.kind t.text) : Readable (Phrase.literalTree t) := by
  obtain ⟨kind, text, pos, line, column⟩ := t
  simp only [List.mem_cons, List.not_mem_nil, or_false] at hkind
  rcases hkind with rfl | rfl | rfl
  · exact .number hspelled
  · exact .string hspelled
  · exact .identity hspelled.1 hspelled.2.not_mem

theorem mem_binaryOperators {s : Stratum} {kind : TokenKind} (h : kind ∈ s.operators) :
    kind ∈ binaryOperators := by
  cases s <;> revert kind <;> decide

theorem mem_binaryOperators_of_pattern {kind : TokenKind} (h : kind ∈ patternOperators) :
    kind ∈ binaryOperators := by
  revert kind
  decide

/-- **The tree of a derivation is readable**, whether it stands in parentheses or not. -/
theorem Derives.readable {s : Stratum} {q : Phrase} (h : Derives s q) (hq : q.IsSpelled)
    (paren : Bool) : Readable (q.treeIn paren) := by
  induction h generalizing paren with
  | literal hkind => exact readable_literal hkind (Phrase.isSpelled_literal.1 hq)
  | group _ _ _ ih => exact ih (Phrase.isSpelled_group.1 hq).2.1 true
  | applied hop _ ih => exact .unary hop (ih (Phrase.isSpelled_applied.1 hq).2 false)
  | @matched p op pattern _ hop hpattern ih =>
    obtain ⟨hleft, -, htext⟩ := Phrase.isSpelled_matched.1 hq
    rw [hpattern] at htext
    exact .binary (mem_binaryOperators_of_pattern hop) (fun _ => ⟨pattern.text, rfl⟩)
      (ih hleft false) (.string htext)
  | joined _ hop _ ihp ihq =>
    obtain ⟨hleft, -, hright⟩ := Phrase.isSpelled_joined.1 hq
    exact .binary (mem_binaryOperators hop) (fun hpat => absurd hpat (not_pattern_of_mem hop))
      (ihp hleft false) (ihq hright false)
  | tighter _ ih => exact ih hq paren

/-- **What a text parses to is readable.** -/
theorem readable_of_parse {limit : Int} {input : Bytes} {e : Expr}
    (h : parse limit input = .ok e) : Readable e := by
  obtain ⟨q, p, hlex, hq, -, rfl⟩ := exists_phrase h
  exact hq.readable hlex.spelled false

/-- What the generator visits in a readable expression is readable. -/
theorem Visits.readable {limit : Int} {depth n : Nat} {e v : Expr} (h : Visits limit depth e n v)
    (he : Readable e) : Readable v := by
  induction h with
  | here => exact he
  | negated _ _ _ ih =>
    cases he with
    | unary _ harg => exact ih harg
  | left _ _ _ ih =>
    cases he with
    | binary _ _ hleft _ => exact ih hleft
  | right _ _ _ _ ih =>
    cases he with
    | binary _ _ _ hright => exact ih hright

/-! ## The cases that the generator is made for -/

/-- The expression has a good name, if it is a name at all. -/
def WellNamed (e : Expr) : Prop :=
  ∀ text, e = .identity text → isValidIdentity text = true

/-- The expressions in filter position that the generator is made for: it may still refuse them as
literals, for a sign, for their depth or for the form of an operand. -/
inductive Expected (limit : Int) (depth : Nat) : Expr → Prop
  | literal {e : Expr} : (∀ op arg, e ≠ .unary op arg) →
      (∀ op left right paren, e ≠ .binary op left right paren) → Expected limit depth e
  | unary {op : Token} {arg : Expr} : op.kind = .not ∨ op.kind = .minus →
      Expected limit depth (.unary op arg)
  | connective {op : Token} {left right : Expr} {paren : Bool} :
      op.kind = .and ∨ op.kind = .or → Expected limit depth (.binary op left right paren)
  | term {op : Token} {left right : Expr} {paren : Bool} :
      op.kind = .equal ∨ op.kind = .notEqual → WellNamed left →
      Expected limit depth (.binary op left right paren)
  | range {op : Token} {left right : Expr} {paren : Bool} {bound : Bytes} :
      rangeOps.lookup op.kind = some bound → WellNamed left →
      (∀ filter, (Expr.binary op left right paren).filterAt limit depth = .ok filter →
        ∃ field value, filter = .range field bound value) →
      Expected limit depth (.binary op left right paren)
  | regexp {op : Token} {left : Expr} {pattern : Bytes} {paren : Bool} :
      op.kind = .regexMatch ∨ op.kind = .regexNotMatch → WellNamed left →
      Expected limit depth (.binary op left (.string pattern) paren)

theorem Readable.wellNamed {e : Expr} (h : Readable e) : WellNamed e := by
  rintro text rfl
  cases h with
  | identity hvalid _ => exact hvalid

/-- A comparison by order makes a range with the bound of its operator. -/
theorem Expr.range_of_filterAt {limit : Int} {depth : Nat} {op : Token} {left right : Expr}
    {paren : Bool} {bound : Bytes} (hbound : rangeOps.lookup op.kind = some bound) {filter : Filter}
    (h : (Expr.binary op left right paren).filterAt limit depth = .ok filter) :
    ∃ field value, filter = .range field bound value := by
  have hne : ∀ kind : TokenKind, rangeOps.lookup kind = none → op.kind ≠ kind := by
    rintro kind hnone rfl
    rw [hbound] at hnone
    cases hnone
  obtain ⟨-, ⟨field, -, -, hfilter⟩ | ⟨-, occur, first, second, hoccur, -⟩⟩ :=
    filterAt_binary_eq_ok.1 h
  · rcases TokenKind.filter_eq_ok.1 hfilter with ⟨value, -, hmade⟩ | ⟨pattern, -, hmade⟩
    · rcases hmade with ⟨hkind, -⟩ | ⟨hkind, -⟩ | ⟨bound', hbound', rfl⟩
      · exact absurd hkind (hne _ rfl)
      · exact absurd hkind (hne _ rfl)
      · rw [hbound] at hbound'
        cases hbound'
        exact ⟨field, value, rfl⟩
    · rcases hmade with ⟨hkind, -⟩ | ⟨hkind, -⟩ <;> exact absurd hkind (hne _ rfl)
  · rcases connective?_eq_some.1 hoccur with ⟨hkind, -⟩ | ⟨hkind, -⟩ <;>
      exact absurd hkind (hne _ rfl)

/-- **A readable expression is one of the expected cases.** -/
theorem Readable.expected {e : Expr} (h : Readable e) (limit : Int) (depth : Nat) :
    Expected limit depth e := by
  cases h with
  | identity | string | number => exact .literal (by simp) (by simp)
  | unary hop _ => exact .unary (by simpa using hop)
  | @binary op left right paren hop hpattern hleft _ =>
    have hname := hleft.wellNamed
    simp only [binaryOperators, List.mem_cons, List.not_mem_nil, or_false] at hop
    rcases hop with hop | hop | hop | hop | hop | hop | hop | hop | hop | hop
    · exact .connective (.inl hop)
    · exact .connective (.inr hop)
    · exact .term (.inl hop) hname
    · exact .term (.inr hop) hname
    iterate 4
      exact .range (by rw [hop]; rfl) hname
        fun filter => Expr.range_of_filterAt (by rw [hop]; rfl)
    · obtain ⟨pattern, rfl⟩ := hpattern (by rw [hop]; decide)
      exact .regexp (.inl hop) hname
    · obtain ⟨pattern, rfl⟩ := hpattern (by rw [hop]; decide)
      exact .regexp (.inr hop) hname

/-! ## Complaints -/

/-- The complaints that no parsed expression gives rise to. -/
inductive Cause.Unused : Cause → Prop
  | emptyExpression : Unused .emptyExpression
  | infixNotFilter (op : Bytes) : Unused (.infixNotFilter op)
  | badFieldName (text : Bytes) : Unused (.badFieldName text)
  | badPattern (form : Bytes) : Unused (.badPattern form)
  | unsupported (op : Bytes) : Unused (.unsupported op)

/-- The complaint about the right side of a comparison is about a pattern only if there is none. -/
theorem not_unused_of_right {right : Expr} {kind : TokenKind} {cause : Cause}
    (hpattern : kind ∈ patternOperators → ∃ text, right = .string text)
    (hsuits : ¬ Suits right kind) (h : rightComplaint? right kind = some cause) :
    ¬ cause.Unused := by
  intro hunused
  cases kind with
  | regexMatch | regexNotMatch => exact hsuits (hpattern (by decide))
  | _ =>
    cases h
    all_goals cases hunused

/-- **What is wrong with a readable expression is none of the unused complaints.** -/
theorem Faulty.not_unused {limit : Int} {depth : Nat} {e : Expr} {cause : Cause}
    (h : Faulty limit depth e cause) (he : Readable e) : ¬ cause.Unused := by
  intro hunused
  cases h with
  | tooDeep | literal | unary => cases hunused
  | @binary op left right paren _ hc hoccur =>
    cases he with
    | binary hop _ _ _ =>
      cases hkind : op.kind <;> simp_all [binaryOperators, TokenKind.isComparison, connective?]
  | @comparison op left right paren cause _ _ hbad =>
    cases he with
    | binary _ hpattern hleft _ =>
      cases hbad with
      | notField => cases hunused
      | fieldName hinvalid =>
        rw [hleft.wellNamed _ rfl] at hinvalid
        cases hinvalid
      | right _ hsuits hcause => exact not_unused_of_right hpattern hsuits hcause hunused

/-- A text that parses is built, by the machine and by recursive descent, and nothing is missing in
the root. -/
theorem exists_build_of_parse {limit : Int} {input : Bytes} {e : Expr}
    (h : parse limit input = .ok e) :
    (∃ p p', Parser.ofLexer (.ofText filterRules input) = .ok p ∧
      p.build limit = (.ok e, p') ∧ p'.root = some e) ∧
    ∃ start tree, Tree.ofLexer (.ofText filterRules input) = .ok start ∧
      (Descent.build limit).run start = some (.ok none, tree) ∧ tree.root.expr? = some e := by
  constructor
  · obtain ⟨start, -, -, -, hparser, -⟩ := Parser.exists_start input
    simp only [parse, parseWith, hparser] at h
    exact ⟨start, _, hparser, Prod.ext h rfl, Parser.root_of_build h⟩
  · obtain ⟨start, tree, hstart, hbuild, hroot⟩ := exists_descent limit input
    rw [h] at hbuild
    refine ⟨start, tree, hstart, hbuild, ?_⟩
    rw [hroot e h]
    exact e.expr?_node

/-- **Parsed expressions are expected.** An expression that a text parses to is readable, and it is
the root that the parser builds, with nothing missing in it. Whatever the limit on depth is, the
generator visits expected cases only, and if it fails, then not for an operator, a field name, a
pattern or the lack of an expression. -/
theorem parsed_expected {limit : Int} {input : Bytes} {e : Expr} (h : parse limit input = .ok e)
    (depth : Int) :
    Readable e ∧
    (∃ p p', Parser.ofLexer (.ofText filterRules input) = .ok p ∧
      p.build limit = (.ok e, p') ∧ p'.root = some e) ∧
    (∃ start tree, Tree.ofLexer (.ofText filterRules input) = .ok start ∧
      (Descent.build limit).run start = some (.ok none, tree) ∧ tree.root.expr? = some e) ∧
    (∀ n v, Visits depth 0 e n v → Readable v ∧ Expected depth n v) ∧
    ∀ doc cause, generate depth (some e) = .error ⟨doc, cause⟩ → ¬ cause.Unused := by
  have he := readable_of_parse h
  obtain ⟨hparser, hdescent⟩ := exists_build_of_parse h
  refine ⟨he, hparser, hdescent, fun n v hv => ?_, fun doc cause herror => ?_⟩
  · exact ⟨hv.readable he, (hv.readable he).expected depth n⟩
  · obtain ⟨n, v, cause', hv, hfaulty, heq⟩ :=
      Expr.filterAt_eq_error.1 (generate_eq_error.1 herror)
    obtain ⟨-, rfl⟩ := Malformed.mk.inj heq
    exact hfaulty.not_unused (hv.readable he)

/-- The expression of `not x or h < -5`. -/
def Expr.bareField : Expr :=
  .binary (.onLine 6 .or "or") (.unary (.onLine 0 .not "not") (.identity (ascii "x")))
    (.binary (.onLine 11 .less "<") (.identity (ascii "h"))
      (.unary (.onLine 13 .minus "-") (.number (ascii "5"))) false) false

/-- A field on its own is no filter, and about that there is a complaint. -/
theorem parsed_expected_bareField :
    parse 9 (ascii "not x or h < -5") = .ok .bareField ∧ Readable .bareField ∧
    generate 9 (some .bareField) =
      .error ⟨ascii "x", .formNotFilter (ascii "*expr.IdentityNode")⟩ ∧
    ¬ (Cause.formNotFilter (ascii "*expr.IdentityNode")).Unused ∧
    Expected 9 2 (.identity (ascii "x")) := by
  have hparse : parse 9 (ascii "not x or h < -5") = .ok .bareField := by decide
  have herror : generate 9 (some .bareField) =
      .error ⟨ascii "x", .formNotFilter (ascii "*expr.IdentityNode")⟩ := by rfl
  obtain ⟨hreadable, -, -, hvisits, hunused⟩ := parsed_expected hparse 9
  refine ⟨hparse, hreadable, herror, hunused _ _ herror, (hvisits 2 _ ?_).2⟩
  exact .left (by decide) rfl (.negated (by decide) rfl (.here _ _))

end FilterQuery
