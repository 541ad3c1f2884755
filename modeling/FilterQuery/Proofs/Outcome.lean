import FilterQuery.Compile
import FilterQuery.Proofs.JsonReading
import FilterQuery.Proofs.Parsing
import FilterQuery.Proofs.Schemas

/-!
# The outcome of a compilation

**Theorem (`compile_outcome`).** A text compiles exactly if it parses, its expression has a query,
no number in a comparison has a superfluous zero in front, and the document of the query is nested
no deeper than JSON is read. If it does not parse, the error is the one of the parser, a lexical or
a grammatical one. In all other cases the error is about malformed output.

The program checks its own output by reading it back. What can come of that is known beforehand:
written JSON reads back (`Json.readFirst_render`), the schema accepts the envelope whatever the
filter in it is, and the only literals that JSON may refuse are those with a superfluous zero
(`isLiteral_numeral`), since the lexer lets no other irregular number through.
-/

namespace FilterQuery

/-! ## Numbers -/

/-- The number goes on with a digit behind a zero at its start. -/
def hasLeadingZero : Bytes → Bool
  | a :: b :: _ => a == 0x30 && isDigit b
  | _ => false

namespace Expr

/-- The number literals in an expression. -/
def numbers : Expr → List Bytes
  | number text => [text]
  | unary _ arg => arg.numbers
  | binary _ left right _ => left.numbers ++ right.numbers
  | _ => []

/-- The number literals in the values of comparisons. -/
def comparedNumbers : Expr → List Bytes
  | unary _ arg => arg.comparedNumbers
  | binary op left right _ =>
    if op.kind.isComparison then right.numbers else left.comparedNumbers ++ right.comparedNumbers
  | _ => []

end Expr

theorem Phrase.numeral_of_mem_numbers {q : Phrase} (h : q.IsSpelled) {paren : Bool} {text : Bytes}
    (htext : text ∈ (q.treeIn paren).numbers) : Numeral text := by
  induction q generalizing paren with
  | literal t =>
    simp only [treeIn, literalTree] at htext
    split at htext <;> simp only [Expr.numbers, List.mem_singleton, List.not_mem_nil] at htext
    next hkind =>
    subst htext
    rwa [isSpelled_literal, hkind] at h
  | group opening inner closing ih => exact ih (isSpelled_group.1 h).2.1 htext
  | applied op arg ih => exact ih (isSpelled_applied.1 h).2 htext
  | joined left op right ihl ihr =>
    rcases List.mem_append.1 htext with htext | htext
    · exact ihl (isSpelled_joined.1 h).1 htext
    · exact ihr (isSpelled_joined.1 h).2.2 htext
  | matched left op pattern ih =>
    simp only [treeIn, Expr.numbers, List.append_nil] at htext
    exact ih (isSpelled_matched.1 h).1 htext

theorem afterDigits?_append {digits rest : Bytes} (hne : digits ≠ [])
    (hdigits : ∀ b ∈ digits, isDigit b = true) (hrest : ∀ b ∈ rest.head?, isDigit b = false) :
    Json.Number.afterDigits? (digits ++ rest) = some rest := by
  obtain ⟨d, ds, rfl⟩ := List.exists_cons_of_ne_nil hne
  have hd := hdigits d List.mem_cons_self
  obtain ⟨-, hdrop⟩ := span_append (fun b hb => hdigits b (List.mem_cons_of_mem d hb)) hrest
  simp [Json.Number.afterDigits?, hd, hdrop]

theorem isLiteral_integer {whole rest : Bytes} (hne : whole ≠ [])
    (hwhole : ∀ b ∈ whole, isDigit b = true) (hhead : ∀ b ∈ rest.head?, isDigit b = false)
    (hrest : Json.Number.afterFraction? rest = some []) :
    Json.Number.isLiteral (whole ++ rest) = !hasLeadingZero (whole ++ rest) := by
  obtain ⟨d, ds, rfl⟩ := List.exists_cons_of_ne_nil hne
  have hd := hwhole d List.mem_cons_self
  simp only [Json.Number.isLiteral, Json.Number.after?, List.cons_append,
    Json.Number.afterMinus_digit hd]
  by_cases hzero : d = 0x30
  · subst hzero
    cases ds with
    | nil =>
      have hshort : hasLeadingZero (0x30 :: rest) = false := by
        cases rest with
        | nil => rfl
        | cons c rest => simp [hasLeadingZero, hhead c rfl]
      simp [Json.Number.afterInteger?, hrest, Json.Number.afterExponent?, hshort]
    | cons c ds =>
      -- A digit that follows the zero is neither a fraction nor an exponent.
      have hc := hwhole c (by simp)
      have hother : ∀ b : UInt8, isDigit b = false → c ≠ b := fun b => ne_of_isDigit hc
      simp [Json.Number.afterInteger?, Json.Number.afterFraction?, Json.Number.afterExponent?,
        hasLeadingZero, hc, hother 0x2E (by decide), hother 0x65 (by decide),
        hother 0x45 (by decide)]
  · have hdigits := afterDigits?_append hne hwhole hhead
    rw [List.cons_append] at hdigits
    have hshort : hasLeadingZero (d :: (ds ++ rest)) = false := by
      cases ds ++ rest with
      | nil => rfl
      | cons c more => simp [hasLeadingZero, hzero]
    simp [Json.Number.afterInteger?, hzero, hdigits, hrest, Json.Number.afterExponent?, hshort]

/-- **A number of the language is a number of JSON** unless it starts with a superfluous zero. -/
theorem isLiteral_numeral {digits : Bytes} (h : Numeral digits) :
    Json.Number.isLiteral digits = !hasLeadingZero digits := by
  cases h with
  | integer hne hwhole =>
    have hend : ∀ b ∈ ([] : Bytes).head?, isDigit b = false := by simp
    have hliteral := isLiteral_integer hne hwhole hend rfl
    rwa [List.append_nil] at hliteral
  | @decimal whole fraction hne hwhole hfne hfraction =>
    refine isLiteral_integer hne hwhole (by simp; decide) ?_
    have hend : ∀ b ∈ ([] : Bytes).head?, isDigit b = false := by simp
    have hdigits := afterDigits?_append hfne hfraction hend
    rw [List.append_nil] at hdigits
    simp [Json.Number.afterFraction?, hdigits]

/-- A sign in front makes no difference to that. -/
theorem isLiteral_minus {digits : Bytes} (h : Numeral digits) :
    Json.Number.isLiteral (0x2D :: digits) = Json.Number.isLiteral digits := by
  obtain ⟨d, rest, rfl, hd⟩ := h.cons
  simp only [Json.Number.isLiteral, Json.Number.after?, Json.Number.afterMinus_digit hd]
  rfl

namespace Expr

/-- The number that an expression stands for is its one literal, signed or not. -/
theorem numbers_of_value? {e : Expr} (h : ∀ n ∈ e.numbers, Numeral n) {text : Bytes}
    (hvalue : e.value? = some (.number text)) :
    ∃ digits, e.numbers = [digits] ∧ (text = digits ∨ text = 0x2D :: digits) := by
  induction e generalizing text with
  | identity name =>
    simp only [value?] at hvalue
    split at hvalue
    · cases hvalue
    · split at hvalue <;> cases hvalue
  | string => cases hvalue
  | number digits =>
    cases hvalue
    exact ⟨digits, rfl, .inl rfl⟩
  | unary op arg ih =>
    simp only [value?] at hvalue
    split at hvalue
    · next inner _ hinner =>
      cases hvalue
      obtain ⟨digits, hdigits, rfl | rfl⟩ := ih h hinner
      · refine ⟨inner, hdigits, .inr ?_⟩
        obtain ⟨d, rest, rfl, hd⟩ := (h inner (by simp [numbers, hdigits])).cons
        simp [negate, ne_of_isDigit hd (b := 0x2D) (by decide)]
      · exact ⟨digits, hdigits, .inl rfl⟩
    · cases hvalue
  | binary => cases hvalue

/-- A value that is no number is a word or a string, and has no number in it. -/
theorem value?_cases {e : Expr} {v : Json} (h : e.value? = some v) :
    (∃ text, v = .number text) ∨ (e.numbers = [] ∧
      (v = .null ∨ (∃ b, v = .bool b) ∨ ∃ text, e = .string text ∧ v = .string text)) := by
  cases e with
  | identity name =>
    simp only [value?] at h
    split at h
    · cases h
      exact .inr ⟨rfl, .inr (.inl ⟨_, rfl⟩)⟩
    · split at h <;> cases h
      exact .inr ⟨rfl, .inl rfl⟩
  | string text =>
    cases h
    exact .inr ⟨rfl, .inr (.inr ⟨text, rfl, rfl⟩)⟩
  | number text =>
    cases h
    exact .inl ⟨text, rfl⟩
  | unary op arg =>
    simp only [value?] at h
    split at h <;> cases h
    exact .inl ⟨_, rfl⟩
  | binary => cases h

/-- A value can be written unless one of its numbers has a leading zero. -/
theorem badNumber?_of_value? {e : Expr} (h : ∀ n ∈ e.numbers, Numeral n) {v : Json}
    (hvalue : e.value? = some v) :
    v.badNumber? = none ↔ ∀ n ∈ e.numbers, hasLeadingZero n = false := by
  rcases value?_cases hvalue with ⟨text, rfl⟩ | ⟨hnumbers, hword⟩
  · obtain ⟨digits, hdigits, htext⟩ := numbers_of_value? h hvalue
    have hnumeral := h digits (by simp [hdigits])
    have hliteral : Json.isWritable text = !hasLeadingZero digits := by
      rw [← isLiteral_numeral hnumeral]
      rcases htext with rfl | rfl
      · obtain ⟨d, rest, rfl, -⟩ := hnumeral.cons
        simp [Json.isWritable]
      · simp [Json.isWritable, isLiteral_minus hnumeral]
    simp [Json.badNumber?, hliteral, hdigits]
  · have hnone : v.badNumber? = none := by
      rcases hword with rfl | ⟨b, rfl⟩ | ⟨text, -, rfl⟩ <;> rfl
    simp [hnone, hnumbers]

end Expr

/-! ## Filters as documents -/

namespace Filter

@[simp] theorem badNumber?_wrap (key : Bytes) (v : Json) :
    (wrap key v).badNumber? = v.badNumber? := by
  cases h : v.badNumber? <;> simp [wrap, Json.badNumber?, Json.badNumberMembers?, h]

theorem badNumber?_one {occur : Occur} {filter : Filter} (h : filter.isMissing = false) :
    (one occur filter).toJson.badNumber? = filter.toJson.badNumber? := by
  simp [toJson, h, wrapBool]

theorem badNumber?_list (occur : Occur) (filters : List Filter) :
    (list occur filters).toJson.badNumber? = Json.badNumberItems? (toJsonList filters) := by
  simp [toJson, wrapBool, Json.badNumber?]

end Filter

/-- The filter of a comparison is an object, and the value of its right side is all that can keep it
from being written. -/
theorem TokenKind.filter_toJson {kind : TokenKind} {field : Bytes} {right : Expr} {filter : Filter}
    (hnumbers : ∀ n ∈ right.numbers, Numeral n) (h : kind.filter field right = .ok filter) :
    (∃ members, filter.toJson = .object members) ∧
      (filter.toJson.badNumber? = none ↔ ∀ n ∈ right.numbers, hasLeadingZero n = false) := by
  rcases filter_eq_ok.1 h with ⟨value, hvalue, hfilter⟩ | ⟨pattern, rfl, hfilter⟩
  · rw [← Expr.badNumber?_of_value? hnumbers hvalue]
    rcases hfilter with ⟨-, rfl⟩ | ⟨-, rfl⟩ | ⟨bound, -, rfl⟩
    · exact ⟨⟨_, rfl⟩, by simp [Filter.toJson]⟩
    · refine ⟨⟨_, rfl⟩, ?_⟩
      rw [Filter.mustNot, Filter.badNumber?_one rfl]
      simp [Filter.toJson]
    · exact ⟨⟨_, rfl⟩, by simp [Filter.toJson]⟩
  · have hregexp : (Filter.regexp field pattern).toJson.badNumber? = none := by
      simp [Filter.toJson, Json.badNumber?]
    rcases hfilter with ⟨-, rfl⟩ | ⟨-, rfl⟩
    · refine ⟨⟨_, rfl⟩, ?_⟩
      rw [Filter.must, Filter.badNumber?_one rfl]
      simp [hregexp, Expr.numbers]
    · refine ⟨⟨_, rfl⟩, ?_⟩
      rw [Filter.mustNot, Filter.badNumber?_one rfl]
      simp [hregexp, Expr.numbers]

/-- **A filter is an object**, and only a number with a leading zero in one of its comparisons can
keep it from being written. -/
theorem Expr.filterAt_toJson {e : Expr} (hnumbers : ∀ n ∈ e.numbers, Numeral n) {limit : Int}
    {depth : Nat} {filter : Filter} (h : e.filterAt limit depth = .ok filter) :
    (∃ members, filter.toJson = .object members) ∧
      (filter.toJson.badNumber? = none ↔ ∀ n ∈ e.comparedNumbers, hasLeadingZero n = false) := by
  induction e generalizing depth filter with
  | identity | string | number =>
    simp only [filterAt] at h
    split at h <;> cases h
  | unary op arg ih =>
    obtain ⟨-, -, inner, hinner, rfl⟩ := filterAt_unary_eq_ok.1 h
    obtain ⟨-, hbad⟩ := ih hnumbers hinner
    refine ⟨⟨_, rfl⟩, ?_⟩
    rw [Filter.negation, Filter.badNumber?_list]
    simpa [Filter.toJsonList, comparedNumbers] using hbad
  | binary op left right paren ihl ihr =>
    have hleft : ∀ n ∈ left.numbers, Numeral n :=
      fun n hn => hnumbers n (List.mem_append_left _ hn)
    have hright : ∀ n ∈ right.numbers, Numeral n :=
      fun n hn => hnumbers n (List.mem_append_right _ hn)
    rcases (filterAt_binary_eq_ok.1 h).2 with
      ⟨field, hc, -, hmade⟩ | ⟨hc, occur, first, second, -, hfirst, hsecond, rfl⟩
    · have hdocument := TokenKind.filter_toJson hright hmade
      simpa [comparedNumbers, hc] using hdocument
    · refine ⟨⟨_, rfl⟩, ?_⟩
      have hboth : Json.badNumberItems? (Filter.toJsonList [first, second]) = none ↔
          first.toJson.badNumber? = none ∧ second.toJson.badNumber? = none := by
        simp [Filter.toJsonList]
      rw [Filter.badNumber?_list, hboth, (ihl hleft hfirst).2, (ihr hright hsecond).2]
      simp [comparedNumbers, hc, or_imp, forall_and]

/-! ## Documents -/

namespace Query

theorem badNumber?_ofFilter (filter : Filter) :
    (ofFilter filter).toJson.badNumber? = none ↔ filter.toJson.badNumber? = none := by
  simp [ofFilter, toJson, Json.badNumber?, Filter.toJsonList]

/-- The schema accepts the envelope around any object. -/
theorem check_ofFilter {filter : Filter} {members : List (Bytes × Json)}
    (h : filter.toJson = .object members) :
    schema.check [] (ofFilter filter).toJson.reread = [] := by
  have hquery : Json.respell (ascii "query") = ascii "query" := by decide
  have hfiltered : Json.respell (ascii "filtered") = ascii "filtered" := by decide
  have hfilter : Json.respell (ascii "filter") = ascii "filter" := by decide
  rw [check_eq_nil]
  simp only [ofFilter, toJson, Filter.toJsonList, h, Filter.wrap, Json.reread, Json.rereadMembers,
    Json.rereadItems, hquery, hfiltered, hfilter]
  exact ⟨_, _, _, ⟨[], rfl, by simp⟩, ⟨[], rfl, by simp⟩, ⟨[], rfl, by simp⟩⟩

/-- A document that is nested too deep cannot be read back. -/
theorem validate_of_deep {filter : Filter} (hbad : filter.toJson.badNumber? = none)
    (hdeep : Json.Reader.maxNesting < (ofFilter filter).toJson.depth) :
    ∃ b, validate (ofFilter filter).toJson.render =
      .error ⟨(ofFilter filter).toJson.render, .unreadable (.misfit b .nesting)⟩ := by
  obtain ⟨b, herror⟩ := (Json.readFirst_render ((badNumber?_ofFilter filter).2 hbad)).2 hdeep
  exact ⟨b, by simp only [validate, herror]⟩

/-- **A document passes its own check** just when JSON is read as deep as it is nested. -/
theorem validate_ofFilter {filter : Filter} {members : List (Bytes × Json)}
    (hobject : filter.toJson = .object members) (hbad : filter.toJson.badNumber? = none) :
    validate (ofFilter filter).toJson.render = .ok () ↔
      (ofFilter filter).toJson.depth ≤ Json.Reader.maxNesting := by
  constructor
  · intro hvalid
    by_contra hlt
    obtain ⟨b, herror⟩ := validate_of_deep hbad (Nat.not_le.1 hlt)
    rw [herror] at hvalid
    cases hvalid
  · intro hle
    have hread := (Json.readFirst_render ((badNumber?_ofFilter filter).2 hbad)).1 hle
    simp only [validate, hread, check_ofFilter hobject]

end Query

theorem Json.encode_eq_ok {v : Json} {document : Bytes} :
    v.encode = .ok document ↔ v.badNumber? = none ∧ document = v.render := by
  cases h : v.badNumber? <;> simp [encode, h, eq_comm]

/-! ## Outcomes -/

/-- Numbers come out of a parse as they went in. -/
theorem numeral_of_parse {limit : Int} {input : Bytes} {e : Expr} (h : parse limit input = .ok e) :
    ∀ n ∈ e.numbers, Numeral n := by
  obtain ⟨q, p, hlex, -, -, rfl⟩ := exists_phrase h
  exact fun n hn => Phrase.numeral_of_mem_numbers hlex.spelled hn

/-- What it takes for a text to compile, stage by stage and without looking at the output. -/
theorem compile_eq_ok_iff {limits : Limits} {input : Bytes} {c : Compiled} :
    compile limits input = .ok c ↔ ∃ e, parse limits.expression input = .ok e ∧
      generate limits.filter (some e) = .ok c.query ∧
      (∀ n ∈ e.comparedNumbers, hasLeadingZero n = false) ∧
      c.query.toJson.depth ≤ Json.Reader.maxNesting ∧ c.document = c.query.toJson.render := by
  rw [compile_eq_ok]
  constructor
  · rintro ⟨e, filter, hparse, hfilter, hquery, hencode, hvalid⟩
    obtain ⟨⟨members, hobject⟩, hzero⟩ := Expr.filterAt_toJson (numeral_of_parse hparse) hfilter
    obtain ⟨hbad, hdocument⟩ := Json.encode_eq_ok.1 hencode
    rw [hdocument] at hvalid
    rw [hquery] at hbad hvalid ⊢
    rw [Query.badNumber?_ofFilter] at hbad
    refine ⟨e, hparse, Except.map_eq_ok.2 ⟨filter, hfilter, rfl⟩, hzero.1 hbad, ?_, ?_⟩
    · exact (Query.validate_ofFilter hobject hbad).1 hvalid
    · rw [← hquery]
      exact hdocument
  · rintro ⟨e, hparse, hgenerate, hnumbers, hdepth, hdocument⟩
    obtain ⟨filter, hfilter, hquery⟩ := Except.map_eq_ok.1 hgenerate
    obtain ⟨⟨members, hobject⟩, hzero⟩ := Expr.filterAt_toJson (numeral_of_parse hparse) hfilter
    have hbad := hzero.2 hnumbers
    refine ⟨e, filter, hparse, hfilter, hquery.symm, Json.encode_eq_ok.2 ⟨?_, hdocument⟩, ?_⟩
    · rwa [← hquery, Query.badNumber?_ofFilter]
    · rw [hdocument]
      rw [← hquery] at hdepth ⊢
      exact (Query.validate_ofFilter hobject hbad).2 hdepth

theorem compile_eq_parse_error {limits : Limits} {input : Bytes} {error : ParseError} :
    compile limits input = .error (.parse error) ↔
      parse limits.expression input = .error error := by
  simp only [compile]
  cases hparse : parse limits.expression input with
  | error e => simp
  | ok e =>
    -- Behind the parser, every error is about malformed output.
    simp only [reduceCtorEq, iff_false]
    split
    · simp
    · split
      · simp
      · split <;> simp

/-- What parses either compiles or is malformed. -/
theorem exists_malformed_iff {limits : Limits} {input : Bytes} :
    (∃ error, compile limits input = .error (.malformed error)) ↔
      ∃ e, parse limits.expression input = .ok e ∧ ∀ c, compile limits input ≠ .ok c := by
  constructor
  · rintro ⟨error, herror⟩
    cases hparse : parse limits.expression input with
    | error e =>
      rw [compile_eq_parse_error.2 hparse] at herror
      cases herror
    | ok e => exact ⟨e, rfl, fun c hc => by rw [hc] at herror; cases herror⟩
  · rintro ⟨e, hparse, hfails⟩
    cases hcompile : compile limits input with
    | ok c => exact absurd hcompile (hfails c)
    | error error =>
      cases error with
      | malformed error => exact ⟨error, rfl⟩
      | parse error =>
        rw [compile_eq_parse_error, hparse] at hcompile
        cases hcompile

/-- **The outcome of a compilation.** It succeeds, with the written query, exactly if the text
parses, the expression has a query, no compared number has a superfluous leading zero and the
document is nested at most 10000 deep. It fails with a parse error exactly if the text does not
parse, and that error is lexical or grammatical. It fails with malformed output in all other
cases. -/
theorem compile_outcome (limits : Limits) (input : Bytes) :
    (∀ c, compile limits input = .ok c ↔ ∃ e, parse limits.expression input = .ok e ∧
      generate limits.filter (some e) = .ok c.query ∧
      (∀ n ∈ e.comparedNumbers, hasLeadingZero n = false) ∧
      c.query.toJson.depth ≤ 10000 ∧ c.document = c.query.toJson.render) ∧
    (∀ error, compile limits input = .error (.parse error) ↔
      parse limits.expression input = .error error) ∧
    (∀ error, parse limits.expression input = .error error →
      (∃ e, error = .lexical e) ∨ ∃ e, error = .grammatical e) ∧
    ((∃ error, compile limits input = .error (.malformed error)) ↔
      ∃ e, parse limits.expression input = .ok e ∧
        ∀ query, generate limits.filter (some e) = .ok query →
          (∃ n ∈ e.comparedNumbers, hasLeadingZero n = true) ∨ 10000 < query.toJson.depth) := by
  refine ⟨fun c => compile_eq_ok_iff, fun error => compile_eq_parse_error, ?_, ?_⟩
  · intro error herror
    cases error with
    | lexical e => exact .inl ⟨e, rfl⟩
    | grammatical e => exact .inr ⟨e, rfl⟩
    | broken fault => exact absurd herror (parse_ne_broken _ _ fault)
  rw [exists_malformed_iff]
  refine exists_congr fun e => and_congr_right fun hparse => ⟨fun hfails query hquery => ?_, ?_⟩
  · by_contra hfine
    simp only [not_or, not_exists, not_and, Bool.not_eq_true, Nat.not_lt] at hfine
    exact hfails ⟨query, query.toJson.render⟩
      (compile_eq_ok_iff.2 ⟨e, hparse, hquery, hfine.1, hfine.2, rfl⟩)
  · intro hbad c hc
    obtain ⟨e', hparse', hquery, hnumbers, hdepth, -⟩ := compile_eq_ok_iff.1 hc
    obtain rfl : e = e' := Except.ok.inj (hparse.symm.trans hparse')
    rcases hbad c.query hquery with ⟨n, hn, hzero⟩ | hdeep
    · rw [hnumbers n hn] at hzero
      cases hzero
    · exact absurd hdepth (Nat.not_le.2 hdeep)

end FilterQuery
