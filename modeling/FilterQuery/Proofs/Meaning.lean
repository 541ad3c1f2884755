import FilterQuery.Compile
import FilterQuery.Proofs.Parsing

/-!
# Compilation preserves meaning

An interpretation gives a truth value to every atom: a field that is compared with a value, and a
field that is matched against a pattern. It extends to filters, by the rules of `bool` filters, and
to phrases, by the reading of the language.

**Theorem (`compile_truth`).** What a text compiles to has the truth value of the text's derivation
under every interpretation.

The reading of a phrase (`Phrase.truth?`) goes by derivations and not by the trees that the parser
builds, and it says on its own what fields and values are. In particular it counts the minus signs
of a number, where the generator flips a sign for each of them.
-/

namespace FilterQuery

/-! ## Interpretations -/

/-- The orders in which a field can stand to a value. -/
inductive Order where
  | less
  | lessEqual
  | greater
  | greaterEqual
deriving Repr, DecidableEq

/-- The order that the bound of a `range` filter names. This is the reader's side: it is written
down from what the keys mean, not from the table that `rangeFilter` writes them with, so that the
two can be compared. -/
def Order.ofBound? (bound : Bytes) : Option Order :=
  if bound = ascii "lt" then some .less
  else if bound = ascii "lte" then some .lessEqual
  else if bound = ascii "gt" then some .greater
  else if bound = ascii "gte" then some .greaterEqual
  else none

/-- The operator that asks for the order. -/
def Order.kind : Order → TokenKind
  | less => .less
  | lessEqual => .lessEqual
  | greater => .greater
  | greaterEqual => .greaterEqual

/-- A truth value for every atom. -/
structure Interpretation where
  /-- The field has the value. -/
  equals : (field : Bytes) → (value : Json) → Bool
  /-- The field stands in the order to the value. -/
  compares : Order → (field : Bytes) → (value : Json) → Bool
  /-- The field fits the pattern. -/
  fits : (field pattern : Bytes) → Bool

/-- The truth value of an occurrence from those of its filters. -/
def Occur.truth : Occur → List Bool → Bool
  | must, values => values.all id
  | should, values => values.any id
  | mustNot, values => !values.any id

namespace Filter

mutual

/-- The truth value of a filter; what is not a filter has none. A single filter in an occurrence
counts as a list of one. -/
def truth? (I : Interpretation) : Filter → Option Bool
  | term field value => some (I.equals field value)
  | range field bound value => (Order.ofBound? bound).map (I.compares · field value)
  | regexp field pattern => some (I.fits field pattern)
  | list occur filters => (truths? I filters).map occur.truth
  | one occur filter => (truth? I filter).map (occur.truth [·])
  | literal _ => none

/-- The truth values of filters. -/
def truths? (I : Interpretation) : List Filter → Option (List Bool)
  | [] => some []
  | filter :: filters =>
    match truth? I filter, truths? I filters with
    | some value, some values => some (value :: values)
    | _, _ => none

end

end Filter

/-! ## The reading of a phrase -/

namespace Phrase

/-- The field that a phrase names. -/
def field? : Phrase → Option Bytes
  | literal t => if t.kind = .identity then some t.text else none
  | group _ inner _ => inner.field?
  | _ => none

/-- The number of minus signs in front of a number, and the number. -/
def number? : Phrase → Option (Nat × Bytes)
  | literal t => if t.kind = .number then some (0, t.text) else none
  | group _ inner _ => inner.number?
  | applied op arg =>
    if op.kind = .minus then arg.number?.map fun (signs, digits) => (signs + 1, digits) else none
  | _ => none

/-- The value of a string or of one of the words `true`, `false` and `null`. -/
def word? : Phrase → Option Json
  | literal t =>
    match t.kind with
    | .string => some (.string t.text)
    | .identity =>
      if t.text = ascii "true" then some (.bool true)
      else if t.text = ascii "false" then some (.bool false)
      else if t.text = ascii "null" then some .null
      else none
    | _ => none
  | group _ inner _ => inner.word?
  | _ => none

/-- The text of a number behind minus signs. -/
def signed (signs : Nat) (digits : Bytes) : Bytes :=
  if signs % 2 = 0 then digits else 0x2D :: digits

/-- The value that a phrase stands for. -/
def value? (p : Phrase) : Option Json :=
  match p.number? with
  | some (signs, digits) => some (.number (signed signs digits))
  | none => p.word?

/-- The truth value of an atom between two phrases. -/
def atom? (left right : Phrase) (atom : Bytes → Json → Bool) : Option Bool :=
  match left.field?, right.value? with
  | some field, some value => some (atom field value)
  | _, _ => none

/-- The truth value of a phrase; a phrase that states nothing has none. -/
def truth? (I : Interpretation) : Phrase → Option Bool
  | literal _ => none
  | group _ inner _ => inner.truth? I
  | applied op arg => if op.kind = .not then (arg.truth? I).map not else none
  | joined left op right =>
    match op.kind with
    | .or => connected or (left.truth? I) (right.truth? I)
    | .and => connected and (left.truth? I) (right.truth? I)
    | .equal => atom? left right I.equals
    | .notEqual => (atom? left right I.equals).map not
    | .less => atom? left right (I.compares .less)
    | .lessEqual => atom? left right (I.compares .lessEqual)
    | .greater => atom? left right (I.compares .greater)
    | .greaterEqual => atom? left right (I.compares .greaterEqual)
    | _ => none
  | matched left op pattern =>
    match op.kind with
    | .regexMatch => left.field?.map (I.fits · pattern.text)
    | .regexNotMatch => (left.field?.map (I.fits · pattern.text)).map not
    | _ => none
where
  /-- A connective between two truth values. -/
  connected (connective : Bool → Bool → Bool) : Option Bool → Option Bool → Option Bool
    | some a, some b => some (connective a b)
    | _, _ => none

theorem truth?_order {order : Order} {left right : Phrase} {op : Token} {I : Interpretation}
    (h : op.kind = order.kind) :
    (joined left op right).truth? I = atom? left right (I.compares order) := by
  cases order <;> simp only [truth?, h, Order.kind]

end Phrase

/-! ## Fields and values -/

theorem Derives.field?_eq {s : Stratum} {q : Phrase} (h : Derives s q) {paren : Bool}
    {field : Bytes} (hfield : (q.treeIn paren).field = .ok field) : q.field? = some field := by
  induction h generalizing paren with
  | @literal t ht =>
    simp only [List.mem_cons, List.not_mem_nil, or_false] at ht
    rcases ht with ht | ht | ht <;>
      simp only [Phrase.treeIn, Phrase.literalTree, ht, Expr.field] at hfield
    · cases hfield
    · cases hfield
    · split at hfield
      · cases hfield
        simp [Phrase.field?, ht]
      · cases hfield
  | group _ _ _ ih => exact ih hfield
  | applied => cases hfield
  | matched => cases hfield
  | joined => cases hfield
  | tighter _ ih => exact ih hfield

theorem Phrase.numeral_of_number? {q : Phrase} (h : q.IsSpelled) {signs : Nat} {digits : Bytes}
    (hq : q.number? = some (signs, digits)) : Numeral digits := by
  induction q generalizing signs with
  | literal t =>
    simp only [number?] at hq
    split at hq
    · next hkind =>
      cases hq
      rwa [isSpelled_literal, hkind] at h
    · cases hq
  | group opening inner closing ih => exact ih (isSpelled_group.1 h).2.1 hq
  | applied op arg ih =>
    simp only [number?] at hq
    split at hq
    · obtain ⟨⟨n, d⟩, harg, heq⟩ := Option.map_eq_some_iff.1 hq
      cases heq
      exact ih (isSpelled_applied.1 h).2 harg
    · cases hq
  | joined => cases hq
  | matched => cases hq

/-- One more minus sign flips the sign. -/
theorem negate_signed {digits : Bytes} (h : Numeral digits) (signs : Nat) :
    negate (Phrase.signed signs digits) = Phrase.signed (signs + 1) digits := by
  obtain ⟨b, rest, rfl, hb⟩ := h.cons
  have hne : b ≠ 0x2D := by
    rintro rfl
    exact absurd hb (by decide)
  rcases Nat.mod_two_eq_zero_or_one signs with heven | hodd
  · have hnext : (signs + 1) % 2 ≠ 0 := by omega
    simp [Phrase.signed, negate, heven, hnext, hne]
  · have hnext : (signs + 1) % 2 = 0 := by omega
    simp [Phrase.signed, negate, hodd, hnext]

theorem Phrase.word?_ne_number (q : Phrase) (text : Bytes) : q.word? ≠ some (.number text) := by
  induction q with
  | literal t =>
    simp only [word?]
    split <;> try simp
    split_ifs <;> simp
  | group opening inner closing ih => exact ih
  | _ => simp [word?]

theorem value?_identity {t : Token} (h : t.kind = .identity) :
    (Expr.identity t.text).value? = (Phrase.literal t).value? := by
  simp only [Expr.value?, Phrase.value?, Phrase.number?, Phrase.word?, h, truth?, isNull]
  by_cases htrue : t.text = ascii "true"
  · simp [htrue]
  by_cases hfalse : t.text = ascii "false"
  · simp [hfalse, ascii]
  · simp [htrue, hfalse]

/-- The generator flips the sign of a number behind a minus sign, and of nothing else. -/
theorem value?_applied {op : Token} {arg : Phrase} {e : Expr}
    (hop : op.kind ∈ [TokenKind.not, .minus]) (hspelled : arg.IsSpelled)
    (h : e.value? = arg.value?) : (Expr.unary op e).value? = (Phrase.applied op arg).value? := by
  simp only [List.mem_cons, List.not_mem_nil, or_false] at hop
  rcases hop with hop | hop
  · simp [Expr.value?, Phrase.value?, Phrase.number?, Phrase.word?, hop]
  simp only [Expr.value?, hop, h]
  cases hnumber : arg.number? with
  | some number =>
    obtain ⟨signs, digits⟩ := number
    have hdigits := Phrase.numeral_of_number? hspelled hnumber
    simp [Phrase.value?, Phrase.number?, hop, hnumber, negate_signed hdigits]
  | none =>
    have hword := arg.word?_ne_number
    simp only [Phrase.value?, Phrase.number?, Phrase.word?, hop, hnumber]
    split
    · next text _ htext => exact absurd htext (hword text)
    · rfl

/-- **The generator's values are those of the reading.** -/
theorem Derives.value?_eq {s : Stratum} {q : Phrase} (h : Derives s q) (hspelled : q.IsSpelled)
    (paren : Bool) :
    (q.treeIn paren).value? = q.value? := by
  induction h generalizing paren with
  | @literal t ht =>
    simp only [List.mem_cons, List.not_mem_nil, or_false] at ht
    rcases ht with ht | ht | ht <;> simp only [Phrase.treeIn, Phrase.literalTree, ht]
    · simp [Expr.value?, Phrase.value?, Phrase.number?, Phrase.signed, ht]
    · simp [Expr.value?, Phrase.value?, Phrase.number?, Phrase.word?, ht]
    · exact value?_identity ht
  | group _ _ _ ih => exact ih (Phrase.isSpelled_group.1 hspelled).2.1 true
  | applied hop _ ih =>
    have harg := (Phrase.isSpelled_applied.1 hspelled).2
    exact value?_applied hop harg (ih harg false)
  | matched => rfl
  | joined => rfl
  | tighter _ ih => exact ih hspelled paren

/-! ## Filters mean what their phrases mean -/

/-- The filter and the phrase have one truth value. -/
def Agrees (filter : Filter) (q : Phrase) : Prop :=
  ∀ I, ∃ b, q.truth? I = some b ∧ filter.truth? I = some b

section Comparisons

variable {left right : Phrase} {op : Token} {e : Expr} {field : Bytes} {filter : Filter}

theorem atom?_eq_some {value : Json} (hfield : left.field? = some field)
    (hvalue : right.value? = some value) (atom : Bytes → Json → Bool) :
    Phrase.atom? left right atom = some (atom field value) := by
  simp only [Phrase.atom?, hfield, hvalue]

/-- A range filter stands for the order that its bound names. -/
theorem range_agrees {bound : Bytes} {value : Json} (hbound : rangeOps.lookup op.kind = some bound)
    (hfield : left.field? = some field) (hvalue : right.value? = some value) :
    Agrees (.range field bound value) (.joined left op right) := by
  obtain ⟨order, hkind, hmeant⟩ : ∃ order : Order, op.kind = order.kind ∧
      Order.ofBound? bound = some order := by
    cases hkind : op.kind <;> rw [hkind] at hbound <;> cases hbound
    exacts [⟨.greaterEqual, rfl, rfl⟩, ⟨.lessEqual, rfl, rfl⟩, ⟨.greater, rfl, rfl⟩,
      ⟨.less, rfl, rfl⟩]
  intro I
  refine ⟨I.compares order field value, ?_, ?_⟩
  · rw [Phrase.truth?_order hkind, atom?_eq_some hfield hvalue]
  · simp only [Filter.truth?, hmeant, Option.map_some]

/-- A comparison of a field with a value. -/
theorem joined_agrees {s : Stratum} (hop : op.kind ∈ s.operators)
    (hfield : left.field? = some field) (hvalue : e.value? = right.value?)
    (h : op.kind.filter field e = .ok filter) :
    Agrees filter (.joined left op right) := by
  have hpattern := not_pattern_of_mem hop
  rcases TokenKind.filter_eq_ok.1 h with ⟨value, hv, hfilter⟩ | ⟨pattern, -, hfilter⟩
  · rw [hvalue] at hv
    rcases hfilter with ⟨hkind, rfl⟩ | ⟨hkind, rfl⟩ | ⟨bound, hbound, rfl⟩
    · intro I
      refine ⟨I.equals field value, ?_, rfl⟩
      simp only [Phrase.truth?, hkind, atom?_eq_some hfield hv]
    · intro I
      refine ⟨!I.equals field value, ?_, ?_⟩
      · simp only [Phrase.truth?, hkind, atom?_eq_some hfield hv, Option.map_some]
      · simp [Filter.mustNot, Filter.truth?, Occur.truth]
    · exact range_agrees hbound hfield hv
  · rcases hfilter with ⟨hkind, -⟩ | ⟨hkind, -⟩ <;>
      exact absurd (by rw [hkind]; decide) hpattern

/-- A match of a field against a pattern. -/
theorem matched_agrees {pattern : Token} (hop : op.kind ∈ patternOperators)
    (hfield : left.field? = some field)
    (h : op.kind.filter field (.string pattern.text) = .ok filter) :
    Agrees filter (.matched left op pattern) := by
  simp only [patternOperators, List.mem_cons, List.not_mem_nil, or_false] at hop
  intro I
  rcases hop with hkind | hkind <;> rw [hkind] at h <;> cases h
  · refine ⟨I.fits field pattern.text, by simp [Phrase.truth?, hkind, hfield], ?_⟩
    simp [Filter.must, Filter.truth?, Occur.truth]
  · refine ⟨!I.fits field pattern.text, by simp [Phrase.truth?, hkind, hfield], ?_⟩
    simp [Filter.mustNot, Filter.truth?, Occur.truth]

end Comparisons

/-- `and` and `or` join the truth values of their sides. -/
theorem connective_agrees {left right : Phrase} {op : Token} {occur : Occur} {first second : Filter}
    (h : connective? op.kind = some occur) (hl : Agrees first left) (hr : Agrees second right) :
    Agrees (.list occur [first, second]) (.joined left op right) := by
  intro I
  obtain ⟨a, hla, hfa⟩ := hl I
  obtain ⟨b, hrb, hsb⟩ := hr I
  cases hkind : op.kind <;> rw [hkind] at h <;> cases h
  case and =>
    exact ⟨a && b, by simp [Phrase.truth?, Phrase.truth?.connected, hkind, hla, hrb],
      by simp [Filter.truth?, Filter.truths?, hfa, hsb, Occur.truth]⟩
  case or =>
    exact ⟨a || b, by simp [Phrase.truth?, Phrase.truth?.connected, hkind, hla, hrb],
      by simp [Filter.truth?, Filter.truths?, hfa, hsb, Occur.truth]⟩

theorem negation_agrees {op : Token} {arg : Phrase} {filter : Filter} (hop : op.kind = .not)
    (h : Agrees filter arg) : Agrees filter.negation (.applied op arg) := by
  intro I
  obtain ⟨b, harg, hfilter⟩ := h I
  exact ⟨!b, by simp [Phrase.truth?, hop, harg],
    by simp [Filter.negation, Filter.truth?, Filter.truths?, hfilter, Occur.truth]⟩

/-- **Filters mean what their phrases mean**, whatever the depth they are made at. -/
theorem Derives.agrees {s : Stratum} {q : Phrase} (h : Derives s q) (hspelled : q.IsSpelled)
    {limit : Int} {depth : Nat} {paren : Bool} {filter : Filter}
    (hfilter : (q.treeIn paren).filterAt limit depth = .ok filter) :
    Agrees filter q := by
  induction h generalizing depth paren filter with
  | literal ht =>
    -- A literal states nothing, and the generator makes no filter of it.
    simp only [Phrase.treeIn, Phrase.literalTree] at hfilter
    split at hfilter <;> simp only [Expr.filterAt] at hfilter <;> split at hfilter <;> cases hfilter
  | group _ _ _ ih => exact ih (Phrase.isSpelled_group.1 hspelled).2.1 hfilter
  | applied _ _ ih =>
    obtain ⟨-, hkind, inner, hinner, rfl⟩ := Expr.filterAt_unary_eq_ok.1 hfilter
    exact negation_agrees hkind (ih (Phrase.isSpelled_applied.1 hspelled).2 hinner)
  | matched hleft hop _ _ =>
    rcases (Expr.filterAt_binary_eq_ok.1 hfilter).2 with
      ⟨field, -, hfield, hmade⟩ | ⟨-, occur, first, second, hoccur, -⟩
    · exact matched_agrees hop (hleft.field?_eq hfield) hmade
    · simp only [patternOperators, List.mem_cons, List.not_mem_nil, or_false] at hop
      rcases hop with hop | hop <;> rw [hop] at hoccur <;> cases hoccur
  | joined hleft hop hright ihl ihr =>
    obtain ⟨hspelledLeft, -, hspelledRight⟩ := Phrase.isSpelled_joined.1 hspelled
    rcases (Expr.filterAt_binary_eq_ok.1 hfilter).2 with
      ⟨field, -, hfield, hmade⟩ | ⟨-, occur, first, second, hoccur, hfirst, hsecond, rfl⟩
    · have hvalue := hright.value?_eq hspelledRight false
      exact joined_agrees hop (hleft.field?_eq hfield) hvalue hmade
    · exact connective_agrees hoccur (ihl hspelledLeft hfirst) (ihr hspelledRight hsecond)
  | tighter _ ih => exact ih hspelled hfilter

/-- **Compilation preserves meaning.** A text that compiles has a derivation, and under every
interpretation the one filter of its query has the truth value of the derivation. -/
theorem compile_truth {limits : Limits} {input : Bytes} {c : Compiled}
    (h : compile limits input = .ok c) :
    ∃ tokens p, tokenize input = .ok tokens ∧ Sentence p tokens ∧
      c.query = .ofFilter c.query.root ∧
      ∀ I : Interpretation, ∃ b, p.truth? I = some b ∧ c.query.root.truth? I = some b := by
  obtain ⟨e, filter, hparse, hfilter, hquery, -⟩ := compile_eq_ok.1 h
  obtain ⟨q, p, hlex, hq, -, rfl⟩ := exists_phrase hparse
  refine ⟨_, q, tokenize_eq_ok.2 ⟨q.tokens, p, hlex, rfl⟩, sentence_iff.2 ⟨hq, rfl⟩, ?_⟩
  rw [hquery]
  exact ⟨rfl, hq.agrees hlex.spelled hfilter⟩

/-- Two negations of different forms, a sign and a bound. -/
theorem compile_truth_negations : ∃ c tokens p,
    compile {} (ascii "a != --1 or not (b >= -2)") = .ok c ∧
    tokenize (ascii "a != --1 or not (b >= -2)") = .ok tokens ∧ Sentence p tokens ∧
    ∀ I : Interpretation, ∃ b, p.truth? I = some b ∧ c.query.root.truth? I = some b := by
  have hok : (compile {} (ascii "a != --1 or not (b >= -2)")).isOk = true := by decide +kernel
  obtain ⟨c, h⟩ := Except.exists_of_isOk hok
  obtain ⟨tokens, p, htokens, hp, -, htruth⟩ := compile_truth h
  exact ⟨c, tokens, p, h, htokens, hp, htruth⟩

end FilterQuery
