import FilterQuery.Proofs.Escaping
import FilterQuery.Proofs.Outcome
import FilterQuery.Proofs.Printing

/-!
# Documents carry exactly their filters

**Theorem (`document_faithful`).** The document of a compilation reads back as the envelope around
its filter: fields and numbers as they are, texts without their stray bytes. It stands on one line.
And it keeps expressions apart: two texts whose strings are valid compile to the same document just
when their expressions have the same core.

**Cores.** `Expr.core` leaves out of an expression what cannot be seen in a filter: the places of
its operators, the marks of parentheses, and pairs of minus signs in front of a number.

**Back from the document.** `Json.source?` reads an expression off a document, and it finds the core
of the expression that the document was made from (`Expr.source?_filterAt`). In the other direction,
the core of an expression has the same filter as the expression (`Expr.filterAt_core`).
-/

namespace FilterQuery

/-! ## Filters that were read -/

/-- The value without stray bytes, if it is a string. -/
def Json.sanitized : Json → Json
  | string text => string (Utf8.sanitize text)
  | v => v

namespace Filter

mutual

/-- The filter with its texts free of stray bytes; fields and numbers stay as they are. -/
def sanitized : Filter → Filter
  | term field value => term field value.sanitized
  | range field bound value => range field bound value.sanitized
  | regexp field pattern => regexp field (Utf8.sanitize pattern)
  | list occur filters => list occur (sanitizedList filters)
  | one occur filter => one occur filter.sanitized
  | literal value => literal value.sanitized

/-- The filters with their texts free of stray bytes. -/
def sanitizedList : List Filter → List Filter
  | [] => []
  | filter :: filters => filter.sanitized :: sanitizedList filters

end

end Filter

/-- All bytes of the text are ASCII. -/
def Bytes.isAscii (text : Bytes) : Bool :=
  text.all (· < 0x80)

theorem Utf8.sanitize_ascii {text : Bytes} (h : text.isAscii = true) : sanitize text = text := by
  induction text with
  | nil => rfl
  | cons b text ih =>
    simp only [Bytes.isAscii, List.all_cons, Bool.and_eq_true, decide_eq_true_eq] at h
    rw [show b :: text = [b] ++ text from rfl, sanitize_character (.one h.1), ih h.2]

theorem Json.reread_wrap {key : Bytes} (h : key.isAscii = true) (v : Json) :
    (Filter.wrap key v).reread = Filter.wrap key v.reread := by
  simp [Filter.wrap, reread, rereadMembers, respell_eq_sanitize, Utf8.sanitize_ascii h]

theorem Json.reread_wrapBool (occur : Occur) (v : Json) :
    (Filter.wrapBool occur v).reread = Filter.wrapBool occur v.reread := by
  have hkey : occur.key.isAscii = true := by cases occur <;> rfl
  rw [Filter.wrapBool, reread_wrap rfl, reread_wrap hkey, Filter.wrapBool]

theorem ascii_of_isValidIdentity {text : Bytes} (h : isValidIdentity text = true) :
    text.isAscii = true := by
  cases text with
  | nil => rfl
  | cons b text =>
    simp only [isValidIdentity, Bool.and_eq_true, List.all_eq_true] at h
    apply List.all_eq_true.2
    intro c hc
    apply decide_eq_true
    apply And.left
    apply identityByte_ascii
    rcases List.mem_cons.1 hc with rfl | hc
    · simp [isIdentityByte, isWordByte, h.1]
    · exact h.2 c hc

namespace Expr

/-- A value is read as it was, but for stray bytes. -/
theorem reread_value {e : Expr} (hnumbers : ∀ n ∈ e.numbers, Numeral n) {v : Json}
    (h : e.value? = some v) : v.reread = v.sanitized := by
  rcases value?_cases h with ⟨text, rfl⟩ | ⟨-, rfl | ⟨b, rfl⟩ | ⟨text, -, rfl⟩⟩
  · obtain ⟨digits, hdigits, htext⟩ := numbers_of_value? hnumbers h
    obtain ⟨d, rest, rfl, -⟩ := (hnumbers digits (by simp [hdigits])).cons
    rcases htext with rfl | rfl <;> rfl
  · rfl
  · rfl
  · rw [Json.reread, Json.respell_eq_sanitize, Json.sanitized]

end Expr

/-- The filter of a comparison is read as it was, but for stray bytes. -/
theorem TokenKind.reread_filter {kind : TokenKind} {field : Bytes} {right : Expr} {filter : Filter}
    (hfield : isValidIdentity field = true) (hnumbers : ∀ n ∈ right.numbers, Numeral n)
    (h : kind.filter field right = .ok filter) :
    filter.toJson.reread = filter.sanitized.toJson := by
  have hascii := ascii_of_isValidIdentity hfield
  have hterm : ∀ value, right.value? = some value →
      (Filter.term field value).toJson.reread = (Filter.term field value).sanitized.toJson := by
    intro value hvalue
    rw [Filter.toJson, Json.reread_wrap rfl, Json.reread_wrap hascii,
      Expr.reread_value hnumbers hvalue, Filter.sanitized, Filter.toJson]
  have hregexp : ∀ pattern, (Filter.regexp field pattern).toJson.reread =
      (Filter.regexp field pattern).sanitized.toJson := by
    intro pattern
    rw [Filter.toJson, Json.reread_wrap rfl, Json.reread_wrap hascii, Json.reread,
      Json.respell_eq_sanitize, Filter.sanitized, Filter.toJson]
  have hone : ∀ occur atom, atom.isMissing = false → atom.sanitized.isMissing = false →
      atom.toJson.reread = atom.sanitized.toJson →
      (Filter.one occur atom).toJson.reread = (Filter.one occur atom).sanitized.toJson := by
    intro occur atom hatom hclean heq
    rw [Filter.sanitized, Filter.toJson, Filter.toJson, hatom, hclean, if_neg (by decide),
      if_neg (by decide), Json.reread_wrapBool, heq]
  rcases filter_eq_ok.1 h with ⟨value, hvalue, hfilter⟩ | ⟨pattern, rfl, hfilter⟩
  · rcases hfilter with ⟨-, rfl⟩ | ⟨-, rfl⟩ | ⟨bound, hbound, rfl⟩
    · exact hterm value hvalue
    · exact hone _ _ rfl rfl (hterm value hvalue)
    · have hkey : bound.isAscii = true := by
        cases kind <;> cases hbound <;> rfl
      rw [Filter.toJson, Json.reread_wrap rfl, Json.reread_wrap hascii,
        Json.reread_wrap hkey, Expr.reread_value hnumbers hvalue, Filter.sanitized, Filter.toJson]
  · rcases hfilter with ⟨-, rfl⟩ | ⟨-, rfl⟩
    · exact hone _ _ rfl rfl (hregexp pattern)
    · exact hone _ _ rfl rfl (hregexp pattern)

/-- **A filter is read as it was, but for stray bytes.** -/
theorem Expr.reread_filterAt {e : Expr} (hnumbers : ∀ n ∈ e.numbers, Numeral n) {limit : Int}
    {depth : Nat} {filter : Filter} (h : e.filterAt limit depth = .ok filter) :
    filter.toJson.reread = filter.sanitized.toJson := by
  induction e generalizing depth filter with
  | identity | string | number =>
    simp only [filterAt] at h
    split at h <;> cases h
  | unary op arg ih =>
    obtain ⟨-, -, inner, hinner, rfl⟩ := filterAt_unary_eq_ok.1 h
    have hread := ih hnumbers hinner
    simp only [Filter.negation, Filter.sanitized, Filter.sanitizedList, Filter.toJson,
      Filter.toJsonList, Json.reread_wrapBool, Json.reread, Json.rereadItems, hread]
  | binary op left right paren ihl ihr =>
    have hleft : ∀ n ∈ left.numbers, Numeral n :=
      fun n hn => hnumbers n (List.mem_append_left _ hn)
    have hright : ∀ n ∈ right.numbers, Numeral n :=
      fun n hn => hnumbers n (List.mem_append_right _ hn)
    rcases (filterAt_binary_eq_ok.1 h).2 with
      ⟨field, -, hfield, hmade⟩ | ⟨-, occur, first, second, -, hfirst, hsecond, rfl⟩
    · exact TokenKind.reread_filter (field_eq_ok.1 hfield).2 hright hmade
    · simp only [Filter.sanitized, Filter.sanitizedList, Filter.toJson, Filter.toJsonList,
        Json.reread_wrapBool, Json.reread, Json.rereadItems, ihl hleft hfirst, ihr hright hsecond]

/-- The envelope is read as it was. -/
theorem Query.read_ofFilter {filter : Filter} (hbad : filter.toJson.badNumber? = none)
    (hdepth : (ofFilter filter).toJson.depth ≤ Json.Reader.maxNesting)
    (hread : filter.toJson.reread = filter.sanitized.toJson) :
    Json.read (ofFilter filter).toJson.render = .ok (ofFilter filter.sanitized).toJson := by
  have hfirst := (Json.readFirst_render ((badNumber?_ofFilter filter).2 hbad)).1 hdepth
  have henvelope : (ofFilter filter).toJson.reread = (ofFilter filter.sanitized).toJson := by
    simp only [ofFilter, toJson, Filter.toJsonList]
    rw [Json.reread_wrap rfl, Json.reread_wrap rfl, Json.reread_wrap rfl]
    simp only [Json.reread, Json.rereadItems, hread]
  rw [Json.read, hfirst, henvelope]
  rfl

/-! ## Cores -/

namespace Expr

/-- A prefix operator in front of an expression. Two minus signs in front of a number cancel out. -/
def apply (op : Token) : Expr → Expr
  | unary op' (number text) =>
    if op.kind = .minus ∧ op'.kind = .minus then number text else unary op (unary op' (number text))
  | arg => unary op arg

/-- The expression without what a filter does not show: places, marks of parentheses, and pairs of
minus signs in front of a number. -/
def core : Expr → Expr
  | unary op arg => apply op.unplaced arg.core
  | binary op left right _ => binary op.unplaced left.core right.core false
  | e => e

theorem apply_of_ne {op : Token} (h : op.kind ≠ .minus) (arg : Expr) :
    apply op arg = unary op arg := by
  unfold apply
  split
  · rw [if_neg fun hboth => h hboth.1]
  · rfl

/-- The operators of an expression. -/
def operators : Expr → List Token
  | unary op arg => op :: arg.operators
  | binary op left right _ => op :: left.operators ++ right.operators
  | _ => []

/-- The string literals of an expression. -/
def strings : Expr → List Bytes
  | string text => [text]
  | unary _ arg => arg.strings
  | binary _ left right _ => left.strings ++ right.strings
  | _ => []

end Expr

/-! ## From documents back to expressions -/

namespace Json

/-- The literal that a value stands for. -/
def literal? : Json → Option Expr
  | null => some (.identity (ascii "null"))
  | bool true => some (.identity (ascii "true"))
  | bool false => some (.identity (ascii "false"))
  | string text => some (.string text)
  | number text =>
    some (if text.head? = some 0x2D then .unary (.bare .minus (ascii "-")) (.number text.tail)
      else .number text)
  | _ => none

end Json

/-- The comparison of a field with an expression. -/
def Expr.compared (kind : TokenKind) (field : Bytes) (right : Expr) : Expr :=
  .binary (.bare kind kind.keyword) (.identity field) right false

namespace Json

/-- The operator that sets a bound. -/
def boundKind? (bound : Bytes) : Option TokenKind :=
  (rangeOps.find? (·.2 = bound)).map Prod.fst

/-- The expression that a test of one field was made from. -/
def atom? (isNegated : Bool) (form field : Bytes) (value : Json) : Option Expr :=
  if form = ascii "term" then
    value.literal?.map (.compared (if isNegated then .notEqual else .equal) field)
  else if form = ascii "regexp" then
    value.literal?.map (.compared (if isNegated then .regexNotMatch else .regexMatch) field)
  else none

/-- The expression that the document of a filter was made from. -/
def source? : Json → Option Expr
  | object [(form, object [(key, value)])] =>
    if form = ascii "bool" then
      match value with
      | array [first, second] =>
        match source? first, source? second with
        | some left, some right =>
          if key = ascii "must" then some (.binary (.bare .and (ascii "and")) left right false)
          else if key = ascii "should" then some (.binary (.bare .or (ascii "or")) left right false)
          else none
        | _, _ => none
      | array [inner] => (source? inner).map (.unary (.bare .not (ascii "not")))
      | object [(form, object [(field, value)])] =>
        atom? (key = ascii "must_not") form field value
      | _ => none
    else if form = ascii "range" then
      match value with
      | object [(bound, value)] =>
        match boundKind? bound, value.literal? with
        | some kind, some right => some (.compared kind key right)
        | _, _ => none
      | _ => none
    else atom? false form key value
  | _ => none

theorem source?_term (field : Bytes) (value : Json) :
    source? (Filter.wrap (ascii "term") (Filter.wrap field value)) =
      atom? false (ascii "term") field value := by
  unfold source?
  rfl

theorem source?_range (field bound : Bytes) (value : Json) :
    source? (Filter.wrap (ascii "range") (Filter.wrap field (Filter.wrap bound value))) =
      (match boundKind? bound, value.literal? with
        | some kind, some right => some (.compared kind field right)
        | _, _ => none) := by
  unfold source?
  rfl

theorem source?_pair {occur : Occur} {kind : TokenKind} (h : connective? kind = some occur)
    {first second : Json} {left right : Expr} (hfirst : first.source? = some left)
    (hsecond : second.source? = some right) :
    source? (Filter.wrapBool occur (.array [first, second])) =
      some (.binary (.bare kind kind.keyword) left right false) := by
  unfold source?
  cases kind with
  | and | or =>
    cases h
    simp [Filter.wrapBool, Filter.wrap, hfirst, hsecond, Occur.key, TokenKind.keyword, ascii]
  | _ => cases h

theorem source?_negation {inner : Json} {arg : Expr} (h : inner.source? = some arg) :
    source? (Filter.wrapBool .mustNot (.array [inner])) =
      some (.unary (.bare .not (ascii "not")) arg) := by
  unfold source?
  simp [Filter.wrapBool, Filter.wrap, h]

end Json

/-- A token of a kind with a keyword carries that keyword. -/
theorem Token.unplaced_of_fixed {op : Token} (hspelled : Spelled op.kind op.text)
    (hfixed : op.kind.isFixed = true) : op.unplaced = .bare op.kind op.kind.keyword := by
  rw [Token.unplaced, (spelled_fixed hfixed).1 hspelled]

theorem Json.literal?_digits {digits : Bytes} (h : Numeral digits) :
    (Json.number digits).literal? = some (.number digits) ∧
      (Json.number (0x2D :: digits)).literal? =
        some (.unary (.bare .minus (ascii "-")) (.number digits)) := by
  obtain ⟨d, rest, rfl, hd⟩ := h.cons
  have hne : d ≠ 0x2D := ne_of_isDigit hd (by decide)
  simp [Json.literal?, hne]

theorem negate_digits {digits : Bytes} (h : Numeral digits) :
    negate digits = 0x2D :: digits ∧ negate (0x2D :: digits) = digits := by
  obtain ⟨d, rest, rfl, hd⟩ := h.cons
  have hne : d ≠ 0x2D := ne_of_isDigit hd (by decide)
  simp [negate, hne]

namespace Expr

/-- A value shows the core of what it was made from. -/
theorem literal?_value {e : Expr} (hops : ∀ op ∈ e.operators, Spelled op.kind op.text)
    (hnumbers : ∀ n ∈ e.numbers, Numeral n) {v : Json} (h : e.value? = some v) :
    v.literal? = some e.core := by
  induction e generalizing v with
  | identity text =>
    simp only [value?] at h
    split at h
    · next b htruth =>
      cases h
      simp only [truth?] at htruth
      split at htruth
      · next htext =>
        cases htruth
        rw [htext]
        rfl
      · split at htruth <;> cases htruth
        next htext =>
        rw [htext]
        rfl
    · split at h <;> cases h
      next hnull =>
      rw [of_decide_eq_true hnull]
      rfl
  | string text =>
    cases h
    rfl
  | number text =>
    cases h
    exact (Json.literal?_digits (hnumbers text List.mem_cons_self)).1
  | unary op arg ih =>
    obtain ⟨hop, hargs⟩ := List.forall_mem_cons.1 hops
    simp only [value?] at h
    split at h
    · next text hminus hinner =>
      cases h
      have hsign : op.unplaced = .bare .minus (ascii "-") := by
        rw [Token.unplaced_of_fixed hop (by rw [hminus]; rfl), hminus]
        rfl
      have hnumbers : ∀ n ∈ arg.numbers, Numeral n := hnumbers
      have harg := ih hargs hnumbers hinner
      obtain ⟨digits, hdigits, htext⟩ := numbers_of_value? hnumbers hinner
      have hnumeral := hnumbers digits (by simp [hdigits])
      obtain ⟨hpositive, hnegative⟩ := Json.literal?_digits hnumeral
      obtain ⟨hflip, hflop⟩ := negate_digits hnumeral
      rcases htext with rfl | rfl
      · rw [hpositive, Option.some.injEq] at harg
        rw [hflip, hnegative, core, ← harg, hsign]
        rfl
      · rw [hnegative, Option.some.injEq] at harg
        rw [hflop, hpositive, core, ← harg, hsign]
        rfl
    · cases h
  | binary => cases h

end Expr

/-- A comparison shows the core of what it was made from. -/
theorem TokenKind.source?_filter {kind : TokenKind} {field : Bytes} {right : Expr}
    {filter : Filter} (hops : ∀ op ∈ right.operators, Spelled op.kind op.text)
    (hnumbers : ∀ n ∈ right.numbers, Numeral n) (h : kind.filter field right = .ok filter) :
    filter.toJson.source? = some (.compared kind field right.core) := by
  rcases filter_eq_ok.1 h with ⟨value, hvalue, hfilter⟩ | ⟨pattern, rfl, hfilter⟩
  · have hliteral := Expr.literal?_value hops hnumbers hvalue
    rcases hfilter with ⟨rfl, rfl⟩ | ⟨rfl, rfl⟩ | ⟨bound, hbound, rfl⟩
    · rw [Filter.toJson, Json.source?_term]
      simp [Json.atom?, hliteral]
    · simp [Filter.mustNot, Filter.toJson, Filter.isMissing, Filter.wrapBool, Filter.wrap,
        Json.source?, Json.atom?, hliteral, ascii, Occur.key]
    · have hside : Json.boundKind? bound = some kind := by
        cases kind <;> cases hbound <;> rfl
      rw [Filter.toJson, Json.source?_range, hside, hliteral]
  · rcases hfilter with ⟨rfl, rfl⟩ | ⟨rfl, rfl⟩
    · simp [Filter.must, Filter.toJson, Filter.isMissing, Filter.wrapBool, Filter.wrap,
        Json.source?, Json.atom?, Json.literal?, ascii, Occur.key, Expr.core]
    · simp [Filter.mustNot, Filter.toJson, Filter.isMissing, Filter.wrapBool, Filter.wrap,
        Json.source?, Json.atom?, Json.literal?, ascii, Occur.key, Expr.core]

/-- **A document shows the core of the expression that it was made from.** -/
theorem Expr.source?_filterAt {e : Expr} (hops : ∀ op ∈ e.operators, Spelled op.kind op.text)
    (hnumbers : ∀ n ∈ e.numbers, Numeral n) {limit : Int} {depth : Nat} {filter : Filter}
    (h : e.filterAt limit depth = .ok filter) : filter.toJson.source? = some e.core := by
  induction e generalizing depth filter with
  | identity | string | number =>
    simp only [filterAt] at h
    split at h <;> cases h
  | unary op arg ih =>
    obtain ⟨hop, hargs⟩ := List.forall_mem_cons.1 hops
    obtain ⟨-, hnot, inner, hinner, rfl⟩ := filterAt_unary_eq_ok.1 h
    have hsource := ih hargs hnumbers hinner
    have hword : op.unplaced = .bare .not (ascii "not") := by
      rw [Token.unplaced_of_fixed hop (by rw [hnot]; rfl), hnot]
      rfl
    rw [core, apply_of_ne (by rw [Token.kind_unplaced, hnot]; decide), hword]
    exact Json.source?_negation hsource
  | binary op left right paren ihl ihr =>
    obtain ⟨hop, hargs⟩ := List.forall_mem_cons.1 hops
    obtain ⟨hopsl, hopsr⟩ := List.forall_mem_append.1 hargs
    obtain ⟨hnumbersl, hnumbersr⟩ := List.forall_mem_append.1 hnumbers
    rcases (filterAt_binary_eq_ok.1 h).2 with
      ⟨field, hc, hfield, hmade⟩ | ⟨-, occur, first, second, hoccur, hfirst, hsecond, rfl⟩
    · have hfixed : op.kind.isFixed = true := by
        cases hkind : op.kind <;> rw [hkind] at hc <;> first | rfl | cases hc
      obtain ⟨rfl, -⟩ := field_eq_ok.1 hfield
      rw [core, Token.unplaced_of_fixed hop hfixed]
      exact TokenKind.source?_filter hopsr hnumbersr hmade
    · have hfixed : op.kind.isFixed = true := by
        cases hkind : op.kind <;> rw [hkind] at hoccur <;> first | rfl | cases hoccur
      rw [core, Token.unplaced_of_fixed hop hfixed]
      exact Json.source?_pair hoccur (ihl hopsl hnumbersl hfirst) (ihr hopsr hnumbersr hsecond)

/-! ## The filter of a core -/

namespace Expr

theorem value?_core {e : Expr} (hops : ∀ op ∈ e.operators, Spelled op.kind op.text)
    (hnumbers : ∀ n ∈ e.numbers, Numeral n) {v : Json} (h : e.value? = some v) :
    e.core.value? = some v := by
  have hcore := literal?_value hops hnumbers h
  rcases value?_cases h with ⟨text, rfl⟩ | ⟨-, rfl | ⟨b, rfl⟩ | ⟨text, -, rfl⟩⟩
  · obtain ⟨digits, hdigits, htext⟩ := numbers_of_value? hnumbers h
    have hnumeral := hnumbers digits (by simp [hdigits])
    obtain ⟨hpositive, hnegative⟩ := Json.literal?_digits hnumeral
    rcases htext with rfl | rfl
    · rw [hpositive, Option.some.injEq] at hcore
      rw [← hcore, value?]
    · rw [hnegative, Option.some.injEq] at hcore
      rw [← hcore, ← (negate_digits hnumeral).1]
      rfl
  · rw [← Option.some.inj hcore]
    rfl
  · cases b <;> rw [← Option.some.inj hcore] <;> rfl
  · rw [← Option.some.inj hcore]
    rfl

theorem filter_core {kind : TokenKind} {field : Bytes} {right : Expr} {filter : Filter}
    (hops : ∀ op ∈ right.operators, Spelled op.kind op.text)
    (hnumbers : ∀ n ∈ right.numbers, Numeral n) (h : kind.filter field right = .ok filter) :
    kind.filter field right.core = .ok filter := by
  rcases TokenKind.filter_eq_ok.1 h with ⟨value, hvalue, hfilter⟩ | ⟨pattern, rfl, -⟩
  · exact TokenKind.filter_eq_ok.2 (.inl ⟨value, value?_core hops hnumbers hvalue, hfilter⟩)
  · exact h

theorem continuesRun_core {e : Expr} {kind : TokenKind} (h : e.continuesRun kind = true) :
    e.core.continuesRun kind = true := by
  cases e with
  | binary op left right paren =>
    simp only [continuesRun, Bool.and_eq_true] at h
    exact h.2
  | _ => cases h

/-- **The core of an expression has the same filter**, on any level above and within any limit
below. -/
theorem filterAt_core {e : Expr} (hops : ∀ op ∈ e.operators, Spelled op.kind op.text)
    (hnumbers : ∀ n ∈ e.numbers, Numeral n) {limit limit' : Int} {depth depth' : Nat}
    {filter : Filter} (h : e.filterAt limit depth = .ok filter) (hlimit : limit ≤ limit')
    (hdepth : depth' ≤ depth) : e.core.filterAt limit' depth' = .ok filter := by
  induction e generalizing depth depth' filter with
  | identity | string | number =>
    simp only [filterAt] at h
    split at h <;> cases h
  | unary op arg ih =>
    obtain ⟨hop, hargs⟩ := List.forall_mem_cons.1 hops
    obtain ⟨hle, hnot, inner, hinner, rfl⟩ := filterAt_unary_eq_ok.1 h
    rw [core, apply_of_ne (by rw [Token.kind_unplaced, hnot]; decide)]
    refine filterAt_unary_eq_ok.2 ⟨by omega, hnot, inner, ?_, rfl⟩
    exact ih hargs hnumbers hinner (by omega)
  | binary op left right paren ihl ihr =>
    obtain ⟨hop, hargs⟩ := List.forall_mem_cons.1 hops
    obtain ⟨hopsl, hopsr⟩ := List.forall_mem_append.1 hargs
    obtain ⟨hnumbersl, hnumbersr⟩ := List.forall_mem_append.1 hnumbers
    obtain ⟨hle, hmade⟩ := filterAt_binary_eq_ok.1 h
    refine filterAt_binary_eq_ok.2 ⟨by omega, ?_⟩
    rcases hmade with
      ⟨field, hc, hfield, hmade⟩ | ⟨hc, occur, first, second, hoccur, hfirst, hsecond, rfl⟩
    · obtain ⟨rfl, -⟩ := field_eq_ok.1 hfield
      exact .inl ⟨field, hc, hfield, filter_core hopsr hnumbersr hmade⟩
    · refine .inr ⟨hc, occur, first, second, hoccur, ihl hopsl hnumbersl hfirst ?_,
        ihr hopsr hnumbersr hsecond (by omega), rfl⟩
      -- A run may go on in the core where parentheses interrupted it before.
      by_cases hrun : left.continuesRun op.kind = true
      · have hcore : left.core.continuesRun op.unplaced.kind = true := continuesRun_core hrun
        rw [if_pos hrun, if_pos hcore]
        exact hdepth
      · rw [if_neg hrun]
        split <;> omega

end Expr

/-! ## Texts without stray bytes -/

theorem TokenKind.sanitized_filter {kind : TokenKind} {field : Bytes} {right : Expr}
    {filter : Filter} (hstrings : ∀ t ∈ right.strings, Utf8.isValid t = true)
    (h : kind.filter field right = .ok filter) : filter.sanitized = filter := by
  rcases filter_eq_ok.1 h with ⟨value, hvalue, hfilter⟩ | ⟨pattern, rfl, hfilter⟩
  · have hclean : value.sanitized = value := by
      rcases Expr.value?_cases hvalue with ⟨text, rfl⟩ | ⟨-, rfl | ⟨b, rfl⟩ | ⟨text, rfl, rfl⟩⟩
      · rfl
      · rfl
      · rfl
      · rw [Json.sanitized, Utf8.sanitize_of_isValid (hstrings text List.mem_cons_self)]
    rcases hfilter with ⟨-, rfl⟩ | ⟨-, rfl⟩ | ⟨bound, -, rfl⟩ <;>
      simp only [Filter.mustNot, Filter.sanitized, hclean]
  · have hclean := Utf8.sanitize_of_isValid (hstrings pattern List.mem_cons_self)
    rcases hfilter with ⟨-, rfl⟩ | ⟨-, rfl⟩ <;>
      simp only [Filter.must, Filter.mustNot, Filter.sanitized, hclean]

theorem Expr.sanitized_filterAt {e : Expr} (hstrings : ∀ t ∈ e.strings, Utf8.isValid t = true)
    {limit : Int} {depth : Nat} {filter : Filter} (h : e.filterAt limit depth = .ok filter) :
    filter.sanitized = filter := by
  induction e generalizing depth filter with
  | identity | string | number =>
    simp only [filterAt] at h
    split at h <;> cases h
  | unary op arg ih =>
    obtain ⟨-, -, inner, hinner, rfl⟩ := filterAt_unary_eq_ok.1 h
    simp only [Filter.negation, Filter.sanitized, Filter.sanitizedList, ih hstrings hinner]
  | binary op left right paren ihl ihr =>
    obtain ⟨hleft, hright⟩ := List.forall_mem_append.1 hstrings
    rcases (filterAt_binary_eq_ok.1 h).2 with
      ⟨field, -, -, hmade⟩ | ⟨-, occur, first, second, -, hfirst, hsecond, rfl⟩
    · exact TokenKind.sanitized_filter hright hmade
    · simp only [Filter.sanitized, Filter.sanitizedList, ihl hleft hfirst, ihr hright hsecond]

/-! ## Faithful documents -/

theorem Phrase.mem_tokens_of_mem_operators {q : Phrase} {paren : Bool} {op : Token}
    (h : op ∈ (q.treeIn paren).operators) : op ∈ q.tokens := by
  induction q generalizing paren with
  | literal t =>
    simp only [treeIn, literalTree] at h
    split at h <;> cases h
  | group opening inner closing ih => simp [tokens, ih h]
  | applied op' arg ih =>
    rcases List.mem_cons.1 h with rfl | h
    · simp [tokens]
    · simp [tokens, ih h]
  | joined left op' right ihl ihr =>
    rcases List.mem_cons.1 h with rfl | h
    · simp [tokens]
    · rcases List.mem_append.1 h with h | h
      · simp [tokens, ihl h]
      · simp [tokens, ihr h]
  | matched left op' pattern ih =>
    simp only [treeIn, Expr.operators, List.append_nil] at h
    rcases List.mem_cons.1 h with rfl | h
    · simp [tokens]
    · simp [tokens, ih h]

/-- Operators come out of a parse with the tokens that they were read from. -/
theorem spelled_of_parse {limit : Int} {input : Bytes} {e : Expr} (h : parse limit input = .ok e) :
    ∀ op ∈ e.operators, Spelled op.kind op.text := by
  obtain ⟨q, p, hlex, -, -, rfl⟩ := exists_phrase h
  exact fun op hop => hlex.spelled op (Phrase.mem_tokens_of_mem_operators hop)

/-- The document of a compilation reads back as the envelope around its filter. -/
theorem read_of_compile {limits : Limits} {input : Bytes} {c : Compiled} {e : Expr}
    (h : compile limits input = .ok c) (hparse : parse limits.expression input = .ok e) :
    ∃ filter, e.filterAt limits.filter 0 = .ok filter ∧ c.query = .ofFilter filter ∧
      c.document = c.query.toJson.render ∧
      Json.read c.document = .ok (Query.ofFilter filter.sanitized).toJson ∧
      Json.NoControl c.document := by
  obtain ⟨e', hparse', hgenerate, hzero, hdepth, hdocument⟩ := compile_eq_ok_iff.1 h
  obtain rfl : e = e' := Except.ok.inj (hparse.symm.trans hparse')
  obtain ⟨filter, hfilter, hquery⟩ := Except.map_eq_ok.1 hgenerate
  have hnumbers := numeral_of_parse hparse
  have hbad := (Expr.filterAt_toJson hnumbers hfilter).2.2 hzero
  rw [← hquery] at hdepth
  refine ⟨filter, hfilter, hquery.symm, hdocument, ?_, ?_⟩
  · rw [hdocument, ← hquery]
    exact Query.read_ofFilter hbad hdepth (Expr.reread_filterAt hnumbers hfilter)
  · rw [hdocument, ← hquery]
    exact Json.noControl_render ((Query.badNumber?_ofFilter filter).2 hbad)

theorem Query.toJson_ofFilter_inj {filter filter' : Filter}
    (h : (ofFilter filter).toJson = (ofFilter filter').toJson) :
    filter.toJson = filter'.toJson := by
  simpa [ofFilter, toJson, Filter.wrap, Filter.toJsonList] using h

/-- **Documents carry exactly their filters.** A document reads back as the envelope around the one
filter of its expression, with fields and numbers as they are and texts without stray bytes; it has
no control bytes. Two texts with valid strings compile to the same document just when the cores of
their expressions are the same. -/
theorem document_faithful :
    (∀ limits input c, compile limits input = .ok c →
      ∃ e filter, parse limits.expression input = .ok e ∧
        e.filterAt limits.filter 0 = .ok filter ∧ c.query = .ofFilter filter ∧
        Json.read c.document = .ok (Query.ofFilter filter.sanitized).toJson ∧
        ∀ b ∈ c.document, 0x20 ≤ b) ∧
    ∀ limits limits' input input' c c' e e', compile limits input = .ok c →
      compile limits' input' = .ok c' → parse limits.expression input = .ok e →
      parse limits'.expression input' = .ok e' → (∀ t ∈ e.strings, Utf8.isValid t = true) →
      (∀ t ∈ e'.strings, Utf8.isValid t = true) →
      (c.document = c'.document ↔ e.core = e'.core) := by
  refine ⟨fun limits input c hc => ?_, ?_⟩
  · obtain ⟨e, hparse, -⟩ := compile_eq_ok_iff.1 hc
    obtain ⟨filter, hfilter, hquery, -, hread, hcontrol⟩ := read_of_compile hc hparse
    exact ⟨e, filter, hparse, hfilter, hquery, hread, hcontrol⟩
  · intro limits limits' input input' c c' e e' hc hc' hparse hparse' hvalid hvalid'
    obtain ⟨filter, hfilter, hquery, hdocument, hread, -⟩ := read_of_compile hc hparse
    obtain ⟨filter', hfilter', hquery', hdocument', hread', -⟩ := read_of_compile hc' hparse'
    constructor
    · intro hsame
      rw [Expr.sanitized_filterAt hvalid hfilter] at hread
      rw [← hsame, hread, Expr.sanitized_filterAt hvalid' hfilter'] at hread'
      have hsource :=
        Expr.source?_filterAt (spelled_of_parse hparse) (numeral_of_parse hparse) hfilter
      rw [Query.toJson_ofFilter_inj (Except.ok.inj hread'), Expr.source?_filterAt
        (spelled_of_parse hparse') (numeral_of_parse hparse') hfilter'] at hsource
      exact (Option.some.inj hsource).symm
    · intro hcore
      -- Both filters are that of the core, within the larger of the two limits.
      have hleft := Expr.filterAt_core (spelled_of_parse hparse) (numeral_of_parse hparse) hfilter
        (Int.le_max_left limits.filter limits'.filter) le_rfl
      have hright := Expr.filterAt_core (spelled_of_parse hparse') (numeral_of_parse hparse')
        hfilter' (Int.le_max_right limits.filter limits'.filter) le_rfl
      rw [hcore, hright] at hleft
      rw [hdocument, hdocument', hquery, hquery', Except.ok.inj hleft]

/-- Parentheses and a pair of signs leave no trace in a document, quotes do. -/
theorem document_faithful_signs : ∃ c c' c'',
    compile {} (ascii "a == 1") = .ok c ∧ compile {} (ascii "(a == --1)") = .ok c' ∧
    compile {} (ascii "a == \"1\"") = .ok c'' ∧
    Json.read c.document =
      .ok (Query.ofFilter (.term (ascii "a") (.number (ascii "1")))).toJson ∧
    c.document = c'.document ∧ c.document ≠ c''.document := by
  let a : Expr := .identity (ascii "a")
  let one : Expr := .number (ascii "1")
  have hparse : parse defaultDepth (ascii "a == 1") =
      .ok (.binary (.onLine 2 .equal "==") a one false) := by decide
  have hparse' : parse defaultDepth (ascii "(a == --1)") =
      .ok (.binary (.onLine 3 .equal "==") a
        (.unary (.onLine 6 .minus "-") (.unary (.onLine 7 .minus "-") one)) true) := by decide
  have hparse'' : parse defaultDepth (ascii "a == \"1\"") =
      .ok (.binary (.onLine 2 .equal "==") a (.string (ascii "1")) false) := by decide
  obtain ⟨c, hc⟩ := Except.exists_of_isOk
    (by decide +kernel : (compile {} (ascii "a == 1")).isOk = true)
  obtain ⟨c', hc'⟩ := Except.exists_of_isOk
    (by decide +kernel : (compile {} (ascii "(a == --1)")).isOk = true)
  obtain ⟨c'', hc''⟩ := Except.exists_of_isOk
    (by decide +kernel : (compile {} (ascii "a == \"1\"")).isOk = true)
  refine ⟨c, c', c'', hc, hc', hc'', ?_, ?_, ?_⟩
  · obtain ⟨e, filter, he, hfilter, -, hread, -⟩ := document_faithful.1 _ _ _ hc
    cases hparse.symm.trans he
    cases hfilter
    exact hread
  · refine (document_faithful.2 _ _ _ _ _ _ _ _ hc hc' hparse hparse' ?_ ?_).2 ?_ <;> decide
  · refine mt (document_faithful.2 _ _ _ _ _ _ _ _ hc hc'' hparse hparse'' ?_ ?_).1 ?_ <;> decide

end FilterQuery
