import FilterQuery.Proofs.Depth
import FilterQuery.Proofs.Runs
import FilterQuery.Proofs.Stopping
import Mathlib.Logic.Relation

/-!
# Redundant parentheses

Parentheses around a phrase that needs none change nothing but how deep the text is nested.

**Theorem (`compile_parentheses`).** Expressions that differ in the marks of parentheses and in
places only have the same filter, if they have one, and an expression that has one keeps it without
the marks. A text with more pairs of parentheses around its phrases compiles to the same query and
document, unless one of the two limits on depth is exceeded; around the whole text only the limit on
expressions can be.

**Filters.** A mark only decides whether a left operand continues a run, and so at which depth it
stands. Without marks everything stands as high as possible (`Expr.filterAt_ungrouped`), and with
marks nothing but depth can get in the way (`Expr.filterAt_of_ungrouped`).

**Texts.** A phrase stands in a `Phrase.Context`. The parentheses are put in at the offsets of its
first and behind its last token (`Bytes.enclose`); what is laid out around and inside them keeps its
tokens up to their places (`Laid.enclose`), and they are those of the context around a group.
-/

namespace FilterQuery

/-! ## Expressions without marks -/

namespace Expr

/-- The expression without the marks that parentheses leave. -/
def ungrouped : Expr → Expr
  | unary op arg => unary op arg.ungrouped
  | binary op left right _ => binary op left.ungrouped right.ungrouped false
  | e => e

theorem ungrouped_unplaced (e : Expr) : e.unplaced.ungrouped = e.ungrouped.unplaced := by
  induction e with
  | identity | string | number => rfl
  | unary op arg ih => simp only [unplaced, ungrouped, ih]
  | binary op left right paren ihl ihr => simp only [unplaced, ungrouped, ihl, ihr]

theorem ungrouped_grouped (e : Expr) : e.grouped.ungrouped = e.ungrouped := by
  cases e <;> rfl

theorem grouped_unplaced (e : Expr) : e.unplaced.grouped = e.grouped.unplaced := by
  cases e <;> rfl

theorem grouped_grouped (e : Expr) : e.grouped.grouped = e.grouped := by
  cases e <;> rfl

theorem field_ungrouped {e : Expr} {field : Bytes} :
    e.ungrouped.field = .ok field ↔ e.field = .ok field := by
  rw [field_eq_ok, field_eq_ok]
  cases e <;> simp [ungrouped]

theorem value?_ungrouped (e : Expr) : e.ungrouped.value? = e.value? := by
  induction e with
  | identity | string | number | binary => rfl
  | unary op arg ih => simp only [ungrouped, value?, ih]

theorem ungrouped_eq_string {e : Expr} {text : Bytes} :
    e.ungrouped = .string text ↔ e = .string text := by
  cases e <;> simp [ungrouped]

theorem continuesRun_ungrouped {e : Expr} {kind : TokenKind} (h : e.continuesRun kind = true) :
    e.ungrouped.continuesRun kind = true := by
  cases e with
  | identity | string | number | unary => cases h
  | binary op left right paren => exact (Bool.and_eq_true_iff.1 h).2

end Expr

theorem TokenKind.filter_ungrouped {kind : TokenKind} {field : Bytes} {right : Expr}
    {filter : Filter} :
    kind.filter field right.ungrouped = .ok filter ↔ kind.filter field right = .ok filter := by
  simp only [filter_eq_ok, Expr.value?_ungrouped, Expr.ungrouped_eq_string]

namespace Expr

variable {e e' : Expr} {limit : Int} {depth : Nat} {filter : Filter}

/-- The root of an expression may be marked. -/
theorem filterAt_grouped : e.grouped.filterAt limit depth = .ok filter ↔
    e.filterAt limit depth = .ok filter := by
  cases e with
  | identity | string | number | unary => exact Iff.rfl
  | binary op left right paren => rw [grouped, filterAt_binary_eq_ok, filterAt_binary_eq_ok]

/-- **Marks can be cleared**, and the expression may also stand higher. -/
theorem filterAt_ungrouped (h : e.filterAt limit depth = .ok filter) {depth' : Nat}
    (hle : depth' ≤ depth) : e.ungrouped.filterAt limit depth' = .ok filter := by
  induction e generalizing depth depth' filter with
  | identity | string | number =>
    simp only [filterAt] at h
    split at h <;> cases h
  | unary op arg ih =>
    obtain ⟨hfits, hop, inner, hinner, rfl⟩ := filterAt_unary_eq_ok.1 h
    exact filterAt_unary_eq_ok.2 ⟨by omega, hop, inner, ih hinner (by omega), rfl⟩
  | binary op left right paren ihl ihr =>
    obtain ⟨hfits, hcompared | hjoined⟩ := filterAt_binary_eq_ok.1 h
    · obtain ⟨field, hc, hfield, hfilter⟩ := hcompared
      exact filterAt_binary_eq_ok.2 ⟨by omega, .inl ⟨field, hc, field_ungrouped.2 hfield,
        TokenKind.filter_ungrouped.2 hfilter⟩⟩
    · obtain ⟨hc, occur, first, second, hoccur, hfirst, hsecond, rfl⟩ := hjoined
      refine filterAt_binary_eq_ok.2 ⟨by omega, .inr ⟨hc, occur, first, second, hoccur,
        ihl hfirst ?_, ihr hsecond (by omega), rfl⟩⟩
      by_cases hrun : left.continuesRun op.kind = true
      · rw [if_pos hrun, if_pos (continuesRun_ungrouped hrun)]
        exact hle
      · rw [if_neg hrun]
        split <;> omega

/-- **Marks do not change a filter.** They can only push something below the limit. -/
theorem filterAt_of_ungrouped (h : e.ungrouped.filterAt limit depth = .ok filter) (limit' : Int)
    (depth' : Nat) : e.filterAt limit' depth' = .ok filter ∨
      ∃ n v, Visits limit' depth' e n v ∧ limit' < n := by
  induction e generalizing depth depth' filter with
  | identity | string | number =>
    simp only [ungrouped, filterAt] at h
    split at h <;> cases h
  | unary op arg ih =>
    obtain ⟨-, hop, inner, hinner, rfl⟩ := filterAt_unary_eq_ok.1 h
    by_cases hfits : (depth' : Int) ≤ limit'
    · rcases ih hinner (depth' + 1) with harg | ⟨n, v, hv, hlt⟩
      · exact .inl (filterAt_unary_eq_ok.2 ⟨hfits, hop, inner, harg, rfl⟩)
      · exact .inr ⟨n, v, .negated hfits hop hv, hlt⟩
    · exact .inr ⟨depth', _, .here _ _, Int.not_le.1 hfits⟩
  | binary op left right paren ihl ihr =>
    by_cases hfits : (depth' : Int) ≤ limit'
    · obtain ⟨-, hcompared | hjoined⟩ := filterAt_binary_eq_ok.1 h
      · obtain ⟨field, hc, hfield, hfilter⟩ := hcompared
        exact .inl (filterAt_binary_eq_ok.2 ⟨hfits, .inl ⟨field, hc, field_ungrouped.1 hfield,
          TokenKind.filter_ungrouped.1 hfilter⟩⟩)
      · obtain ⟨hc, occur, first, second, hoccur, hfirst, hsecond, rfl⟩ := hjoined
        -- The operands come in their order, and what lies too deep on the left hides the right.
        rcases ihl hfirst (if left.continuesRun op.kind then depth' else depth' + 1) with
          hleft | ⟨n, v, hv, hlt⟩
        · rcases ihr hsecond (depth' + 1) with hright | ⟨n, v, hv, hlt⟩
          · exact .inl (filterAt_binary_eq_ok.2 ⟨hfits, .inr ⟨hc, occur, first, second, hoccur,
              hleft, hright, rfl⟩⟩)
          · exact .inr ⟨n, v, .right hfits hoccur hleft hv, hlt⟩
        · exact .inr ⟨n, v, .left hfits hoccur hv, hlt⟩
    · exact .inr ⟨depth', _, .here _ _, Int.not_le.1 hfits⟩

/-- **Expressions with the same filters.** What differs in marks and places only has the same
filter, unless something in it lies too deep. -/
theorem filterAt_of_same (hsame : e.unplaced.ungrouped = e'.unplaced.ungrouped)
    (h : e.filterAt limit depth = .ok filter) (limit' : Int) (depth' : Nat) :
    e'.filterAt limit' depth' = .ok filter ∨
      ∃ doc, e'.filterAt limit' depth' = .error ⟨doc, .tooDeep limit'⟩ := by
  rw [← filterAt_unplaced] at h
  have hclear := filterAt_ungrouped h le_rfl
  rw [hsame] at hclear
  rw [← e'.filterAt_unplaced]
  rcases filterAt_of_ungrouped hclear limit' depth' with hok | ⟨n, v, hv, hlt⟩
  · exact .inl hok
  · exact .inr (hv.exists_tooDeep hlt)

end Expr

/-! ## Phrases in their context -/

namespace Phrase

/-- A phrase with a hole where another phrase can stand. The pattern of a match is a token and no
phrase, so that no hole is left in its place. -/
inductive Context where
  | hole
  | group (opening : Token) (around : Context) (closing : Token)
  | applied (op : Token) (around : Context)
  | leftOf (around : Context) (op : Token) (right : Phrase)
  | rightOf (left : Phrase) (op : Token) (around : Context)
  | matched (around : Context) (op pattern : Token)
deriving Repr, DecidableEq

namespace Context

/-- The phrase with another one in the place of the hole. -/
def fill (r : Phrase) : Context → Phrase
  | hole => r
  | group opening around closing => .group opening (around.fill r) closing
  | applied op around => .applied op (around.fill r)
  | leftOf around op right => .joined (around.fill r) op right
  | rightOf left op around => .joined left op (around.fill r)
  | matched around op pattern => .matched (around.fill r) op pattern

/-- The tokens in front of the hole. -/
def before : Context → List Token
  | hole => []
  | group opening around _ => opening :: around.before
  | applied op around => op :: around.before
  | leftOf around _ _ => around.before
  | rightOf left op around => left.tokens ++ op :: around.before
  | matched around _ _ => around.before

/-- The tokens behind the hole. -/
def after : Context → List Token
  | hole => []
  | group _ around closing => around.after ++ [closing]
  | applied _ around => around.after
  | leftOf around op right => around.after ++ op :: right.tokens
  | rightOf _ _ around => around.after
  | matched around op pattern => around.after ++ [op, pattern]

/-- Whether nothing but parentheses stand around the hole. -/
def isGroup : Context → Bool
  | hole => true
  | group _ around _ => around.isGroup
  | _ => false

theorem tokens_fill (around : Context) (r : Phrase) :
    (around.fill r).tokens = around.before ++ (r.tokens ++ around.after) := by
  induction around with
  | hole => simp [fill, before, after]
  | group | applied | leftOf | rightOf | matched => simp_all [fill, before, after, tokens]

variable {r r' : Phrase}

/-- A phrase may be replaced by one that can stand wherever the first one can. -/
theorem derives_fill (hr : ∀ s, Derives s r → Derives s r') {s : Stratum} (around : Context)
    (h : Derives s (around.fill r)) : Derives s (around.fill r') := by
  generalize hq : around.fill r = q at h
  induction h generalizing around with
  | tighter _ ih => exact .tighter (ih around hq)
  | literal ht =>
    cases around with
    | hole =>
      obtain rfl : r = _ := hq
      exact hr _ (.literal ht)
    | _ => cases hq
  | group ho hp hc ih =>
    cases around with
    | hole =>
      obtain rfl : r = _ := hq
      exact hr _ (.group ho hp hc)
    | group _ around =>
      cases hq
      exact .group ho (ih around rfl) hc
    | _ => cases hq
  | applied hop hp ih =>
    cases around with
    | hole =>
      obtain rfl : r = _ := hq
      exact hr _ (.applied hop hp)
    | applied _ around =>
      cases hq
      exact .applied hop (ih around rfl)
    | _ => cases hq
  | matched hp hop hpat ih =>
    cases around with
    | hole =>
      obtain rfl : r = _ := hq
      exact hr _ (.matched hp hop hpat)
    | matched around =>
      cases hq
      exact .matched (ih around rfl) hop hpat
    | _ => cases hq
  | joined hp hop hp' ihl ihr =>
    cases around with
    | hole =>
      obtain rfl : r = _ := hq
      exact hr _ (.joined hp hop hp')
    | leftOf around =>
      cases hq
      exact .joined (ihl around rfl) hop hp'
    | rightOf _ _ around =>
      cases hq
      exact .joined hp hop (ihr around rfl)
    | _ => cases hq

/-- Parentheses around a phrase only leave marks. -/
theorem ungrouped_fill_enclosed (around : Context) (r : Phrase) (paren : Bool) :
    ((around.fill (trimIn.enclosed true r)).treeIn paren).ungrouped =
      ((around.fill r).treeIn paren).ungrouped := by
  induction around generalizing paren with
  | hole =>
    show (r.treeIn true).ungrouped = (r.treeIn paren).ungrouped
    rw [r.treeIn_true paren, Expr.ungrouped_grouped]
  | group _ around _ ih => exact ih true
  | applied | leftOf | rightOf | matched => simp_all [fill, treeIn, Expr.ungrouped]

/-- Parentheses inside parentheses leave the same mark. -/
theorem grouped_fill_enclosed {around : Context} (h : around.isGroup = true) (r : Phrase)
    (paren : Bool) :
    ((around.fill (trimIn.enclosed true r)).treeIn paren).grouped =
      ((around.fill r).treeIn paren).grouped := by
  induction around generalizing paren with
  | hole =>
    show (r.treeIn true).grouped = (r.treeIn paren).grouped
    rw [r.treeIn_true paren, Expr.grouped_grouped]
  | group _ around _ ih => exact ih h true
  | applied | leftOf | rightOf | matched => cases h

end Context

/-- The first token. -/
def first : Phrase → Token
  | literal t => t
  | group opening _ _ => opening
  | applied op _ => op
  | joined left _ _ => left.first
  | matched left _ _ => left.first

/-- The last token. -/
def last : Phrase → Token
  | literal t => t
  | group _ _ closing => closing
  | applied _ arg => arg.last
  | joined _ _ right => right.last
  | matched _ _ pattern => pattern

theorem exists_tokens_first (q : Phrase) : ∃ rest, q.tokens = q.first :: rest := by
  induction q with
  | literal | group | applied => exact ⟨_, rfl⟩
  | joined left op right ih _ =>
    obtain ⟨rest, hrest⟩ := ih
    exact ⟨rest ++ op :: right.tokens, by rw [tokens, hrest]; rfl⟩
  | matched left op pattern ih =>
    obtain ⟨rest, hrest⟩ := ih
    exact ⟨rest ++ [op, pattern], by rw [tokens, hrest]; rfl⟩

theorem exists_tokens_last (q : Phrase) : ∃ rest, q.tokens = rest ++ [q.last] := by
  induction q with
  | literal t => exact ⟨[], rfl⟩
  | group opening inner closing => exact ⟨opening :: inner.tokens, rfl⟩
  | applied op arg ih =>
    obtain ⟨rest, hrest⟩ := ih
    exact ⟨op :: rest, by rw [tokens, hrest]; rfl⟩
  | joined left op right _ ih =>
    obtain ⟨rest, hrest⟩ := ih
    exact ⟨left.tokens ++ op :: rest, by simp [tokens, last, hrest]⟩
  | matched left op pattern => exact ⟨left.tokens ++ [op], by simp [tokens, last]⟩

end Phrase

/-! ## Parentheses in a text -/

/-- The offset behind the lexeme of a token. -/
def Token.stop (t : Token) : Nat :=
  t.pos + (lexeme t.kind t.text).length

/-- The text with a pair of parentheses around the part between two offsets. -/
def Bytes.enclose (text : Bytes) (start stop : Nat) : Bytes :=
  text.take start ++ (ascii "(" ++ ((text.take stop).drop start ++ (ascii ")" ++ text.drop stop)))

theorem Bytes.enclose_append (front span back : Bytes) :
    (front ++ (span ++ back)).enclose front.length (front.length + span.length) =
      front ++ (ascii "(" ++ (span ++ (ascii ")" ++ back))) := by
  simp [enclose, List.take_append, List.drop_append]

namespace Laid

variable {p p₁ p₂ : Position} {text front span back : Bytes} {before middle after : List Token}

/-- A layout comes apart in front of a token and behind it. -/
theorem split {t : Token} (h : Laid p text (before ++ t :: after)) :
    ∃ front rest, text = front ++ (lexeme t.kind t.text ++ rest) ∧
      t.pos = p.offset + front.length ∧ Laid p front before ∧
      Laid p (front ++ lexeme t.kind t.text) (before ++ [t]) ∧
      Laid (p.advance front) (lexeme t.kind t.text ++ rest) (t :: after) ∧
      Laid (p.advance (front ++ lexeme t.kind t.text)) rest after := by
  induction before generalizing p text with
  | nil =>
    cases h with
    | @token _ gap text rest kind _ hgap hspelled hapart hrest =>
      refine ⟨gap, rest, rfl, p.offset_advance gap, .blank hgap, ?_, ?_, ?_⟩
      · have hend : Apart kind text ([] ++ rest) := hapart
        have hlaid := Laid.token (p := p) hgap hspelled hend.of_append (.blank .nil)
        rwa [List.append_nil] at hlaid
      · exact .token (p := p.advance gap) .nil hspelled hapart hrest
      · rwa [Position.advance_append]
  | cons t' before ih =>
    cases h with
    | @token _ gap text rest kind _ hgap hspelled hapart hrest =>
      obtain ⟨front, rest, rfl, hpos, hfront, hthrough, hfrom, hbehind⟩ := ih hrest
      have hapart' : Apart kind text ((front ++ lexeme t.kind t.text) ++ rest) := by
        rwa [List.append_assoc]
      refine ⟨gap ++ (lexeme kind text ++ front), rest, by simp, ?_, ?_, ?_, ?_, ?_⟩
      · rw [hpos, Position.offset_advance, Position.offset_advance, List.length_append,
          List.length_append]
        omega
      · exact .token hgap hspelled hapart.of_append hfront
      · have hlaid := Laid.token hgap hspelled hapart'.of_append hthrough
        simpa using hlaid
      · rwa [Position.advance_append, Position.advance_append]
      · simpa [Position.advance_append] using hbehind

/-- **A phrase has a layout of its own** inside another one, between the offsets of its first and
behind its last token. -/
theorem cut {r : Phrase} (h : Laid p text (before ++ (r.tokens ++ after))) :
    ∃ front span back, text = front ++ (span ++ back) ∧
      r.first.pos = p.offset + front.length ∧
      r.last.stop = p.offset + front.length + span.length ∧ Laid p front before ∧
      Laid (p.advance front) span r.tokens ∧
      Laid ((p.advance front).advance span) back after := by
  obtain ⟨tail, htail⟩ := r.exists_tokens_first
  obtain ⟨init, hinit⟩ := r.exists_tokens_last
  rw [htail, List.cons_append] at h
  obtain ⟨front, rest, rfl, hstart, hfront, -, hfrom, -⟩ := h.split
  rw [← List.cons_append, ← htail, hinit, List.append_assoc, List.singleton_append] at hfrom
  obtain ⟨inner, back, htext, hend, -, hspan, -, hback⟩ := hfrom.split
  refine ⟨front, inner ++ lexeme r.last.kind r.last.text, back, ?_, hstart, ?_, hfront, ?_, hback⟩
  · rw [htext, List.append_assoc]
  · rw [Token.stop, hend, Position.offset_advance, List.length_append]
    omega
  · rwa [hinit]

/-- A parenthesis stands in front of a layout. -/
theorem paren (kind : TokenKind) (hfixed : kind.isFixed = true) (hclosed : kind.isClosed = true)
    {tokens : List Token} (h : Laid (p.advance kind.keyword) text tokens) :
    Laid p (kind.keyword ++ text) (.located p kind kind.keyword :: tokens) := by
  have hlexeme : lexeme kind kind.keyword = kind.keyword := lexeme_fixed hfixed _
  have hapart : Apart kind kind.keyword text := Detached.apart fun hopen => by simp_all
  have hlaid : Laid p ([] ++ (lexeme kind kind.keyword ++ text))
      (.located (p.advance []) kind kind.keyword :: tokens) := by
    refine .token .nil ((spelled_fixed hfixed).2 rfl) hapart ?_
    rw [hlexeme]
    exact h
  rwa [hlexeme] at hlaid

/-- **A pair of parentheses adds two tokens**, and the others keep all but their places. -/
theorem enclose (hfront : Laid p front before) (hspan : Laid p₁ span middle)
    (hback : Laid p₂ back after) : ∃ found : List Token,
      Laid p (front ++ (ascii "(" ++ (span ++ (ascii ")" ++ back)))) found ∧
      found.map Token.unplaced = (before ++ (.bare .leftParen (ascii "(") ::
        (middle ++ .bare .rightParen (ascii ")") :: after))).map Token.unplaced := by
  let opened := (p.advance front).advance (ascii "(")
  obtain ⟨middle', hspan, hmiddle⟩ := hspan.relocate opened
  obtain ⟨after', hback, hafter⟩ :=
    hback.relocate ((opened.advance span).advance (ascii ")"))
  have hclosing := paren .rightParen rfl rfl hback
  have hinner := hspan.append_detached (detached_closing back) hclosing
  have hopening := paren .leftParen rfl rfl hinner
  have hdetached : Detached (ascii "(" ++ (span ++ (ascii ")" ++ back))) := by
    rintro b ⟨⟩
    decide
  refine ⟨_, hfront.append_detached hdetached hopening, ?_⟩
  simp only [List.map_append, List.map_cons, hmiddle, hafter]
  rfl

end Laid

/-! ## Readings -/

/-- The text is laid out as a phrase of the grammar. -/
structure Reading (text : Bytes) (q : Phrase) : Prop where
  derives : Derives .disjunction q
  laid : Laid .start text q.tokens

namespace Reading

variable {text : Bytes} {q q' : Phrase} {limit : Int}

theorem unique (h : Reading text q) (h' : Reading text q') : q = q' := by
  have htokens := ((h.laid.lexes text).unique (h'.laid.lexes text)).1
  exact (h.derives.cancel h'.derives (congrArg (· ++ []) htokens) nofun nofun).1

theorem parse_eq_ok (h : Reading text q) {e : Expr} :
    parse limit text = .ok e ↔ (q.nesting : Int) ≤ limit ∧ q.tree = e :=
  h.derives.parse_eq_ok (h.laid.lexes text)

theorem of_sentence {tokens : List Token} (h : tokenize text = .ok tokens)
    (hq : Sentence q tokens) : Reading text q := by
  obtain ⟨found, hlaid, rfl⟩ := laid_of_tokenize h
  obtain ⟨hderives, rfl⟩ := sentence_iff.1 hq
  exact ⟨hderives, hlaid⟩

/-- **A text with a reading parses unless it is nested too deep**, and then it fails for that. -/
theorem parse_tooDeep (h : Reading text q) (hdeep : limit < q.nesting) :
    ∃ t, parse limit text = .error (.grammatical ⟨t, .tooDeep limit⟩) := by
  obtain ⟨stop⟩ := exists_stop limit text
  rcases stop.outcome with ⟨e, -, hok⟩ | ⟨complaint, hrefuses, hfail⟩
  · have hfits := (h.parse_eq_ok.1 hok).1
    omega
  · have hviable : Viable (stop.before ++ [stop.token]) := by
      refine ⟨q, tokensOf text, ⟨h.derives, _, rfl, tokensOf_eq (h.laid.lexes text)⟩, ?_⟩
      exact ⟨stop.after, by simp [stop.tokens_eq]⟩
    obtain ⟨n, rfl⟩ : ∃ n, complaint = .tooDeep n := by
      by_contra hnot
      exact hrefuses.not_viable stop.shifts (fun n hn => hnot ⟨n, hn⟩) hviable
    refine ⟨stop.token, ?_⟩
    cases hrefuses with
    | reject hstep =>
      have hmoves := (Machine.whole limit).step_moves stop.token stop.state
      rw [hstep] at hmoves
      cases hmoves with
      | tooDeep => exact hfail

end Reading

/-- The second text is the first one with one more pair of parentheses, around the tokens of a
phrase that stands in such a context. -/
def Encloses (within : Phrase.Context → Prop) (text text' : Bytes) : Prop :=
  ∃ (around : Phrase.Context) (r : Phrase), within around ∧ Reading text (around.fill r) ∧
    text' = text.enclose r.first.pos r.last.stop

namespace Encloses

variable {within : Phrase.Context → Prop} {text text' : Bytes}

/-- **The enclosed text has a reading**: the phrase with a group in the same context. -/
theorem exists_reading (h : Encloses within text text') : ∃ around r q', within around ∧
    Reading text (around.fill r) ∧ Reading text' q' ∧
    q'.unplaced = (around.fill (Phrase.trimIn.enclosed true r)).unplaced := by
  obtain ⟨around, r, hwithin, hreading, rfl⟩ := h
  have hlaid := hreading.laid
  rw [around.tokens_fill] at hlaid
  obtain ⟨front, span, back, rfl, hstart, hstop, hfront, hspan, hback⟩ := hlaid.cut
  obtain ⟨found, hfound, hsame⟩ := hfront.enclose hspan hback
  have htokens : found.map Token.unplaced =
      (around.fill (Phrase.trimIn.enclosed true r)).tokens.map Token.unplaced := by
    rw [hsame, around.tokens_fill]
    simp [Phrase.trimIn.enclosed, Phrase.tokens]
  obtain ⟨q', rfl, hq'⟩ := Phrase.exists_tokens htokens
  have hderives : Derives .disjunction (around.fill (Phrase.trimIn.enclosed true r)) :=
    around.derives_fill (fun s hr => hr.enclosed.2.mono s.level_le_operand) hreading.derives
  refine ⟨around, r, q', hwithin, hreading, ⟨hderives.of_unplaced hq', ?_⟩, hq'⟩
  have hoffset : Position.start.offset = 0 := rfl
  rw [hoffset, Nat.zero_add] at hstart hstop
  rwa [hstart, hstop, Bytes.enclose_append]

/-- **Any number of pairs.** What one pair leaves of an expression, all of them leave. -/
theorem exists_readings (look : Expr → Expr)
    (hlook : ∀ around r, within around →
      look (around.fill (Phrase.trimIn.enclosed true r)).tree.unplaced =
        look (around.fill r).tree.unplaced)
    (h : Relation.TransGen (Encloses within) text text') : ∃ q q', Reading text q ∧
      Reading text' q' ∧ look q.tree.unplaced = look q'.tree.unplaced := by
  have hstep : ∀ {text text'}, Encloses within text text' → ∃ q q', Reading text q ∧
      Reading text' q' ∧ look q.tree.unplaced = look q'.tree.unplaced := by
    intro text text' h
    obtain ⟨around, r, q', hwithin, hq, hq', hplace⟩ := h.exists_reading
    refine ⟨_, q', hq, hq', ?_⟩
    rw [Phrase.tree_of_unplaced hplace, hlook around r hwithin]
  induction h with
  | single h => exact hstep h
  | tail _ h ih =>
    obtain ⟨q, q₁, hq, hq₁, hsame⟩ := ih
    obtain ⟨q₁', q₂, hq₁', hq₂, hsame'⟩ := hstep h
    obtain rfl := hq₁.unique hq₁'
    exact ⟨q, q₂, hq, hq₂, hsame.trans hsame'⟩

theorem exists_same (h : Relation.TransGen (Encloses within) text text') : ∃ q q',
    Reading text q ∧ Reading text' q' ∧
      q.tree.unplaced.ungrouped = q'.tree.unplaced.ungrouped := by
  refine exists_readings Expr.ungrouped (fun around r _ => ?_) h
  rw [Expr.ungrouped_unplaced, Expr.ungrouped_unplaced]
  exact congrArg Expr.unplaced (around.ungrouped_fill_enclosed r false)

/-- Around the whole text, parentheses mark nothing but the root. -/
theorem exists_same_below (h : Relation.TransGen (Encloses (·.isGroup = true)) text text') :
    ∃ q q', Reading text q ∧ Reading text' q' ∧
      q.tree.unplaced.grouped = q'.tree.unplaced.grouped := by
  refine exists_readings Expr.grouped (fun around r hgroup => ?_) h
  rw [Expr.grouped_unplaced, Expr.grouped_unplaced]
  exact congrArg Expr.unplaced (around.grouped_fill_enclosed hgroup r false)

end Encloses

/-! ## Compiling with more parentheses -/

namespace Reading

variable {limits : Limits} {text text' : Bytes} {q q' : Phrase} {c : Compiled}

/-- A text whose reading is nested too deep does not compile. -/
theorem compile_tooDeep (h : Reading text q) (hdeep : limits.expression < q.nesting) :
    ∃ t, compile limits text =
      .error (.parse (.grammatical ⟨t, .tooDeep limits.expression⟩)) := by
  obtain ⟨t, ht⟩ := h.parse_tooDeep hdeep
  exact ⟨t, by simp only [compile, ht]⟩

theorem compile_malformed (h : Reading text q) (hfits : (q.nesting : Int) ≤ limits.expression)
    {malformed : Malformed} (hfilter : q.tree.filterAt limits.filter 0 = .error malformed) :
    compile limits text = .error (.malformed malformed) := by
  have hparse : parse limits.expression text = .ok q.tree := h.parse_eq_ok.2 ⟨hfits, rfl⟩
  simp only [compile, hparse, generate, hfilter, Except.map]

/-- What compiles depends on the filter of its reading only. -/
theorem compile_congr (h : Reading text q) (h' : Reading text' q')
    (hc : compile limits text = .ok c) (hfits : (q'.nesting : Int) ≤ limits.expression)
    (hfilter : ∀ filter, q.tree.filterAt limits.filter 0 = .ok filter →
      q'.tree.filterAt limits.filter 0 = .ok filter) : compile limits text' = .ok c := by
  obtain ⟨e, filter, hparse, hmade, hrest⟩ := compile_eq_ok.1 hc
  obtain ⟨-, rfl⟩ := h.parse_eq_ok.1 hparse
  have hparse' := h'.parse_eq_ok.2 ⟨hfits, rfl⟩
  exact compile_eq_ok.2 ⟨q'.tree, filter, hparse', hfilter filter hmade, hrest⟩

end Reading

/-- **Redundant parentheses are transparent.** Expressions that differ in places and in the marks of
parentheses only have the same query, if both have one, and clearing the marks keeps the query. A
text with more parentheses around its phrases compiles to the same query and document, or it fails
since it is nested deeper than an expression may be, or since its filter is. If the parentheses
stand around the whole text, its filter is not the reason. -/
theorem compile_parentheses :
    (∀ limit limit' e e' query query', e.unplaced.ungrouped = e'.unplaced.ungrouped →
      generate limit (some e) = .ok query → generate limit' (some e') = .ok query' →
      query = query') ∧
    (∀ limit e query, generate limit (some e) = .ok query →
      generate limit (some e.ungrouped) = .ok query) ∧
    (∀ limits text text' c, Relation.TransGen (Encloses fun _ => True) text text' →
      compile limits text = .ok c → ∃ q', Reading text' q' ∧
        (limits.expression < q'.nesting ∧ (∃ t, compile limits text' =
            .error (.parse (.grammatical ⟨t, .tooDeep limits.expression⟩))) ∨
          (q'.nesting : Int) ≤ limits.expression ∧
            ((∃ n v, Visits limits.filter 0 q'.tree n v ∧ limits.filter < n) ∧
              (∃ doc, compile limits text' = .error (.malformed ⟨doc, .tooDeep limits.filter⟩)) ∨
            compile limits text' = .ok c))) ∧
    ∀ limits text text' c, Relation.TransGen (Encloses (·.isGroup = true)) text text' →
      compile limits text = .ok c → ∃ q', Reading text' q' ∧
        (limits.expression < q'.nesting ∧ (∃ t, compile limits text' =
            .error (.parse (.grammatical ⟨t, .tooDeep limits.expression⟩))) ∨
          (q'.nesting : Int) ≤ limits.expression ∧ compile limits text' = .ok c) := by
  refine ⟨?_, ?_, ?_, ?_⟩
  · intro limit limit' e e' query query' hsame he he'
    obtain ⟨filter, hfilter, rfl⟩ := Except.map_eq_ok.1 he
    obtain ⟨filter', hfilter', rfl⟩ := Except.map_eq_ok.1 he'
    rcases Expr.filterAt_of_same hsame hfilter limit' 0 with hok | ⟨doc, herror⟩
    · rw [Except.ok.inj (hok.symm.trans hfilter')]
    · rw [herror] at hfilter'
      cases hfilter'
  · intro limit e query he
    obtain ⟨filter, hfilter, rfl⟩ := Except.map_eq_ok.1 he
    exact Except.map_eq_ok.2 ⟨filter, Expr.filterAt_ungrouped hfilter le_rfl, rfl⟩
  · intro limits text text' c henclosed hc
    obtain ⟨q, q', hq, hq', hsame⟩ := Encloses.exists_same henclosed
    refine ⟨q', hq', ?_⟩
    by_cases hfits : (q'.nesting : Int) ≤ limits.expression
    · refine .inr ⟨hfits, ?_⟩
      by_cases hdeep : ∃ doc,
          q'.tree.filterAt limits.filter 0 = .error ⟨doc, .tooDeep limits.filter⟩
      · obtain ⟨doc, hdoc⟩ := hdeep
        exact .inl ⟨Expr.exists_visits_of_tooDeep hdoc, doc, hq'.compile_malformed hfits hdoc⟩
      · refine .inr (hq.compile_congr hq' hc hfits fun filter hfilter => ?_)
        exact (Expr.filterAt_of_same hsame hfilter limits.filter 0).resolve_right hdeep
    · exact .inl ⟨Int.not_le.1 hfits, hq'.compile_tooDeep (Int.not_le.1 hfits)⟩
  · intro limits text text' c henclosed hc
    obtain ⟨q, q', hq, hq', hsame⟩ := Encloses.exists_same_below henclosed
    refine ⟨q', hq', ?_⟩
    by_cases hfits : (q'.nesting : Int) ≤ limits.expression
    · refine .inr ⟨hfits, hq.compile_congr hq' hc hfits fun filter hfilter => ?_⟩
      rw [← Expr.filterAt_unplaced, ← Expr.filterAt_grouped] at hfilter ⊢
      rwa [← hsame]
    · exact .inl ⟨Int.not_le.1 hfits, hq'.compile_tooDeep (Int.not_le.1 hfits)⟩

/-- The derivation of a comparison such as `a<1` at an offset. -/
def Phrase.isBelow (offset : Nat) (field bound : String) : Phrase :=
  .joined (.literal (.onLine offset .identity field)) (.onLine (offset + 1) .less "<")
    (.literal (.onLine (offset + 2) .number bound))

theorem derives_isBelow (offset : Nat) (field bound : String) (s : Stratum)
    (h : s.level ≤ Stratum.relation.level) : Derives s (.isBelow offset field bound) := by
  have hleft : Derives .relation (.literal (.onLine offset .identity field)) :=
    (Derives.literal (List.mem_of_elem_eq_true rfl)).mono (by decide)
  have hright : Derives .matching (.literal (.onLine (offset + 2) .number bound)) :=
    (Derives.literal (List.mem_of_elem_eq_true rfl)).mono (by decide)
  exact (Derives.joined hleft (List.mem_of_elem_eq_true rfl) hright).mono h

/-- The left half of a run in parentheses of its own stands one level deeper, and the document is
the same. -/
theorem compile_parentheses_run :
    Encloses (fun _ => True) (ascii "a<1 or b<2 or c<3") (ascii "(a<1 or b<2) or c<3") ∧
    ∃ c, compile {} (ascii "a<1 or b<2 or c<3") = .ok c ∧
      compile {} (ascii "(a<1 or b<2) or c<3") = .ok c := by
  let half : Phrase := .joined (.isBelow 0 "a" "1") (.onLine 4 .or "or") (.isBelow 7 "b" "2")
  let around : Phrase.Context := .leftOf .hole (.onLine 11 .or "or") (.isBelow 14 "c" "3")
  have htokens : tokenize (ascii "a<1 or b<2 or c<3") =
      .ok ((around.fill half).tokens ++ [.onLine 17 .eof ""]) := by decide
  have hderives : Derives .disjunction (around.fill half) := by
    refine .joined (.joined ?_ (by decide) ?_) (by decide) ?_ <;>
      exact derives_isBelow _ _ _ _ (by decide)
  have hencloses : Encloses (fun _ => True) (ascii "a<1 or b<2 or c<3")
      (ascii "(a<1 or b<2) or c<3") :=
    ⟨around, half, trivial, .of_sentence htokens ⟨hderives, _, rfl, rfl⟩, by decide⟩
  refine ⟨hencloses, ?_⟩
  have hok : (compile {} (ascii "a<1 or b<2 or c<3")).isOk = true := by decide +kernel
  have hok' : (compile {} (ascii "(a<1 or b<2) or c<3")).isOk = true := by decide +kernel
  obtain ⟨c, hc⟩ := Except.exists_of_isOk hok
  obtain ⟨q', -, hdeep | ⟨-, hdeep | hsame⟩⟩ :=
    compile_parentheses.2.2.1 {} _ _ c (.single hencloses) hc
  · obtain ⟨-, t, ht⟩ := hdeep
    rw [ht] at hok'
    cases hok'
  · obtain ⟨-, doc, hdoc⟩ := hdeep
    rw [hdoc] at hok'
    cases hok'
  · exact ⟨c, hc, hsame⟩

end FilterQuery
