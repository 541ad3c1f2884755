import FilterQuery.Compile
import FilterQuery.Proofs.Layout
import FilterQuery.Proofs.Parsing

/-!
# Written expressions parse back

**Theorem (`parse_render`).** The text that an expression is written as parses again, within the
same limit, and to the same expression up to the places of its operators.

**Places.** Nothing but error messages looks at where a token stands. `unplaced` takes the places
out of tokens, expressions and phrases, and the lemmas of the first section say that writing,
filters, derivations and nesting are blind to them.

**Parentheses.** Writing keeps one pair of parentheses around a binary expression that stood in
some, and drops all others. `Phrase.trimIn` is what this does to a derivation: it stays a
derivation of the same expression, and it nests no deeper.

**Tokens.** What is written is read again token by token (`Derives.reprints`): a blank or a
parenthesis follows every token that could be read on, and the texts of the tokens are well spelled
because they were read before.
-/

namespace FilterQuery

/-! ## Places -/

/-- The token without its place. -/
def Token.unplaced (t : Token) : Token :=
  .bare t.kind t.text

@[simp] theorem Token.kind_unplaced (t : Token) : t.unplaced.kind = t.kind := rfl

@[simp] theorem Token.text_unplaced (t : Token) : t.unplaced.text = t.text := rfl

namespace Expr

/-- The expression without the places of its operators. -/
def unplaced : Expr → Expr
  | unary op arg => unary op.unplaced arg.unplaced
  | binary op left right paren => binary op.unplaced left.unplaced right.unplaced paren
  | e => e

@[simp] theorem write_unplaced (e : Expr) (tail : Bytes) :
    e.unplaced.write tail = e.write tail := by
  induction e generalizing tail with
  | identity | string | number => rfl
  | unary op arg ih => simp only [unplaced, write, Token.kind_unplaced, Token.text_unplaced, ih]
  | binary op left right paren ihl ihr => simp only [unplaced, write, Token.text_unplaced, ihl, ihr]

@[simp] theorem render_unplaced (e : Expr) : e.unplaced.render = e.render :=
  e.write_unplaced []

@[simp] theorem formName_unplaced (e : Expr) : e.unplaced.formName = e.formName := by
  cases e <;> rfl

@[simp] theorem value?_unplaced (e : Expr) : e.unplaced.value? = e.value? := by
  induction e with
  | unary op arg ih => simp only [unplaced, value?, Token.kind_unplaced, ih]
  | _ => rfl

@[simp] theorem field_unplaced (e : Expr) : e.unplaced.field = e.field := by
  have hrender := render_unplaced e
  cases e with
  | identity | string | number => rfl
  | unary | binary =>
    simp only [unplaced] at hrender
    simp only [unplaced, field, formName, hrender]

@[simp] theorem continuesRun_unplaced (kind : TokenKind) (e : Expr) :
    e.unplaced.continuesRun kind = e.continuesRun kind := by
  cases e <;> rfl

theorem regexpFilter_unplaced (field : Bytes) (e : Expr) :
    TokenKind.regexpFilter field e.unplaced = TokenKind.regexpFilter field e := by
  cases e <;> rfl

theorem compareFilter_unplaced (kind : TokenKind) (left right : Expr) :
    compareFilter kind left.unplaced right.unplaced = compareFilter kind left right := by
  simp only [compareFilter, field_unplaced, TokenKind.filter, TokenKind.rangeFilter,
    TokenKind.termFilter, value?_unplaced, formName_unplaced, render_unplaced,
    regexpFilter_unplaced]

/-- Filters are blind to places, and so are the errors about them. -/
theorem filterAt_unplaced (limit : Int) (depth : Nat) (e : Expr) :
    e.unplaced.filterAt limit depth = e.filterAt limit depth := by
  induction e generalizing depth with
  | identity | string | number => rfl
  | unary op arg ih =>
    have hrender := render_unplaced (unary op arg)
    simp only [unplaced] at hrender
    simp only [unplaced, filterAt, hrender, Token.kind_unplaced, Token.text_unplaced, ih]
  | binary op left right paren ihl ihr =>
    have hrender := render_unplaced (binary op left right paren)
    simp only [unplaced] at hrender
    simp only [unplaced, filterAt, hrender, Token.kind_unplaced, Token.text_unplaced,
      compareFilter_unplaced, continuesRun_unplaced, ihl, ihr]

end Expr

namespace Phrase

/-- The phrase without the places of its tokens. -/
def unplaced : Phrase → Phrase
  | literal t => literal t.unplaced
  | group opening inner closing => group opening.unplaced inner.unplaced closing.unplaced
  | applied op arg => applied op.unplaced arg.unplaced
  | joined left op right => joined left.unplaced op.unplaced right.unplaced
  | matched left op pattern => matched left.unplaced op.unplaced pattern.unplaced

@[simp] theorem inside_unplaced (p : Phrase) : p.unplaced.inside = p.inside := by
  induction p <;> simp_all [unplaced, inside]

theorem treeIn_unplaced (p : Phrase) (paren : Bool) :
    p.unplaced.treeIn paren = (p.treeIn paren).unplaced := by
  induction p generalizing paren with
  | literal t =>
    simp only [unplaced, treeIn, literalTree, Token.kind_unplaced, Token.text_unplaced]
    split <;> rfl
  | group opening inner closing ih => exact ih true
  | applied op arg ih => simp only [unplaced, treeIn, Expr.unplaced, ih]
  | joined left op right ihl ihr => simp only [unplaced, treeIn, Expr.unplaced, ihl, ihr]
  | matched left op pattern ih =>
    simp only [unplaced, treeIn, Expr.unplaced, ih, Token.text_unplaced]

variable {p q : Phrase}

theorem inside_of_unplaced (h : p.unplaced = q.unplaced) : p.inside = q.inside := by
  rw [← p.inside_unplaced, h, q.inside_unplaced]

theorem tree_of_unplaced (h : p.unplaced = q.unplaced) : p.tree.unplaced = q.tree.unplaced := by
  rw [tree, ← p.treeIn_unplaced, h, q.treeIn_unplaced, tree]

end Phrase

/-- Productions look at kinds of tokens only. -/
theorem Derives.of_unplaced {s : Stratum} {p q : Phrase} (h : Derives s p)
    (hq : q.unplaced = p.unplaced) : Derives s q := by
  induction h generalizing q with
  | literal ht =>
    cases q <;> simp only [Phrase.unplaced, Phrase.literal.injEq, reduceCtorEq] at hq
    next t => exact .literal (by rwa [← Token.kind_unplaced t, hq])
  | group ho _ hc ih =>
    cases q <;> simp only [Phrase.unplaced, Phrase.group.injEq, reduceCtorEq] at hq
    next opening inner closing =>
    exact .group (by rwa [← Token.kind_unplaced opening, hq.1]) (ih hq.2.1)
      (by rwa [← Token.kind_unplaced closing, hq.2.2])
  | applied hop _ ih =>
    cases q <;> simp only [Phrase.unplaced, Phrase.applied.injEq, reduceCtorEq] at hq
    next op arg => exact .applied (by rwa [← Token.kind_unplaced op, hq.1]) (ih hq.2)
  | matched _ hop hpat ih =>
    cases q <;> simp only [Phrase.unplaced, Phrase.matched.injEq, reduceCtorEq] at hq
    next left op pattern =>
    exact .matched (ih hq.1) (by rwa [← Token.kind_unplaced op, hq.2.1])
      (by rwa [← Token.kind_unplaced pattern, hq.2.2])
  | joined _ hop _ ihl ihr =>
    cases q <;> simp only [Phrase.unplaced, Phrase.joined.injEq, reduceCtorEq] at hq
    next left op right =>
    exact .joined (ihl hq.1) (by rwa [← Token.kind_unplaced op, hq.2.1]) (ihr hq.2.2)
  | tighter _ ih => exact .tighter (ih hq)

/-! ## Parentheses that are kept -/

namespace Phrase

/-- The phrase with the parentheses that are written: one pair around a binary phrase that stands
in some. -/
def trimIn (paren : Bool) : Phrase → Phrase
  | literal t => literal t
  | group _ inner _ => inner.trimIn true
  | applied op arg => applied op (arg.trimIn false)
  | joined left op right => enclosed paren (joined (left.trimIn false) op (right.trimIn false))
  | matched left op pattern => enclosed paren (matched (left.trimIn false) op pattern)
where
  /-- The phrase in parentheses, if so required. -/
  enclosed (paren : Bool) (p : Phrase) : Phrase :=
    if paren then group (.bare .leftParen (ascii "(")) p (.bare .rightParen (ascii ")")) else p

/-- Dropping parentheses does not change the expression. -/
theorem tree_trimIn (p : Phrase) (paren : Bool) : (p.trimIn paren).tree = p.treeIn paren := by
  induction p generalizing paren with
  | literal t => rfl
  | group opening inner closing ih => exact ih true
  | applied op arg ih => exact congrArg (Expr.unary op) (ih false)
  | joined left op right ihl ihr =>
    have hl := ihl false
    have hr := ihr false
    cases paren <;> simp_all [trimIn, trimIn.enclosed, tree, treeIn]
  | matched left op pattern ih =>
    have hl := ih false
    cases paren <;> simp_all [trimIn, trimIn.enclosed, tree, treeIn]

/-- Dropping parentheses does not nest deeper; a phrase that keeps a pair has one more level. -/
theorem inside_trimIn (p : Phrase) (paren : Bool) :
    (p.trimIn paren).inside ≤ paren.toNat + p.inside := by
  induction p generalizing paren with
  | literal t => exact Nat.zero_le _
  | group opening inner closing ih =>
    have h := ih true
    simp only [trimIn, inside, Bool.toNat_true] at h ⊢
    omega
  | applied op arg ih =>
    have h := ih false
    simp only [trimIn, inside, Bool.toNat_false] at h ⊢
    omega
  | joined left op right ihl ihr =>
    have hl := ihl false
    have hr := ihr false
    cases paren <;> simp_all [trimIn, trimIn.enclosed, inside] <;> omega
  | matched left op pattern ih =>
    have hl := ih false
    cases paren <;> simp_all [trimIn, trimIn.enclosed, inside]

end Phrase

/-- What keeps its parentheses, or needs none, is an operand. -/
theorem Derives.enclosed {s : Stratum} {p : Phrase} (h : Derives s p) :
    Derives s (Phrase.trimIn.enclosed false p) ∧
      Derives .operand (Phrase.trimIn.enclosed true p) :=
  ⟨h, .group rfl (h.mono s.disjunction_level_le) rfl⟩

/-- **A trimmed derivation is a derivation**, and an operand if it stands in parentheses. -/
theorem Derives.trimIn {s : Stratum} {p : Phrase} (h : Derives s p) :
    Derives s (p.trimIn false) ∧ Derives .operand (p.trimIn true) := by
  induction h with
  | literal ht => exact ⟨.literal ht, .literal ht⟩
  | group _ _ _ ih => exact ⟨ih.2, ih.2⟩
  | applied hop _ ih => exact ⟨.applied hop ih.1, .applied hop ih.1⟩
  | matched _ hop hpat ih => exact (Derives.matched ih.1 hop hpat).enclosed
  | joined _ hop _ ihl ihr => exact (Derives.joined ihl.1 hop ihr.1).enclosed
  | tighter _ ih => exact ⟨.tighter ih.1, ih.2⟩

/-! ## Written tokens are read again -/

/-- The kinds whose tokens no text can go on with. -/
def TokenKind.isClosed : TokenKind → Bool
  | .number | .identity | .and | .or | .not | .isIn | .less | .greater => false
  | _ => true

theorem Detached.apart {kind : TokenKind} {text tail : Bytes}
    (h : kind.isClosed = false → Detached tail) : Apart kind text tail := by
  cases hclosed : kind.isClosed with
  | false =>
    have hnil : Apart kind text [] := by
      cases kind <;> simp [Apart, startsWithWord, startsWithFraction]
    exact hnil.append_detached (h hclosed)
  | true =>
    cases kind with
    | number | identity | and | or | not | isIn | less | greater => cases hclosed
    | _ => trivial

variable {input : Bytes} {p : Position} {tail : Bytes} {more : List Token} {ending : Ending}

theorem blanks_blank : Blanks [0x20] := by
  show Blanks ([0x20] ++ [])
  exact .cons (.one (by decide)) (by decide) .nil

theorem Lexes.blank (htail : Solid tail) (h : Lexes input (p.advance [0x20]) tail more ending) :
    Lexes input p (0x20 :: tail) more ending :=
  .blanks blanks_blank htail.width h

/-- The written expression is read as a phrase like `q`, whatever detached text follows it. -/
def Reprints (input : Bytes) (e : Expr) (q : Phrase) : Prop :=
  ∀ tail, Detached tail → Solid (e.write tail) ∧
    ∀ p, ∃ (q' : Phrase) (p' : Position), q'.unplaced = q.unplaced ∧
      ∀ more ending, Lexes input p' tail more ending →
        Lexes input p (e.write tail) (q'.tokens ++ more) ending

theorem detached_blank (text : Bytes) : Detached (0x20 :: text) := by
  rintro b ⟨⟩
  decide

theorem detached_closing (text : Bytes) : Detached (0x29 :: text) := by
  rintro b ⟨⟩
  decide

theorem detached_nil : Detached [] := by
  rintro b ⟨⟩

theorem write_literalTree {t : Token} (h : t.kind ∈ [TokenKind.number, .string, .identity])
    (tail : Bytes) : (Phrase.literalTree t).write tail = lexeme t.kind t.text ++ tail := by
  simp only [List.mem_cons, List.not_mem_nil, or_false] at h
  rcases h with h | h | h <;> simp [Phrase.literalTree, h, Expr.write, lexeme]

namespace Reprints

variable {e el er : Expr} {q ql qr : Phrase} {op : Token}

theorem literal {t : Token} (h : t.kind ∈ [TokenKind.number, .string, .identity])
    (hspelled : Spelled t.kind t.text) : Reprints input (Phrase.literalTree t) (.literal t) := by
  intro tail htail
  rw [write_literalTree h]
  refine ⟨solid_lexeme hspelled tail, fun p => ?_⟩
  refine ⟨.literal (.located p t.kind t.text), p.advance (lexeme t.kind t.text), rfl, ?_⟩
  intro more ending hlex
  exact .lexeme hspelled (Detached.apart fun _ => htail) hlex

/-- A sign stands right before its operand, and a blank follows a word. -/
theorem applied (hop : op.kind ∈ [TokenKind.not, .minus]) (hspelled : Spelled op.kind op.text)
    (h : Reprints input e q) : Reprints input (.unary op e) (.applied op q) := by
  intro tail htail
  obtain ⟨hsolid, hread⟩ := h tail htail
  simp only [List.mem_cons, List.not_mem_nil, or_false] at hop
  rcases hop with hop | hop
  · have hwrite : (Expr.unary op e).write tail =
        lexeme op.kind op.text ++ 0x20 :: e.write tail := by
      rw [hop, spelled_fixed rfl] at hspelled
      simp [Expr.write, hop, hspelled, lexeme, TokenKind.keyword, ascii]
    rw [hwrite]
    refine ⟨solid_lexeme hspelled _, fun p => ?_⟩
    obtain ⟨q', p', hq', hlex⟩ := hread ((p.advance (lexeme op.kind op.text)).advance [0x20])
    refine ⟨.applied (.located p op.kind op.text) q', p', ?_, fun more ending hmore => ?_⟩
    · exact congrArg (Phrase.applied op.unplaced) hq'
    · have hapart : Apart op.kind op.text (0x20 :: e.write tail) :=
        Detached.apart fun _ => detached_blank _
      exact .lexeme hspelled hapart (.blank hsolid (hlex more ending hmore))
  · have hwrite : (Expr.unary op e).write tail = lexeme op.kind op.text ++ e.write tail := by
      rw [hop, spelled_fixed rfl] at hspelled
      simp [Expr.write, hop, hspelled, lexeme, TokenKind.keyword, ascii]
    rw [hwrite]
    refine ⟨solid_lexeme hspelled _, fun p => ?_⟩
    obtain ⟨q', p', hq', hlex⟩ := hread (p.advance (lexeme op.kind op.text))
    refine ⟨.applied (.located p op.kind op.text) q', p', ?_, fun more ending hmore => ?_⟩
    · exact congrArg (Phrase.applied op.unplaced) hq'
    · have hclosed : op.kind.isClosed ≠ false := by rw [hop]; decide
      exact .lexeme hspelled (Detached.apart fun h => absurd h hclosed) (hlex more ending hmore)

/-- Blanks stand around an infix operator. -/
theorem binary (hfixed : op.kind.isFixed = true) (hspelled : Spelled op.kind op.text)
    (hl : Reprints input el ql) (hr : Reprints input er qr) {tail : Bytes} (htail : Detached tail) :
    Solid ((Expr.binary op el er false).write tail) ∧
      ∀ p, ∃ (ql' : Phrase) (op' : Token) (qr' : Phrase) (p' : Position),
        ql'.unplaced = ql.unplaced ∧ op'.unplaced = op.unplaced ∧ qr'.unplaced = qr.unplaced ∧
        ∀ more ending, Lexes input p' tail more ending →
          Lexes input p ((Expr.binary op el er false).write tail)
            (ql'.tokens ++ op' :: (qr'.tokens ++ more)) ending := by
  obtain ⟨hsolidr, hreadr⟩ := hr tail htail
  have hwrite : (Expr.binary op el er false).write tail =
      el.write (0x20 :: (lexeme op.kind op.text ++ 0x20 :: er.write tail)) := by
    rw [lexeme_fixed hfixed]
    rfl
  rw [hwrite]
  obtain ⟨hsolidl, hreadl⟩ :=
    hl _ (detached_blank (lexeme op.kind op.text ++ 0x20 :: er.write tail))
  refine ⟨hsolidl, fun p => ?_⟩
  obtain ⟨ql', p₁, hql, hlexl⟩ := hreadl p
  obtain ⟨qr', p₂, hqr, hlexr⟩ :=
    hreadr (((p₁.advance [0x20]).advance (lexeme op.kind op.text)).advance [0x20])
  refine ⟨ql', .located (p₁.advance [0x20]) op.kind op.text, qr', p₂, hql, rfl, hqr, ?_⟩
  intro more ending hmore
  apply hlexl
  apply Lexes.blank (solid_lexeme hspelled _)
  apply Lexes.lexeme hspelled (Detached.apart fun _ => detached_blank _)
  exact .blank hsolidr (hlexr more ending hmore)

theorem joined (hl : Reprints input el ql) (hfixed : op.kind.isFixed = true)
    (hspelled : Spelled op.kind op.text) (hr : Reprints input er qr) :
    Reprints input (.binary op el er false) (.joined ql op qr) := by
  intro tail htail
  obtain ⟨hsolid, hread⟩ := binary hfixed hspelled hl hr htail
  refine ⟨hsolid, fun p => ?_⟩
  obtain ⟨ql', op', qr', p', hql, hop, hqr, hlex⟩ := hread p
  refine ⟨.joined ql' op' qr', p', ?_, fun more ending hmore => ?_⟩
  · simp only [Phrase.unplaced, hql, hop, hqr]
  · simpa [Phrase.tokens] using hlex more ending hmore

theorem matched {pattern : Token} (hl : Reprints input el ql) (hfixed : op.kind.isFixed = true)
    (hspelled : Spelled op.kind op.text) (hr : Reprints input er (.literal pattern)) :
    Reprints input (.binary op el er false) (.matched ql op pattern) := by
  intro tail htail
  obtain ⟨hsolid, hread⟩ := binary hfixed hspelled hl hr htail
  refine ⟨hsolid, fun p => ?_⟩
  obtain ⟨ql', op', qr', p', hql, hop, hqr, hlex⟩ := hread p
  cases qr' <;> simp only [Phrase.unplaced, Phrase.literal.injEq, reduceCtorEq] at hqr
  next pattern' =>
  refine ⟨.matched ql' op' pattern', p', ?_, fun more ending hmore => ?_⟩
  · simp only [Phrase.unplaced, hql, hop, hqr]
  · simpa [Phrase.tokens] using hlex more ending hmore

/-- Parentheses are read as parentheses. -/
theorem enclosed (h : Reprints input (.binary op el er false) q) (paren : Bool) :
    Reprints input (.binary op el er paren) (Phrase.trimIn.enclosed paren q) := by
  cases paren with
  | false => exact h
  | true =>
    intro tail htail
    have hopen : Spelled .leftParen (ascii "(") := ⟨rfl, rfl⟩
    have hclose : Spelled .rightParen (ascii ")") := ⟨rfl, rfl⟩
    have hwrite : (Expr.binary op el er true).write tail = lexeme .leftParen (ascii "(") ++
        (Expr.binary op el er false).write (lexeme .rightParen (ascii ")") ++ tail) := rfl
    rw [hwrite]
    obtain ⟨-, hread⟩ := h (lexeme .rightParen (ascii ")") ++ tail) (detached_closing tail)
    refine ⟨solid_lexeme hopen _, fun p => ?_⟩
    obtain ⟨q', p', hq', hlex⟩ := hread (p.advance (lexeme .leftParen (ascii "(")))
    refine ⟨.group (.located p .leftParen (ascii "(")) q' (.located p' .rightParen (ascii ")")),
      p'.advance (lexeme .rightParen (ascii ")")), ?_, fun more ending hmore => ?_⟩
    · simp only [Phrase.unplaced, hq', Phrase.trimIn.enclosed]
      rfl
    · have hinner := hlex _ _ (Lexes.lexeme hclose trivial hmore)
      have hlexed := Lexes.lexeme hopen trivial hinner
      simpa only [Phrase.tokens, List.cons_append, List.append_assoc, List.nil_append] using hlexed

end Reprints

theorem isFixed_of_infixOp? {kind : TokenKind} {op : InfixOp} (h : kind.infixOp? = some op) :
    kind.isFixed = true := by
  cases kind with
  | eof | error | identity | string | number | other => cases h
  | _ => rfl

/-- **A written derivation is read again**, trimmed. -/
theorem Derives.reprints {s : Stratum} {q : Phrase} (h : Derives s q) (hspelled : q.IsSpelled)
    (paren : Bool) :
    Reprints input (q.treeIn paren) (q.trimIn paren) := by
  induction h generalizing paren with
  | literal ht => exact .literal ht (Phrase.isSpelled_literal.1 hspelled)
  | group _ _ _ ih => exact ih (Phrase.isSpelled_group.1 hspelled).2.1 true
  | applied hop _ ih =>
    obtain ⟨hspelledOp, hspelledArg⟩ := Phrase.isSpelled_applied.1 hspelled
    exact .applied hop hspelledOp (ih hspelledArg false)
  | @matched q op pattern _ hop hpat ih =>
    obtain ⟨hspelledLeft, hspelledOp, hspelledPattern⟩ := Phrase.isSpelled_matched.1 hspelled
    have hright : Reprints input (Phrase.literalTree pattern) (.literal pattern) :=
      .literal (by simp [hpat]) hspelledPattern
    rw [show Phrase.literalTree pattern = .string pattern.text by
      simp [Phrase.literalTree, hpat]] at hright
    have hfixed := isFixed_of_infixOp? (infixOp?_of_pattern hop)
    exact ((ih hspelledLeft false).matched hfixed hspelledOp hright).enclosed paren
  | joined _ hop _ ihl ihr =>
    obtain ⟨hspelledLeft, hspelledOp, hspelledRight⟩ := Phrase.isSpelled_joined.1 hspelled
    have hfixed := isFixed_of_infixOp? (infixOp?_of_mem hop)
    have hbinary := (ihl hspelledLeft false).joined hfixed hspelledOp (ihr hspelledRight false)
    exact hbinary.enclosed paren
  | tighter _ ih => exact ih hspelled paren

/-! ## The round trip -/

/-- The text of a derivation is lexed as its trimmed derivation. -/
theorem Derives.exists_lexes_render {q : Phrase} (hq : Derives .disjunction q)
    (hspelled : q.IsSpelled) : ∃ (q' : Phrase) (p : Position),
      q'.unplaced = (q.trimIn false).unplaced ∧
      Lexes q.tree.render .start q.tree.render q'.tokens (.finished p) := by
  have hprint : Reprints q.tree.render q.tree (q.trimIn false) := hq.reprints hspelled false
  obtain ⟨q', p, hq', hlex⟩ := (hprint [] detached_nil).2 .start
  have hlex := hlex [] _ (.finish p)
  rw [List.append_nil] at hlex
  exact ⟨q', p, hq', hlex⟩

/-- **What is written parses to the expression up to places**, if the trimmed derivation is not
nested too deep. -/
theorem Derives.parse_render_iff {q : Phrase} (hq : Derives .disjunction q)
    (hspelled : q.IsSpelled) (limit : Int) :
    (∀ e, parse limit q.tree.render = .ok e → e.unplaced = q.tree.unplaced) ∧
      ((∃ e, parse limit q.tree.render = .ok e) ↔ ((q.trimIn false).nesting : Int) ≤ limit) := by
  obtain ⟨q', p, hq', hlex⟩ := hq.exists_lexes_render hspelled
  have hderives : Derives .disjunction q' := hq.trimIn.1.of_unplaced hq'
  have hnesting : q'.nesting = (q.trimIn false).nesting := by
    rw [Phrase.nesting, Phrase.inside_of_unplaced hq', Phrase.nesting]
  have htree : q'.tree.unplaced = q.tree.unplaced := by
    rw [Phrase.tree_of_unplaced hq', q.tree_trimIn false, Phrase.tree]
  rw [← hnesting]
  refine ⟨?_, ?_, ?_⟩
  · intro e he
    rw [← ((hderives.parse_eq_ok hlex).1 he).2, htree]
  · rintro ⟨e, he⟩
    exact ((hderives.parse_eq_ok hlex).1 he).1
  · intro hle
    exact ⟨q'.tree, (hderives.parse_eq_ok hlex).2 ⟨hle, rfl⟩⟩

/-- What is written parses to the expression up to places. -/
theorem exists_parse_render {limit : Int} {input : Bytes} {e : Expr}
    (h : parse limit input = .ok e) :
    ∃ e', parse limit e.render = .ok e' ∧ e'.unplaced = e.unplaced := by
  obtain ⟨q, p, hlex, hq, hnesting, rfl⟩ := exists_phrase h
  obtain ⟨hplace, hparse⟩ := hq.parse_render_iff hlex.spelled limit
  have htrim : ((q.trimIn false).nesting : Int) ≤ limit := by
    have hinside := q.inside_trimIn false
    simp only [Phrase.nesting, Bool.toNat_false] at hinside hnesting ⊢
    omega
  obtain ⟨e', he'⟩ := hparse.2 htrim
  exact ⟨e', he', hplace e' he'⟩

/-- Compilation is blind to places, and to the text itself unless it fails. -/
theorem compile_of_unplaced {limits : Limits} {input text : Bytes} {e e' : Expr} {c : Compiled}
    (hinput : parse limits.expression input = .ok e)
    (htext : parse limits.expression text = .ok e') (h : e'.unplaced = e.unplaced)
    (hc : compile limits input = .ok c) : compile limits text = .ok c := by
  obtain ⟨e₀, filter, hparse, hfilter, hdocument⟩ := compile_eq_ok.1 hc
  obtain rfl : e = e₀ := Except.ok.inj (hinput.symm.trans hparse)
  refine compile_eq_ok.2 ⟨e', filter, htext, ?_, hdocument⟩
  rw [← e'.filterAt_unplaced, h, e.filterAt_unplaced, hfilter]

/-- **Written expressions parse back.** The text of a parsed expression parses within the same limit
to the same expression up to the places of its operators, it is written the same way again, and it
compiles to whatever the first text compiles to. -/
theorem parse_render {limit : Int} {input : Bytes} {e : Expr} (h : parse limit input = .ok e) :
    ∃ e', parse limit e.render = .ok e' ∧ e'.unplaced = e.unplaced ∧ e'.render = e.render ∧
      ∀ filterLimit c, compile ⟨limit, filterLimit⟩ input = .ok c →
        compile ⟨limit, filterLimit⟩ e.render = .ok c := by
  obtain ⟨e', hparse, hplace⟩ := exists_parse_render h
  refine ⟨e', hparse, hplace, ?_, fun filterLimit c hc => ?_⟩
  · rw [← e'.render_unplaced, hplace, e.render_unplaced]
  · exact compile_of_unplaced h hparse hplace hc

/-- No pair of these parentheses is written, and the sign moves to its number. -/
theorem parse_render_groups : ∃ e e', parse 4 (ascii "((x))==(- 1)") = .ok e ∧
    e.render = ascii "x == -1" ∧ parse 4 (ascii "x == -1") = .ok e' ∧ e'.unplaced = e.unplaced := by
  have h : parse 4 (ascii "((x))==(- 1)") = .ok (.binary (.onLine 5 .equal "==")
      (.identity (ascii "x")) (.unary (.onLine 8 .minus "-") (.number (ascii "1"))) false) := by
    decide
  obtain ⟨e', hparse, hplace, -⟩ := parse_render h
  exact ⟨_, e', h, by decide, hparse, hplace⟩

end FilterQuery
