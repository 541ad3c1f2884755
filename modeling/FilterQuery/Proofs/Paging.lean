import FilterQuery.Proofs.Stopping

/-!
# Paging through the tokens

The parser reads its tokens through a cursor that asks the lexer for no more than it needs. The
pager of this module does the same with a buffer of all tokens read so far and an index into it,
where every access is checked.

**Theorem (`pager_refines`).** Whatever is asked of a pager, and in whatever order, the answers are
those of an index into the complete list of tokens that never moves beyond the last one. No access
fails, and at every moment the buffer is a beginning of that list, with one token behind the index
at most.

**Steps.** A cursor has the same tokens as a pager (`Cursor.pages`), and one call does the same to
both, whatever the lexer gives (`run_call`). `Cursor.Within` says where in the list of tokens a
cursor stands; one call keeps that and answers as the index does (`Cursor.Within.ask`).
-/

namespace FilterQuery

/-- What a pager can be asked for. -/
inductive PagerCall where
  | current
  | next
  | peek
deriving Repr, DecidableEq

/-- How a call of a pager can fail. -/
inductive PagerFault where
  /-- There is no token at an index. -/
  | outOfBounds
  | lexer (fault : Fault)
deriving Repr, DecidableEq

/-- A buffer of tokens with an index. -/
structure Pager where
  /-- Whether the closing token has been read. -/
  done : Bool
  /-- The tokens read so far. -/
  tokens : List Token
  cursor : Nat
  lexer : Lexer
deriving Repr

namespace Pager

/-- Computations on a pager that may fail. -/
abbrev Paging := EStateM PagerFault Pager

/-- Reads one more token, unless the closing one has been read. -/
def lexNext : Paging Unit := do
  let p ← get
  if p.done then return
  match p.lexer.nextToken with
  | (.ok t, l) => set { p with done := t.isClosing, tokens := p.tokens ++ [t], lexer := l }
  | (.error fault, l) =>
    set { p with lexer := l }
    throw (.lexer fault)

/-- The token at an index. -/
def token (i : Nat) : Paging Token := do
  let p ← get
  match p.tokens[i]? with
  | some t => return t
  | none => throw .outOfBounds

/-- The current token. -/
def current : Paging Token := do
  let p ← get
  token p.cursor

/-- Reads on if there is no token behind the current one. -/
def fill : Paging Unit := do
  let p ← get
  if p.tokens.length ≤ p.cursor + 1 then lexNext

/-- Moves on, unless there is no token behind the current one. -/
def forward : Paging Unit :=
  modify fun p => if p.cursor + 1 < p.tokens.length then { p with cursor := p.cursor + 1 } else p

/-- Passes the current token and gives it. -/
def next : Paging Token := do
  let t ← current
  fill
  forward
  return t

/-- The token behind the current one, or the current one if no other is known. -/
def behind : Paging Token := do
  let p ← get
  if p.cursor + 1 < p.tokens.length then token (p.cursor + 1) else token p.cursor

/-- The token behind the current one; on the closing token it is that token again. -/
def peek : Paging Token := do
  fill
  behind

/-- A pager on the first token of a lexer. -/
def ofLexer (l : Lexer) : EStateM.Result PagerFault Pager Unit :=
  lexNext.run ⟨false, [], 0, l⟩

/-- One call. -/
def call : PagerCall → Paging Token
  | .current => current
  | .next => next
  | .peek => peek

/-- Calls one after the other, with their answers. -/
def calls : List PagerCall → Paging (List Token)
  | [] => return []
  | first :: rest => do
    let t ← call first
    let ts ← calls rest
    return t :: ts

end Pager

namespace Cursor

/-- One call. -/
def ask (c : Cursor) : PagerCall → Except Fault Token × Cursor
  | .current => (.ok c.current, c)
  | .next => c.next
  | .peek => c.peek

/-- Calls one after the other, with their answers. -/
def asks (c : Cursor) : List PagerCall → List (Except Fault Token) × Cursor
  | [] => ([], c)
  | first :: rest =>
    let (answer, c') := c.ask first
    let (answers, last) := c'.asks rest
    (answer :: answers, last)

/-! ## Cursors as pagers -/

/-- The pager with the same tokens. -/
def pages (c : Cursor) : Pager where
  done := (c.ahead.getD c.current).isClosing
  tokens := c.buffered
  cursor := c.passed.length
  lexer := c.lexer

end Cursor

namespace Pager

variable {c : Cursor}

theorem tokens_current (c : Cursor) : c.pages.tokens[c.pages.cursor]? = some c.current := by
  simp [Cursor.pages, Cursor.buffered]

theorem run_current (c : Cursor) : current.run c.pages = .ok c.current c.pages := by
  simp only [current, token, EStateM.run_bind, EStateM.run_get, tokens_current, EStateM.run_pure]

theorem length_ahead {t : Token} (h : c.ahead = some t) :
    c.pages.tokens.length = c.pages.cursor + 2 := by
  simp [Cursor.pages, Cursor.buffered, h]

theorem length_plain (h : c.ahead = none) : c.pages.tokens.length = c.pages.cursor + 1 := by
  simp [Cursor.pages, Cursor.buffered, h]

theorem run_fill_ahead {t : Token} (h : c.ahead = some t) : fill.run c.pages = .ok () c.pages := by
  have hlength := length_ahead h
  have hfull : ¬ c.pages.tokens.length ≤ c.pages.cursor + 1 := by omega
  simp only [fill, EStateM.run_bind, EStateM.run_get, if_neg hfull]
  rfl

theorem run_fill_closing (h : c.ahead = none) (hclosing : c.current.isClosing = true) :
    fill.run c.pages = .ok () c.pages := by
  have hlength := length_plain h
  have hfull : c.pages.tokens.length ≤ c.pages.cursor + 1 := by omega
  have hdone : c.pages.done = true := by simp [Cursor.pages, h, hclosing]
  simp only [fill, lexNext, EStateM.run_bind, EStateM.run_get, if_pos hfull, hdone, if_true]
  rfl

/-- Reading on makes the token behind the current one known. -/
theorem run_fill_ok {t : Token} {l : Lexer} (h : c.ahead = none)
    (hopen : c.current.isClosing = false) (hnext : c.lexer.nextToken = (.ok t, l)) :
    fill.run c.pages = .ok () (Cursor.pages { c with ahead := some t, lexer := l }) := by
  have hlength := length_plain h
  have hfull : c.pages.tokens.length ≤ c.pages.cursor + 1 := by omega
  have hdone : c.pages.done = false := by simp [Cursor.pages, h, hopen]
  have hnext : c.pages.lexer.nextToken = (.ok t, l) := hnext
  simp only [fill, lexNext, EStateM.run_bind, EStateM.run_get, if_pos hfull, hdone,
    Bool.false_eq_true, if_false, hnext, EStateM.run_set]
  simp [Cursor.pages, Cursor.buffered, h]

theorem run_fill_error {fault : Fault} {l : Lexer} (h : c.ahead = none)
    (hopen : c.current.isClosing = false) (hnext : c.lexer.nextToken = (.error fault, l)) :
    fill.run c.pages = .error (.lexer fault) (Cursor.pages { c with lexer := l }) := by
  have hlength := length_plain h
  have hfull : c.pages.tokens.length ≤ c.pages.cursor + 1 := by omega
  have hdone : c.pages.done = false := by simp [Cursor.pages, h, hopen]
  have hnext : c.pages.lexer.nextToken = (.error fault, l) := hnext
  have hstate : Cursor.pages { c with lexer := l } = { c.pages with done := false, lexer := l } := by
    rw [← hdone]
    rfl
  simp only [fill, lexNext, EStateM.run_bind, EStateM.run_get, if_pos hfull, hdone,
    Bool.false_eq_true, if_false, hnext, EStateM.run_set, hstate]
  rfl

/-- The outcome of a call of a cursor, with the cursor as a pager. -/
def outcome : Except Fault Token × Cursor → EStateM.Result PagerFault Pager Token
  | (.ok t, c) => .ok t c.pages
  | (.error fault, c) => .error (.lexer fault) c.pages

theorem run_forward_ahead {t : Token} (h : c.ahead = some t) :
    forward.run c.pages = .ok () (c.moveTo t).pages := by
  have hlength := length_ahead h
  have hinside : c.pages.cursor + 1 < c.pages.tokens.length := by omega
  simp only [forward, EStateM.run_modify, if_pos hinside]
  simp [Cursor.pages, Cursor.moveTo, Cursor.buffered, h]

theorem run_forward_plain (h : c.ahead = none) : forward.run c.pages = .ok () c.pages := by
  have hlength := length_plain h
  have houtside : ¬ c.pages.cursor + 1 < c.pages.tokens.length := by omega
  simp only [forward, EStateM.run_modify, if_neg houtside]

theorem run_next (c : Cursor) : next.run c.pages = outcome c.next := by
  obtain ⟨passed, t, ahead, l⟩ := c
  cases ahead with
  | some t' =>
    simp only [next, EStateM.run_bind, run_current]
    rw [run_fill_ahead rfl]
    dsimp only
    rw [run_forward_ahead rfl]
    rfl
  | none =>
    unfold Cursor.next
    by_cases hclosing : t.isClosing = true
    · simp only [next, EStateM.run_bind, run_current]
      rw [run_fill_closing rfl hclosing]
      dsimp only
      rw [run_forward_plain rfl, if_pos hclosing]
      rfl
    · simp only [next, EStateM.run_bind, run_current]
      rw [if_neg hclosing]
      rcases hnext : l.nextToken with ⟨fault | t', l'⟩
      · rw [run_fill_error rfl (eq_false_of_ne_true hclosing) hnext]
        rfl
      · rw [run_fill_ok rfl (eq_false_of_ne_true hclosing) hnext]
        dsimp only
        rw [run_forward_ahead rfl]
        rfl

theorem run_behind_ahead {t : Token} (h : c.ahead = some t) :
    behind.run c.pages = .ok t c.pages := by
  have hlength := length_ahead h
  have hinside : c.pages.cursor + 1 < c.pages.tokens.length := by omega
  have htoken : c.pages.tokens[c.pages.cursor + 1]? = some t := by
    simp [Cursor.pages, Cursor.buffered, h]
  simp only [behind, token, EStateM.run_bind, EStateM.run_get, if_pos hinside, htoken,
    EStateM.run_pure]

theorem run_behind_plain (h : c.ahead = none) : behind.run c.pages = .ok c.current c.pages := by
  have hlength := length_plain h
  have houtside : ¬ c.pages.cursor + 1 < c.pages.tokens.length := by omega
  simp only [behind, token, EStateM.run_bind, EStateM.run_get, if_neg houtside, tokens_current,
    EStateM.run_pure]

theorem run_peek (c : Cursor) : peek.run c.pages = outcome c.peek := by
  obtain ⟨passed, t, ahead, l⟩ := c
  rw [peek, EStateM.run_bind]
  cases ahead with
  | some t' =>
    rw [run_fill_ahead rfl]
    exact run_behind_ahead rfl
  | none =>
    unfold Cursor.peek
    by_cases hclosing : t.isClosing = true
    · rw [run_fill_closing rfl hclosing, if_pos hclosing]
      exact run_behind_plain rfl
    · have hopen : t.isClosing = false := eq_false_of_ne_true hclosing
      rw [if_neg hclosing]
      rcases hnext : l.nextToken with ⟨fault | t', l'⟩
      · rw [run_fill_error rfl hopen hnext]
        rfl
      · rw [run_fill_ok rfl hopen hnext]
        exact run_behind_ahead rfl

/-- **One call does the same to a cursor and to its pager**, whatever the lexer gives. -/
theorem run_call (c : Cursor) (first : PagerCall) :
    (call first).run c.pages = outcome (c.ask first) := by
  cases first with
  | current => exact run_current c
  | next => exact run_next c
  | peek => exact run_peek c

end Pager

/-! ## The list of all tokens -/

/-- Behind a token that the lexer has given, it gives these tokens, up to and with the closing
one. -/
inductive Lexer.Supplies : Token → Lexer → List Token → Prop
  | closing {t : Token} {l : Lexer} : t.isClosing = true → Supplies t l []
  | reading {t t' : Token} {l l' : Lexer} {rest : List Token} : t.isClosing = false →
      l.nextToken = (.ok t', l') → Supplies t' l' rest → Supplies t l (t' :: rest)

/-- The tokens that the lexer gives, up to and with the closing one. -/
def Lexer.Gives (l : Lexer) (tokens : List Token) : Prop :=
  ∃ t l' rest, tokens = t :: rest ∧ l.nextToken = (.ok t, l') ∧ Supplies t l' rest

/-- One call of an index into a list: the token it gives, and the index behind the call. -/
def PagerCall.point (tokens : List Token) (i : Nat) : PagerCall → Option Token × Nat
  | .current => (tokens[i]?, i)
  | .next => (tokens[i]?, min (i + 1) (tokens.length - 1))
  | .peek => (tokens[min (i + 1) (tokens.length - 1)]?, i)

/-- Calls of an index one after the other. -/
def PagerCall.points (tokens : List Token) (i : Nat) : List PagerCall → List (Option Token) × Nat
  | [] => ([], i)
  | first :: rest =>
    let (answer, i') := first.point tokens i
    let (answers, last) := points tokens i' rest
    (answer :: answers, last)

namespace Cursor

/-- The cursor stands in this list of tokens, and its lexer supplies what it has not read of it. -/
inductive Within (tokens : List Token) : Cursor → Prop
  | plain {passed rest : List Token} {t : Token} {l : Lexer} :
      tokens = passed.reverse ++ t :: rest → l.Supplies t rest → Within tokens ⟨passed, t, none, l⟩
  | ahead {passed rest : List Token} {t t' : Token} {l : Lexer} :
      tokens = passed.reverse ++ t :: t' :: rest → t.isClosing = false → l.Supplies t' rest →
      Within tokens ⟨passed, t, some t', l⟩

namespace Within

variable {tokens : List Token} {c : Cursor}

/-- A cursor has read a beginning of the list, and at most one token behind the one it stands on. -/
theorem buffered (h : Within tokens c) :
    c.buffered <+: tokens ∧ c.buffered.length ≤ c.passed.length + 2 := by
  cases h with
  | @plain passed rest t l htokens _ =>
    refine ⟨⟨rest, ?_⟩, ?_⟩
    · simp [Cursor.buffered, htokens]
    · simp [Cursor.buffered]
  | @ahead passed rest t t' l htokens _ _ =>
    refine ⟨⟨rest, ?_⟩, ?_⟩
    · simp [Cursor.buffered, htokens]
    · simp [Cursor.buffered]

/-- The token that a cursor stands on is the one at its index. -/
theorem current (h : Within tokens c) : tokens[c.passed.length]? = some c.current := by
  cases h with
  | plain htokens _ => simp [htokens]
  | ahead htokens _ _ => simp [htokens]

/-- Before the last token the index can move. -/
theorem min_of_reading {passed rest : List Token} {t t' : Token}
    (h : tokens = passed.reverse ++ t :: t' :: rest) :
    min (passed.length + 1) (tokens.length - 1) = passed.length + 1 := by
  rw [h, List.length_append, List.length_reverse, List.length_cons, List.length_cons]
  omega

/-- On the last token the index cannot move. -/
theorem min_of_closing {passed : List Token} {t : Token} (h : tokens = passed.reverse ++ [t]) :
    min (passed.length + 1) (tokens.length - 1) = passed.length := by
  rw [h, List.length_append, List.length_reverse, List.length_singleton]
  omega

/-- Passing a token moves the index, unless it is at its last place. -/
theorem next (h : Within tokens c) : ∃ c', c.next = (.ok c.current, c') ∧ Within tokens c' ∧
    c'.passed.length = min (c.passed.length + 1) (tokens.length - 1) := by
  cases h with
  | @ahead passed rest t t' l htokens hopen hsupplies =>
    refine ⟨⟨t :: passed, t', none, l⟩, rfl, .plain ?_ hsupplies, (min_of_reading htokens).symm⟩
    simp [htokens]
  | @plain passed rest t l htokens hsupplies =>
    cases hsupplies with
    | closing hclosing =>
      refine ⟨⟨passed, t, none, l⟩, ?_, .plain htokens (.closing hclosing),
        (min_of_closing htokens).symm⟩
      simp [Cursor.next, hclosing]
    | @reading _ t' _ l' rest hopen hnext hsupplies =>
      refine ⟨⟨t :: passed, t', none, l'⟩, ?_, .plain ?_ hsupplies, (min_of_reading htokens).symm⟩
      · simp [Cursor.next, hopen, hnext, Cursor.moveTo]
      · simp [htokens]

/-- Peeking gives the token where the index would move, and moves nothing. -/
theorem peek (h : Within tokens c) : ∃ t c', c.peek = (.ok t, c') ∧ Within tokens c' ∧
    c'.passed = c.passed ∧
    tokens[min (c.passed.length + 1) (tokens.length - 1)]? = some t := by
  cases h with
  | @ahead passed rest t t' l htokens hopen hsupplies =>
    refine ⟨t', ⟨passed, t, some t', l⟩, rfl, .ahead htokens hopen hsupplies, rfl, ?_⟩
    rw [min_of_reading htokens]
    simp [htokens]
  | @plain passed rest t l htokens hsupplies =>
    cases hsupplies with
    | closing hclosing =>
      refine ⟨t, ⟨passed, t, none, l⟩, ?_, .plain htokens (.closing hclosing), rfl, ?_⟩
      · simp [Cursor.peek, hclosing]
      · rw [min_of_closing htokens]
        simp [htokens]
    | @reading _ t' _ l' rest hopen hnext hsupplies =>
      refine ⟨t', ⟨passed, t, some t', l'⟩, ?_, .ahead htokens hopen hsupplies, rfl, ?_⟩
      · simp [Cursor.peek, hopen, hnext]
      · rw [min_of_reading htokens]
        simp [htokens]

/-- **One call keeps the cursor in the list and answers as the index does.** -/
theorem ask (h : Within tokens c) (call : PagerCall) :
    ∃ t c', c.ask call = (.ok t, c') ∧ Within tokens c' ∧
      call.point tokens c.passed.length = (some t, c'.passed.length) := by
  cases call with
  | current =>
    refine ⟨c.current, c, rfl, h, ?_⟩
    rw [PagerCall.point, h.current]
  | next =>
    obtain ⟨c', hnext, hwithin, hlength⟩ := h.next
    refine ⟨c.current, c', hnext, hwithin, ?_⟩
    rw [PagerCall.point, h.current, hlength]
  | peek =>
    obtain ⟨t, c', hpeek, hwithin, hpassed, htoken⟩ := h.peek
    refine ⟨t, c', hpeek, hwithin, ?_⟩
    rw [PagerCall.point, htoken, hpassed]

/-- **Calls in any order keep the cursor in the list and answer as the index does**, and a pager
gives the same answers. -/
theorem asks (h : Within tokens c) (calls : List PagerCall) :
    ∃ answers c', c.asks calls = (answers.map .ok, c') ∧ Within tokens c' ∧
      PagerCall.points tokens c.passed.length calls = (answers.map some, c'.passed.length) ∧
      (Pager.calls calls).run c.pages = .ok answers c'.pages := by
  induction calls generalizing c with
  | nil => exact ⟨[], c, rfl, h, rfl, rfl⟩
  | cons first rest ih =>
    obtain ⟨t, c', hask, hwithin, hpoint⟩ := h.ask first
    obtain ⟨answers, last, hasks, hlast, hpoints, hrun⟩ := ih hwithin
    have hcall := Pager.run_call c first
    rw [hask] at hcall
    refine ⟨t :: answers, last, ?_, hlast, ?_, ?_⟩
    · simp only [Cursor.asks, hask, hasks, List.map_cons]
    · simp only [PagerCall.points, hpoint, hpoints, List.map_cons]
    · simp only [Pager.calls, EStateM.run_bind, hcall, Pager.outcome, hrun, EStateM.run_pure]

end Within

end Cursor

/-! ## The tokens of a text -/

theorem exists_supplies {input text : Bytes} {p : Position} {tokens : List Token} {last : Token}
    {error : Option LexError} (h : Lexes input p text tokens (.closed last error))
    (hlen : text.length ≤ input.length) :
    (Lexer.between input p text).Gives (tokens ++ [last]) := by
  induction tokens generalizing p text with
  | nil =>
    obtain ⟨t, l, hnext, hclosing, hend, -⟩ := Lexer.nextToken_nil h hlen
    cases hend
    exact ⟨_, l, [], rfl, hnext, .closing hclosing⟩
  | cons t tokens ih =>
    obtain ⟨p', text', hnext, hrest, hlen'⟩ := Lexer.nextToken_cons h hlen
    obtain ⟨t', l', rest, htokens, hnext', hsupplies⟩ := ih hrest hlen'
    have hopen : t.isClosing = false := (h.spelled t List.mem_cons_self).not_closing
    refine ⟨t, _, t' :: rest, ?_, hnext, .reading hopen hnext' hsupplies⟩
    rw [List.cons_append, htokens]

theorem gives_tokensOf (input : Bytes) :
    (Lexer.ofText filterRules input).Gives (tokensOf input) := by
  obtain ⟨tokens, last, error, h⟩ := exists_lexes_closed input
  rw [tokensOf_eq h, Lexer.ofText_filterRules]
  exact exists_supplies h (Nat.le_refl _)

/-- **A pager is an index into the list of all tokens.** -/
theorem pager_refines (input : Bytes) :
    (Lexer.ofText filterRules input).Gives (tokensOf input) ∧
    ∃ p c, Pager.ofLexer (Lexer.ofText filterRules input) = .ok () p ∧
      Cursor.ofLexer (Lexer.ofText filterRules input) = .ok c ∧
      ∀ calls, ∃ answers p' c',
        (Pager.calls calls).run p = .ok answers p' ∧
        PagerCall.points (tokensOf input) 0 calls = (answers.map some, p'.cursor) ∧
        p'.tokens <+: tokensOf input ∧ p'.tokens.length ≤ p'.cursor + 2 ∧
        c.asks calls = (answers.map .ok, c') ∧ p' = c'.pages := by
  refine ⟨gives_tokensOf input, ?_⟩
  obtain ⟨t, l, rest, htokens, hnext, hsupplies⟩ := gives_tokensOf input
  have hwithin : Cursor.Within (tokensOf input) ⟨[], t, none, l⟩ := .plain htokens hsupplies
  refine ⟨Cursor.pages ⟨[], t, none, l⟩, ⟨[], t, none, l⟩, ?_, ?_, ?_⟩
  · simp only [Pager.ofLexer, Pager.lexNext, EStateM.run_bind, EStateM.run_get, hnext]
    rfl
  · simp only [Cursor.ofLexer, hnext]
  · intro calls
    obtain ⟨answers, c', hasks, hlast, hpoints, hrun⟩ := hwithin.asks calls
    obtain ⟨hbegins, hlength⟩ := hlast.buffered
    exact ⟨answers, c'.pages, c', hrun, hpoints, hbegins, hlength, hasks, rfl⟩

end FilterQuery
