import FilterQuery.Proofs.Stopping

/-!
# Cursors along a text

**Reading ahead.** A cursor that has read one token ahead stands for the same stream as one that has
not (`Cursor.Stands`), so what was peeked at before makes no difference to what is read next.

**Being along a text.** The tokens that a cursor has passed and those before it are together the
tokens of the text (`Cursor.Along`). Where a run of the machine is in one step depends on the token
that the cursor stands on alone (`Along.run_shift`, `Along.run_done`, `Along.run_reject`).
-/

namespace FilterQuery

/-! ## Cursors that may have read ahead -/

namespace Cursor

/-- The cursor has these tokens before it, and then the ending. It may have read one token ahead. -/
inductive Stands (input : Bytes) : Cursor → List Token → Ending → Prop
  | plain {c : Cursor} {tokens : List Token} {ending : Ending} : On input c tokens ending →
      c.ahead = none → Stands input c tokens ending
  | ahead {passed : List Token} {t t' : Token} {l : Lexer} {tokens : List Token} {ending : Ending} :
      t.isClosing = false → On input ⟨t :: passed, t', none, l⟩ tokens ending →
      Stands input ⟨passed, t, some t', l⟩ (t :: tokens) ending

namespace Stands

variable {input : Bytes} {c : Cursor} {tokens : List Token} {ending : Ending}

theorem upcoming (h : Stands input c tokens ending) : c.upcoming = (tokens, ending) := by
  cases h with
  | plain hon _ => exact hon.upcoming
  | ahead ht hon =>
    cases hon with
    | closing hclosing => simp [Cursor.upcoming, ht, hclosing]
    | reading hopen hlen hlex =>
      simp [Cursor.upcoming, ht, hopen, Lexer.stream_between hlex hlen]

theorem current (h : Stands input c tokens ending) :
    Machine.following tokens ending = some c.current := by
  cases h with
  | ahead _ _ => rfl
  | plain hon _ => cases hon <;> rfl

theorem next {t : Token} (h : Stands input c (t :: tokens) ending) :
    ∃ c', c.next = (.ok t, c') ∧ Stands input c' tokens ending ∧ c'.passed = t :: c.passed := by
  cases h with
  | ahead _ hon => exact ⟨_, rfl, .plain hon rfl, rfl⟩
  | plain hon _ =>
    cases hon with
    | @reading passed _ p text _ _ hopen hlen hlex =>
      obtain ⟨t', l, hnext, hon⟩ := On.ofNextToken (t :: passed) hlex hlen
      simp only [Cursor.next, hopen, hnext]
      exact ⟨_, rfl, .plain hon rfl, rfl⟩

theorem next_nil (h : Stands input c [] ending) : c.next = (.ok c.current, c) := by
  cases h with
  | plain hon hahead =>
    cases hon with
    | closing hclosing => simp [Cursor.next, hahead, hclosing]

theorem peek (h : Stands input c tokens ending) :
    ∃ t c', c.peek = (.ok t, c') ∧ Machine.following tokens.tail ending = some t ∧
      Stands input c' tokens ending ∧ c'.passed = c.passed ∧ c'.current = c.current := by
  cases h with
  | @ahead passed t t' l _ _ ht hon =>
    exact ⟨t', _, rfl, (plain hon rfl).current, .ahead ht hon, rfl, rfl⟩
  | plain hon hahead =>
    cases hon with
    | closing hclosing =>
      refine ⟨c.current, c, ?_, rfl, .plain (.closing hclosing) hahead, rfl, rfl⟩
      simp [Cursor.peek, hahead, hclosing]
    | @reading passed t p text _ _ hopen hlen hlex =>
      obtain ⟨t', l, hnext, hon⟩ := On.ofNextToken (t :: passed) hlex hlen
      simp only [Cursor.peek, hopen, hnext]
      exact ⟨t', _, rfl, (plain hon rfl).current, .ahead hopen hon, rfl, rfl⟩

/-- **Passing tokens moves along the stream**, and the passed ones are kept. -/
theorem advance {consumed : List Token} (h : Stands input c (consumed ++ tokens) ending) :
    Stands input (c.advance consumed.length) tokens ending ∧
      (c.advance consumed.length).passed = consumed.reverse ++ c.passed := by
  induction consumed generalizing c with
  | nil => exact ⟨h, rfl⟩
  | cons t consumed ih =>
    obtain ⟨c', hnext, hstands, hpassed⟩ := h.next
    obtain ⟨hafter, hall⟩ := ih hstands
    simp only [List.length_cons, Cursor.advance, hnext]
    exact ⟨hafter, by simp [hall, hpassed]⟩

theorem lexer_error {last : Token} {error : Option LexError}
    (h : Stands input c [] (.closed last error)) : c.lexer.error = error := by
  cases h with
  | plain hon _ =>
    cases hon.current_nil
    rfl

end Stands

end Cursor

/-! ## Along a text -/

theorem Machine.exists_following {tokens : List Token} {last t : Token} {error : Option LexError}
    (h : following tokens (.closed last error) = some t) :
    ∃ more, tokens ++ [last] = t :: more := by
  cases tokens with
  | nil =>
    cases h
    exact ⟨[], rfl⟩
  | cons t' rest =>
    cases h
    exact ⟨rest ++ [last], rfl⟩

namespace Cursor

/-- The cursor is somewhere in a text, with these tokens left before the closing one. -/
structure Along (input : Bytes) (last : Token) (error : Option LexError) (c : Cursor)
    (tokens : List Token) : Prop where
  stands : c.Stands input tokens (.closed last error)
  lexes : Lexes input .start input (c.passed.reverse ++ tokens) (.closed last error)

theorem advance_add (c : Cursor) (a b : Nat) : (c.advance a).advance b = c.advance (a + b) := by
  induction a generalizing c with
  | zero => rw [Nat.zero_add]; rfl
  | succ a ih =>
    rw [Nat.succ_add]
    exact ih c.next.2

namespace Along

variable {input : Bytes} {last : Token} {error : Option LexError} {c : Cursor}
  {tokens : List Token}

theorem not_closing (h : Along input last error c tokens) :
    ∀ t ∈ tokens, t.isClosing = false :=
  fun t ht => (h.lexes.spelled t (List.mem_append_right _ ht)).not_closing

theorem tokensOf_eq (h : Along input last error c tokens) :
    tokensOf input = c.passed.reverse ++ (tokens ++ [last]) := by
  rw [FilterQuery.tokensOf_eq h.lexes, List.append_assoc]

theorem exists_current (h : Along input last error c tokens) :
    ∃ more, tokensOf input = c.passed.reverse ++ c.current :: more := by
  obtain ⟨more, hmore⟩ := Machine.exists_following h.stands.current
  exact ⟨more, by rw [h.tokensOf_eq, hmore]⟩

/-- A closing token is the last one. -/
theorem eq_nil (h : Along input last error c tokens)
    (hclosing : c.current.isClosing = true) : tokens = [] := by
  have hcurrent := h.stands.current
  cases tokens with
  | nil => rfl
  | cons t rest =>
    obtain rfl := Option.some.inj hcurrent
    rw [h.not_closing _ List.mem_cons_self] at hclosing
    cases hclosing

/-- Any other token is the first of those left. -/
theorem eq_cons (h : Along input last error c tokens)
    (hopen : c.current.isClosing = false) : tokens = c.current :: tokens.tail := by
  have hcurrent := h.stands.current
  cases tokens with
  | nil =>
    cases hcurrent
    rw [h.lexes.closing_last] at hopen
    cases hopen
  | cons t rest =>
    obtain rfl := Option.some.inj hcurrent
    rfl

theorem advance {consumed rest : List Token} (h : Along input last error c (consumed ++ rest)) :
    Along input last error (c.advance consumed.length) rest ∧
      (c.advance consumed.length).passed = consumed.reverse ++ c.passed := by
  obtain ⟨hstands, hpassed⟩ := h.stands.advance
  refine ⟨⟨hstands, ?_⟩, hpassed⟩
  simpa [hpassed] using h.lexes

/-- The lexical error that the cursor knows of is the one of the text, as far as it matters. -/
theorem about_current (h : Along input last error c tokens) (complaint : Complaint) :
    ParseError.about c.current c.lexer.error complaint = .about c.current error complaint := by
  cases hclosing : c.current.isClosing with
  | false => rw [ParseError.about_of_open hclosing, ParseError.about_of_open hclosing]
  | true =>
    obtain rfl := h.eq_nil hclosing
    rw [h.stands.lexer_error]

/-! ### The machine where the cursor stands -/

variable {m : Machine} {state : Machine.State}

theorem run_done {e : Expr} (h : Along input last error c tokens)
    (hstep : m.step c.current state = .done e) :
    m.run (.closed last error) state tokens = (.ok e, tokens) := by
  have hcurrent := h.stands.current
  cases tokens with
  | nil =>
    cases hcurrent
    simp only [Machine.run, Machine.close, hstep]
  | cons t rest =>
    cases hcurrent
    simp only [Machine.run, hstep]

theorem run_reject {complaint : Complaint} (h : Along input last error c tokens)
    (hstep : m.step c.current state = .reject complaint) :
    m.run (.closed last error) state tokens =
      (.error (.about c.current error complaint), tokens) := by
  have hcurrent := h.stands.current
  cases tokens with
  | nil =>
    cases hcurrent
    simp only [Machine.run, Machine.close, hstep]
  | cons t rest =>
    cases hcurrent
    simp only [Machine.run, hstep, ParseError.about_of_open (h.not_closing _ List.mem_cons_self)]

/-- Runs that agree on the current token agree. -/
theorem run_operator_congr {e e' : Expr} {stack stack' : List Frame}
    (h : Along input last error c tokens)
    (hsettle : m.settle c.current e stack = m.settle c.current e' stack') :
    m.run (.closed last error) (.operator e stack) tokens =
      m.run (.closed last error) (.operator e' stack') tokens := by
  refine Machine.run_operator_congr fun t ht => ?_
  rw [h.stands.current] at ht
  cases ht
  exact hsettle

/-- A token that is shifted is no closing one. -/
theorem run_shift {next : Machine.State} (h : Along input last error c tokens)
    (hstep : m.step c.current state = .shift next) :
    tokens = c.current :: tokens.tail ∧ m.run (.closed last error) state tokens =
      m.run (.closed last error) next tokens.tail := by
  have hmoves := m.step_moves c.current state
  rw [hstep] at hmoves
  cases hmoves with
  | shift _ hopen =>
    have htokens := h.eq_cons hopen
    refine ⟨htokens, ?_⟩
    rw [htokens]
    simp only [Machine.run, hstep, List.tail_cons]

end Along

end Cursor

end FilterQuery
