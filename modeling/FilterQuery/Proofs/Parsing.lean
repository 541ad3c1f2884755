import FilterQuery.Parser
import FilterQuery.Proofs.Lexing
import FilterQuery.Proofs.MachineGrammar

/-!
# Parsing is deriving

A parse reads its tokens through a cursor, one at a time and never further than it must. This
module shows that the reading leaves no trace in the result: a parse is a run of the machine over
the token stream of the text (`parse_eq`). With the machine's theorems it follows that the texts
that parse are the sentences of the grammar that are not nested too deep, and that the parsed
expression is the tree of the derivation (`parse_iff_sentence`).
-/

namespace FilterQuery

/-! ## Cursors on a stream -/

namespace Cursor

/-- The cursor has these tokens before it, and then the ending. -/
inductive On (input : Bytes) : Cursor → List Token → Ending → Prop
  | closing {c : Cursor} : c.current.isClosing = true →
      On input c [] (.closed c.current c.lexer.error)
  | reading {passed : List Token} {t : Token} {p : Position} {text : Bytes} {tokens : List Token}
      {ending : Ending} : t.isClosing = false → text.length ≤ input.length →
      Lexes input p text tokens ending →
      On input ⟨passed, t, none, .between input p text⟩ (t :: tokens) ending

namespace On

variable {input : Bytes} {c : Cursor} {tokens : List Token} {ending : Ending}

theorem upcoming (h : On input c tokens ending) : c.upcoming = (tokens, ending) := by
  cases h with
  | closing hclosing => simp [Cursor.upcoming, hclosing]
  | reading hopen hlen hlex => simp [Cursor.upcoming, hopen, Lexer.stream_between hlex hlen]

/-- A lexer's next token is where a cursor can stand. -/
theorem ofNextToken {p : Position} {text : Bytes} (passed : List Token)
    (h : Lexes input p text tokens ending) (hlen : text.length ≤ input.length) :
    ∃ t l, (Lexer.between input p text).nextToken = (.ok t, l) ∧
      On input ⟨passed, t, none, l⟩ tokens ending := by
  cases tokens with
  | nil =>
    obtain ⟨last, l, hnext, hclosing, rfl, -⟩ := Lexer.nextToken_nil h hlen
    exact ⟨last, l, hnext, .closing hclosing⟩
  | cons t tokens =>
    obtain ⟨p', text', hnext, hrest, hlen'⟩ := Lexer.nextToken_cons h hlen
    exact ⟨t, _, hnext, .reading (h.spelled t List.mem_cons_self).not_closing hlen' hrest⟩

theorem next {t : Token} (h : On input c (t :: tokens) ending) :
    On input c.next.2 tokens ending := by
  cases h with
  | @reading passed _ p text _ _ hopen hlen hlex =>
    obtain ⟨t', l, hnext, hon⟩ := ofNextToken (t :: passed) hlex hlen
    simp only [Cursor.next, hopen, hnext]
    exact hon

/-- **Passing tokens moves along the stream.** -/
theorem advance {count : Nat} (h : On input c tokens ending) (hcount : count ≤ tokens.length) :
    On input (c.advance count) (tokens.drop count) ending := by
  induction count generalizing c tokens with
  | zero => exact h
  | succ count ih =>
    cases tokens with
    | nil => cases hcount
    | cons t tokens => exact ih h.next (Nat.le_of_succ_le_succ hcount)

theorem current_cons {t : Token} (h : On input c (t :: tokens) ending) :
    c.current = t ∧ t.isClosing = false := by
  cases h with
  | reading hopen _ _ => exact ⟨rfl, hopen⟩

theorem current_nil (h : On input c [] ending) : ending = .closed c.current c.lexer.error := by
  cases h with
  | closing _ => rfl

end On

end Cursor

/-! ## A parse is a run over the stream -/

namespace Machine

/-- The tokens that are not shifted are the last ones. -/
theorem run_suffix (m : Machine) (ending : Ending) (state : State) (tokens : List Token) :
    (run m ending state tokens).2 <:+ tokens := by
  induction tokens generalizing state with
  | nil => cases ending <;> simp [run]
  | cons t tokens ih =>
    simp only [run]
    split
    · exact List.suffix_refl _
    · exact List.suffix_refl _
    · exact (ih _).trans (List.suffix_cons ..)

/-- What a parse makes of a run: all tokens up to the end of the text must have been passed. -/
def conclude (ending : Ending) : Except ParseError Expr × List Token → Except ParseError Expr
  | (.error e, _) => .error e
  | (.ok _, t :: _) => .error (.grammatical ⟨t, .unexpected .input (some .eof)⟩)
  | (.ok e, []) =>
    match ending with
    | .closed last error =>
      if last.kind = .eof then .ok e
      else .error (.about last error (.unexpected .input (some .eof)))
    | .broken fault => .error (.broken fault)

/-- The run of a whole parse. -/
def whole (limit : Int) : Machine := ⟨.expression 0, 0, limit⟩

end Machine

theorem ParseError.about_of_open {t : Token} (h : t.isClosing = false) (error : Option LexError)
    (complaint : Complaint) : about t error complaint = .grammatical ⟨t, complaint⟩ := by
  have hkind : t.kind ≠ .error := by
    intro hkind
    simp [Token.isClosing, TokenKind.isClosing, hkind] at h
  simp only [about]
  split
  · contradiction
  · rfl

theorem ParseError.about_ne_broken (t : Token) (error : Option LexError) (complaint : Complaint)
    (fault : Fault) : about t error complaint ≠ .broken fault := by
  simp only [about]
  split <;> simp

/-- **A parse is a run of the machine over the token stream.** -/
theorem parse_eq {input : Bytes} {tokens : List Token} {ending : Ending}
    (h : Lexes input .start input tokens ending) (limit : Int) :
    parse limit input =
      Machine.conclude ending ((Machine.whole limit).run ending (.operand []) tokens) := by
  obtain ⟨t, l, hnext, hon⟩ := Cursor.On.ofNextToken [] h le_rfl
  have hparser : Parser.ofLexer (.ofText filterRules input) = .ok ⟨⟨[], t, none, l⟩, 0, none⟩ := by
    simp only [Parser.ofLexer, Cursor.ofLexer, Lexer.ofText_filterRules, hnext]
  have hsuffix := (Machine.whole limit).run_suffix ending (.operand []) tokens
  have hwhole : (⟨.expression 0, 0, limit⟩ : Machine) = .whole limit := rfl
  simp only [parse, parseWith, hparser, Parser.build, Parser.expression, Parser.run, hon.upcoming,
    hwhole]
  generalize (Machine.whole limit).run ending (.operand []) tokens = out at hsuffix ⊢
  obtain ⟨result, rest⟩ := out
  cases result with
  | error e => rfl
  | ok e =>
    -- The cursor has moved to the first token that the run has not shifted.
    have hmoved := hon.advance (Nat.sub_le tokens.length rest.length)
    rw [← List.suffix_iff_eq_drop.1 hsuffix] at hmoved
    cases rest with
    | nil =>
      obtain rfl := hmoved.current_nil
      simp only [Machine.conclude]
      split <;> rfl
    | cons t rest =>
      obtain ⟨hcurrent, hopen⟩ := hmoved.current_cons
      have heof : t.kind ≠ .eof := by
        intro hkind
        simp [Token.isClosing, TokenKind.isClosing, hkind] at hopen
      simp only [Machine.conclude, hcurrent, if_neg heof, ParseError.about_of_open hopen]

namespace Machine

/-- The closing token of a stream is never a break, so no run breaks. -/
theorem run_ne_broken {m : Machine} {last : Token} {error : Option LexError} {state : State}
    {tokens : List Token} {fault : Fault} :
    (run m (.closed last error) state tokens).1 ≠ .error (.broken fault) := by
  induction tokens generalizing state with
  | nil =>
    simp only [run, close]
    split
    · simp
    · simp [ParseError.about_ne_broken]
    · simp [ParseError.about_ne_broken]
  | cons t tokens ih =>
    simp only [run]
    split
    · simp
    · simp
    · exact ih

end Machine

/-- **A parse never breaks.** -/
theorem parse_ne_broken (limit : Int) (input : Bytes) (fault : Fault) :
    parse limit input ≠ .error (.broken fault) := by
  obtain ⟨tokens, last, error, hlex⟩ := exists_lexes_closed input
  rw [parse_eq hlex]
  have hrun : ((Machine.whole limit).run (.closed last error) (.operand []) tokens).1 ≠
    .error (.broken fault) := Machine.run_ne_broken
  generalize (Machine.whole limit).run (.closed last error) (.operand []) tokens = out at hrun ⊢
  obtain ⟨_ | e, _ | ⟨t, rest⟩⟩ := out
  · simpa [Machine.conclude] using hrun
  · simpa [Machine.conclude] using hrun
  · simp only [Machine.conclude]
    split <;> simp [ParseError.about_ne_broken]
  · simp [Machine.conclude]

/-! ## Sentences -/

namespace Machine

variable {p : Position} {limit : Int}

theorem conclude_finished {out : Except ParseError Expr × List Token} {e : Expr} :
    conclude (.finished p) out = .ok e ↔ out = (.ok e, []) := by
  obtain ⟨_ | e', _ | ⟨t, rest⟩⟩ := out <;> simp [conclude, Ending.finished, Token.located]

theorem whole_fits (limit : Int) (s : Stratum) : (whole limit).Fits [] s := by
  refine .inr (Int.ofNat_lt.2 ?_)
  cases s <;> decide

theorem whole_allows {q : Phrase} :
    (whole limit).Allows ((whole limit).nesting [] + q.inside) ↔ (q.nesting : Int) ≤ limit := by
  simp only [Allows, whole, nesting, Phrase.nesting, List.length_nil]
  omega

/-- The end of the text ends an expression. -/
theorem run_finished (limit : Int) (p : Position) (e : Expr) :
    (whole limit).run (.finished p) (.operator e []) [] = (.ok e, []) := rfl

theorem stops_finished (s : Stratum) (p : Position) : Stops s [] (.finished p) := by
  intro t ht op hop
  cases ht
  cases hop

end Machine

/-- A whole text parses to an expression just when its tokens are those of a phrase that is not
nested too deep and stands for the expression. -/
theorem parse_eq_ok {input : Bytes} {tokens : List Token} {p : Position}
    (h : Lexes input .start input tokens (.finished p)) {limit : Int} {e : Expr} :
    parse limit input = .ok e ↔ ∃ q, Derives .disjunction q ∧ q.tokens = tokens ∧
      (q.nesting : Int) ≤ limit ∧ q.tree = e := by
  rw [parse_eq h, Machine.conclude_finished]
  constructor
  · intro hrun
    have hstart : (Machine.whole limit).Follows (.operand []) [] := Machine.Reads.nil
    obtain ⟨consumed, s, q, rfl, hq, rfl⟩ := Machine.run_sound hstart hrun
    obtain ⟨before, hbefore, hpassed⟩ := hq.reads
    cases hbefore
    refine ⟨q, hq.derives.mono s.disjunction_level_le, ?_, Machine.whole_allows.1 hq.allows, rfl⟩
    simpa using hpassed.symm
  · rintro ⟨q, hq, rfl, hnesting, rfl⟩
    have hrun := Machine.run_phrase hq (Machine.whole_fits limit .disjunction)
      (Machine.whole_allows.2 hnesting) (Machine.stops_finished .disjunction p)
    rw [List.append_nil] at hrun
    rw [hrun, Machine.run_finished]

/-- The tokens of a phrase parse to the tree of that phrase, unless it is nested too deep. -/
theorem Derives.parse_eq_ok {q : Phrase} (hq : Derives .disjunction q) {input : Bytes}
    {p : Position} (h : Lexes input .start input q.tokens (.finished p)) {limit : Int} {e : Expr} :
    parse limit input = .ok e ↔ (q.nesting : Int) ≤ limit ∧ q.tree = e := by
  rw [FilterQuery.parse_eq_ok h]
  constructor
  · rintro ⟨r, hr, htokens, hnesting⟩
    obtain rfl : r = q := (hr.cancel hq (congrArg (· ++ []) htokens) nofun nofun).1
    exact hnesting
  · exact fun hnesting => ⟨q, hq, rfl, hnesting⟩

/-- A text in which no rule matches somewhere does not parse. -/
theorem parse_failed {input : Bytes} {tokens : List Token} {p : Position}
    (h : Lexes input .start input tokens (.failed input p)) (limit : Int) (e : Expr) :
    parse limit input ≠ .ok e := by
  rw [parse_eq h]
  generalize (Machine.whole limit).run (.failed input p) (.operand []) tokens = out
  obtain ⟨_ | e', _ | ⟨t, rest⟩⟩ := out <;> simp [Machine.conclude, Ending.failed, Token.located]

namespace Phrase

/-- Every token of the phrase is well spelled. -/
def IsSpelled (q : Phrase) : Prop :=
  ∀ t ∈ q.tokens, Spelled t.kind t.text

variable {left inner right : Phrase} {t op opening closing pattern : Token}

theorem isSpelled_literal : (literal t).IsSpelled ↔ Spelled t.kind t.text := by
  simp [IsSpelled, tokens]

theorem isSpelled_group : (group opening inner closing).IsSpelled ↔
    Spelled opening.kind opening.text ∧ inner.IsSpelled ∧ Spelled closing.kind closing.text := by
  simp [IsSpelled, tokens, or_imp, forall_and]

theorem isSpelled_applied :
    (applied op inner).IsSpelled ↔ Spelled op.kind op.text ∧ inner.IsSpelled := by
  simp [IsSpelled, tokens]

theorem isSpelled_joined : (joined left op right).IsSpelled ↔
    left.IsSpelled ∧ Spelled op.kind op.text ∧ right.IsSpelled := by
  simp [IsSpelled, tokens, or_imp, forall_and]

theorem isSpelled_matched : (matched left op pattern).IsSpelled ↔
    left.IsSpelled ∧ Spelled op.kind op.text ∧ Spelled pattern.kind pattern.text := by
  simp [IsSpelled, tokens, or_imp, forall_and]

end Phrase

/-- Whatever parses has a derivation. -/
theorem exists_phrase {limit : Int} {input : Bytes} {e : Expr} (h : parse limit input = .ok e) :
    ∃ q p, Lexes input .start input q.tokens (.finished p) ∧ Derives .disjunction q ∧
      (q.nesting : Int) ≤ limit ∧ q.tree = e := by
  obtain ⟨tokens, ending, hlex⟩ := exists_lexes input .start input
  obtain ⟨p, rfl | rfl⟩ := hlex.ending_cases
  · obtain ⟨q, hq, rfl, hnesting, htree⟩ := (parse_eq_ok hlex).1 h
    exact ⟨q, p, hlex, hq, hnesting, htree⟩
  · exact absurd h (parse_failed hlex limit e)

theorem sentence_iff {q : Phrase} {tokens : List Token} {p : Position} :
    Sentence q (tokens ++ [.located p .eof []]) ↔ Derives .disjunction q ∧ q.tokens = tokens := by
  constructor
  · rintro ⟨hq, last, -, htokens⟩
    exact ⟨hq, (List.append_inj' htokens rfl).1.symm⟩
  · rintro ⟨hq, rfl⟩
    exact ⟨hq, _, rfl, rfl⟩

/-- **Parsing is deriving.** A text of tokens parses to an expression just when the tokens are a
sentence that is not nested too deep and whose derivation stands for the expression; and they are
a sentence in one way only. -/
theorem parse_iff_sentence {input : Bytes} {tokens : List Token} (h : tokenize input = .ok tokens)
    (limit : Int) :
    (∀ e, parse limit input = .ok e ↔
      ∃ p, Sentence p tokens ∧ (p.nesting : Int) ≤ limit ∧ p.tree = e) ∧
    ∀ p q, Sentence p tokens → Sentence q tokens → p = q := by
  obtain ⟨found, p, hlex, rfl⟩ := tokenize_eq_ok.1 h
  refine ⟨fun e => ?_, fun p q hp hq => hp.unique hq⟩
  simp only [parse_eq_ok hlex, sentence_iff, and_assoc]

/-- The token at an offset in a text of one line. -/
def Token.onLine (offset : Nat) (kind : TokenKind) (text : String) : Token :=
  .located ⟨offset, 1, offset + 1⟩ kind (ascii text)

/-- The derivation of `x or (y == -1)`. -/
def Phrase.signedGroup : Phrase :=
  .joined (.literal (.onLine 0 .identity "x")) (.onLine 2 .or "or")
    (.group (.onLine 5 .leftParen "(")
      (.joined (.literal (.onLine 6 .identity "y")) (.onLine 8 .equal "==")
        (.applied (.onLine 11 .minus "-") (.literal (.onLine 12 .number "1"))))
      (.onLine 13 .rightParen ")"))

/-- A comparison in parentheses on the right of `or`, with a sign in it, needs five levels. -/
theorem parse_iff_sentence_signedGroup : ∃ tokens,
    tokenize (ascii "x or (y == -1)") = .ok tokens ∧ Sentence .signedGroup tokens ∧
    parse 5 (ascii "x or (y == -1)") = .ok Phrase.signedGroup.tree ∧
    ∀ e, parse 4 (ascii "x or (y == -1)") ≠ .ok e := by
  have htokens : tokenize (ascii "x or (y == -1)") =
      .ok (Phrase.signedGroup.tokens ++ [.onLine 14 .eof ""]) := by decide
  have hp : Sentence .signedGroup (Phrase.signedGroup.tokens ++ [.onLine 14 .eof ""]) := by
    refine ⟨.joined ((Derives.literal (by decide)).mono (by decide)) (by decide) ?_, _, rfl, rfl⟩
    refine (Derives.group rfl (Derives.mono (s := .equality) ?_ (by decide)) rfl).mono (by decide)
    refine .joined ((Derives.literal (by decide)).mono (by decide)) (by decide) ?_
    exact (Derives.applied (by decide) (.literal (by decide))).mono (by decide)
  refine ⟨_, htokens, hp, ((parse_iff_sentence htokens 5).1 _).2 ⟨_, hp, by decide, rfl⟩, ?_⟩
  intro e he
  obtain ⟨q, hq, hnesting, -⟩ := ((parse_iff_sentence htokens 4).1 e).1 he
  obtain rfl := (parse_iff_sentence htokens 4).2 q _ hq hp
  exact absurd hnesting (by decide)

end FilterQuery
