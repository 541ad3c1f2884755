import FilterQuery.Proofs.Parsing

/-!
# Where a parse stops

A parse that fails reports one token. It is the earliest one at fault.

**Theorem (`parse_error_earliest`).** The tokens in front of a reported token can be continued to a
sentence. Unless the complaint is about nesting, no sentence goes on with the reported token itself.
A lexical error is reported just when all tokens in front of it can be continued to a sentence, so
whichever error comes first in the text wins, although tokens are read one ahead at most.

**Stops.** A run shifts tokens (`Shifts`) and stops at the first one that it does not shift; its
result only depends on that token and on the state there (`run_eq_close`).

**Viable prefixes.** What the machine has shifted is the beginning of a sentence: the open frames of
its stack can be completed from the inside out (`Reads.exists_derives`). Conversely, a token that is
refused cannot be part of a sentence, since a machine with a higher limit goes the same way
(`Shifts.raised`) and would accept the sentence.
-/

namespace FilterQuery

namespace Machine

variable {m : Machine}

/-! ## Moves -/

/-- The moves that there are at a token. A closing token is never shifted, and it is no operator. -/
inductive Moves (m : Machine) (t : Token) (state : State) : Move → Prop
  | shift (next : State) : t.isClosing = false → Moves m t state (.shift next)
  | done (e : Expr) : Moves m t state (.done e)
  | unexpected (place : Place) (expected : Option TokenKind) :
      Moves m t state (.reject (.unexpected place expected))
  | reserved : t.isClosing = false → Moves m t state (.reject .reserved)
  | tooDeep {stack : List Frame} : state = .operand stack → m.isTooDeep stack = true →
      Moves m t state (.reject (.tooDeep m.limit))

theorem infixOp?_of_closing {t : Token} (h : t.isClosing = true) : t.kind.infixOp? = none := by
  cases hkind : t.kind <;> simp [Token.isClosing, TokenKind.isClosing, hkind] at h <;> rfl

theorem not_closing_of_infixAbove? {t : Token} {floor : Int} {op : InfixOp}
    (h : infixAbove? t.kind floor = some op) : t.isClosing = false := by
  by_contra hclosing
  have hnone := infixOp?_of_closing (Bool.not_eq_false _ ▸ hclosing)
  rw [(infixAbove?_eq_some.1 h).1] at hnone
  cases hnone

theorem takeInfix_moves {t : Token} (state : State) (op : InfixOp) (e : Expr) (stack : List Frame)
    (h : t.isClosing = false) : Moves m t state (takeInfix op t e stack) := by
  simp only [takeInfix]
  split
  · exact .reserved h
  · split
    · exact .shift _ h
    · exact .shift _ h

theorem settle_moves (m : Machine) (t : Token) (state : State) (e : Expr) (stack : List Frame) :
    Moves m t state (m.settle t e stack) := by
  induction stack generalizing e with
  | nil =>
    cases hgoal : m.goal with
    | operand =>
      simp only [settle, hgoal]
      exact .done e
    | expression floor =>
      cases habove : infixAbove? t.kind floor with
      | none =>
        simp only [settle, hgoal, habove]
        exact .done e
      | some op =>
        simp only [settle, hgoal, habove]
        exact takeInfix_moves state op e [] (not_closing_of_infixAbove? habove)
  | cons frame stack ih =>
    rw [settle.eq_def]
    cases habove : infixAbove? t.kind (frame.floor : Int) with
    | some op =>
      simp only [habove]
      exact takeInfix_moves state op e _ (not_closing_of_infixAbove? habove)
    | none =>
      simp only [habove]
      cases frame with
      | group =>
        dsimp only
        split
        · next hkind => exact .shift _ (by simp [Token.isClosing, TokenKind.isClosing, hkind])
        · exact .unexpected _ _
      | operandOf op level => exact ih _
      | rightOf left op level => exact ih _

/-- **What a step can do.** -/
theorem step_moves (m : Machine) (t : Token) (state : State) :
    Moves m t state (m.step t state) := by
  cases state with
  | operand stack =>
    simp only [step, startOperand]
    cases hdeep : m.isTooDeep stack with
    | true => exact .tooDeep rfl hdeep
    | false =>
      cases hkind : t.kind <;> simp only [TokenKind.prefixLevel?]
      case not | minus | number | string | identity | leftParen =>
        exact .shift _ (by simp [Token.isClosing, TokenKind.isClosing, hkind])
      all_goals exact .unexpected _ _
  | pattern left op stack =>
    simp only [step, takePattern]
    split
    · next hkind => exact .shift _ (by simp [Token.isClosing, TokenKind.isClosing, hkind])
    · exact .unexpected _ _
  | operator e stack => exact settle_moves m t _ e stack

/-! ## Shifts -/

/-- The machine shifts the tokens, one after the other. -/
inductive Shifts (m : Machine) : State → List Token → State → Prop
  | nil (state : State) : Shifts m state [] state
  | cons {state next last : State} {t : Token} {tokens : List Token} :
      m.step t state = .shift next → Shifts m next tokens last → Shifts m state (t :: tokens) last

namespace Shifts

variable {state state' : State} {tokens : List Token}

theorem run (h : m.Shifts state tokens state') (ending : Ending) (rest : List Token) :
    m.run ending state (tokens ++ rest) = m.run ending state' rest := by
  induction h with
  | nil => rfl
  | cons hstep _ ih => simp only [List.cons_append, Machine.run, hstep, ih]

theorem follows {passed : List Token} (h : m.Shifts state tokens state')
    (hstate : m.Follows state passed) : m.Follows state' (passed ++ tokens) := by
  induction h generalizing passed with
  | nil => simpa using hstate
  | @cons state next last t tokens hstep _ ih =>
    have hnext := step_sound (t := t) hstate
    rw [hstep] at hnext
    simpa using ih hnext

end Shifts

/-- **A run stops at the first token that is not shifted**, and the state there decides. -/
theorem run_eq_close {last : Token} {tokens : List Token}
    (hopen : ∀ t ∈ tokens, t.isClosing = false) (hlast : last.isClosing = true)
    (error : Option LexError) (m : Machine) (state : State) :
    ∃ consumed rest state' t, tokens = consumed ++ rest ∧
      following rest (.closed last error) = some t ∧ m.Shifts state consumed state' ∧
      (∀ next, m.step t state' ≠ .shift next) ∧
      m.run (.closed last error) state tokens = (m.close state' t error, rest) := by
  induction tokens generalizing state with
  | nil =>
    refine ⟨[], [], state, last, rfl, rfl, .nil state, fun next hstep => ?_, rfl⟩
    have hmoves := m.step_moves last state
    rw [hstep] at hmoves
    cases hmoves with
    | shift _ hclosing =>
      rw [hlast] at hclosing
      cases hclosing
  | cons t tokens ih =>
    obtain ⟨ht, htokens⟩ := List.forall_mem_cons.1 hopen
    cases hstep : m.step t state with
    | shift next =>
      obtain ⟨consumed, rest, state', t', rfl, hfollowing, hshifts, hstops, hrun⟩ :=
        ih htokens next
      refine ⟨t :: consumed, rest, state', t', rfl, hfollowing, .cons hstep hshifts, hstops, ?_⟩
      simp only [Machine.run, hstep, hrun]
    | done e =>
      refine ⟨[], t :: tokens, state, t, rfl, rfl, .nil state, by simp [hstep], ?_⟩
      simp only [Machine.run, close, hstep]
    | reject complaint =>
      refine ⟨[], t :: tokens, state, t, rfl, rfl, .nil state, by simp [hstep], ?_⟩
      simp only [Machine.run, close, hstep, ParseError.about_of_open ht]

/-! ## Higher limits -/

/-- The machine with another limit. -/
def raised (m : Machine) (limit : Int) : Machine := { m with limit := limit }

theorem settle_raised (m : Machine) (limit : Int) (t : Token) (e : Expr) (stack : List Frame) :
    (m.raised limit).settle t e stack = m.settle t e stack := by
  induction stack generalizing e with
  | nil => rfl
  | cons frame stack ih => simp only [settle, ih]

/-- With a higher limit the machine makes the same move, unless the move was about depth. -/
theorem step_raised {limit : Int} (hle : m.limit ≤ limit) {t : Token} {state : State}
    (h : ∀ n, m.step t state ≠ .reject (.tooDeep n)) :
    (m.raised limit).step t state = m.step t state := by
  cases state with
  | operand stack =>
    have hdeep : m.isTooDeep stack = false := by
      by_contra hdeep
      exact h m.limit (by simp [step, startOperand, hdeep])
    have hraised : (m.raised limit).isTooDeep stack = false := by
      rw [isTooDeep_eq_false] at hdeep ⊢
      exact hdeep.imp_right fun hfits => Int.le_trans hfits hle
    simp [step, startOperand, hdeep, hraised]
  | pattern left op stack => rfl
  | operator e stack => exact settle_raised m limit t e stack

theorem Shifts.raised {limit : Int} (hle : m.limit ≤ limit) {state state' : State}
    {tokens : List Token} (h : m.Shifts state tokens state') :
    (m.raised limit).Shifts state tokens state' := by
  induction h with
  | nil state => exact .nil state
  | cons hstep _ ih =>
    refine .cons ?_ ih
    rw [step_raised hle (by simp [hstep]), hstep]

/-! ## Completing what has been read -/

/-- Each frame stands for at least one token. -/
theorem Reads.length_le {stack : List Frame} {passed : List Token} (h : Reads m stack passed) :
    stack.length ≤ passed.length := by
  induction h with
  | nil => exact le_rfl
  | group | operandOf | rightOf =>
    simp only [List.length_cons, List.length_append, List.length_nil]
    omega

/-- A phrase on top of a stack is part of a larger one that starts with the tokens of the stack. -/
theorem Reads.exists_derives {stack : List Frame} {before : List Token} (h : Reads m stack before)
    {s : Stratum} {p : Phrase} (hp : Derives s p) (hfits : m.Fits stack s) :
    ∃ q more, Derives .disjunction q ∧ q.tokens = before ++ (p.tokens ++ more) := by
  induction h generalizing s p with
  | nil => exact ⟨p, [], hp.mono s.disjunction_level_le, by simp⟩
  | @group stack before t _ ht ih =>
    have hgroup : Derives .operand (.group t p (.bare .rightParen (ascii ")"))) :=
      .group ht (hp.mono s.disjunction_level_le) rfl
    obtain ⟨q, more, hq, htokens⟩ := ih hgroup (.inl rfl)
    exact ⟨q, _ :: more, hq, by simpa [Phrase.tokens] using htokens⟩
  | operandOf _ hop ih =>
    obtain ⟨hkind, hlevel⟩ := prefixLevel?_eq_some hop
    obtain rfl := hfits.eq_operand hlevel
    obtain ⟨q, more, hq, htokens⟩ := ih (.applied hkind hp) (.inl rfl)
    exact ⟨q, more, hq, by simpa [Phrase.tokens] using htokens⟩
  | rightOf _ hleft hop hadmits _ ih =>
    have hright := hp.mono (Stratum.tighter_level_le (hfits.level_lt hop)).2
    obtain ⟨q, more, hq, htokens⟩ := ih (.joined hleft hop hright) (.inr hadmits)
    exact ⟨q, more, hq, by simpa [Phrase.tokens] using htokens⟩

/-- **What the machine has read is the beginning of a phrase.** -/
theorem Follows.exists_derives {state : State} {passed : List Token} (h : m.Follows state passed) :
    ∃ q more, Derives .disjunction q ∧ q.tokens = passed ++ more := by
  cases state with
  | operand stack =>
    have hnumber : Derives .operand (.literal (.bare .number (ascii "0"))) := .literal (by decide)
    obtain ⟨q, more, hq, htokens⟩ := Reads.exists_derives h hnumber (.inl rfl)
    exact ⟨q, _, hq, htokens⟩
  | pattern left op stack =>
    obtain ⟨p, before, hp, -, hop, rfl⟩ := h
    obtain ⟨first, hreads, rfl⟩ := hp.reads
    have hmatched : Derives .matching (.matched p op (.bare .string [])) :=
      .matched hp.derives hop rfl
    obtain ⟨q, more, hq, htokens⟩ := hreads.exists_derives hmatched hp.fits
    exact ⟨q, _ :: more, hq, by simpa [Phrase.tokens] using htokens⟩
  | operator e stack =>
    obtain ⟨s, p, hp, -, -⟩ := h
    obtain ⟨first, hreads, rfl⟩ := hp.reads
    obtain ⟨q, more, hq, htokens⟩ := hreads.exists_derives hp.derives hp.fits
    exact ⟨q, more, hq, by simpa using htokens⟩

end Machine

/-! ## Viable prefixes -/

/-- Some sentence starts with the tokens. -/
def Viable (tokens : List Token) : Prop :=
  ∃ p sentence, Sentence p sentence ∧ tokens <+: sentence

theorem Machine.Follows.viable {m : Machine} {state : State} {passed : List Token}
    (h : m.Follows state passed) : Viable passed := by
  obtain ⟨q, more, hq, htokens⟩ := h.exists_derives
  refine ⟨q, q.tokens ++ [.bare .eof []], ⟨hq, _, rfl, rfl⟩, ?_⟩
  rw [htokens, List.append_assoc]
  exact List.prefix_append ..

/-! ## Refused tokens -/

namespace Machine

/-- A whole parse goes no further than this token. Behind a complete expression, only the end of the
text is accepted. -/
inductive Refuses (m : Machine) (state : State) (t : Token) : Complaint → Prop
  | reject {complaint : Complaint} : m.step t state = .reject complaint →
      Refuses m state t complaint
  | trailing {e : Expr} : m.step t state = .done e → t.kind ≠ .eof →
      Refuses m state t (.unexpected .input (some .eof))

/-- A sentence is accepted, if there are levels enough for its nesting. -/
theorem run_sentence {q : Phrase} (hq : Derives .disjunction q) {depth : Nat} {limit : Int}
    (hlimit : ((depth + q.nesting : Nat) : Int) ≤ limit) {last : Token} (hlast : last.kind = .eof)
    (error : Option LexError) :
    run ⟨.expression 0, depth, limit⟩ (.closed last error) (.operand []) q.tokens =
      (.ok q.tree, []) := by
  have hfits : Fits ⟨.expression 0, depth, limit⟩ [] .disjunction :=
    .inr (show (0 : Int) < 1 by decide)
  have hstops : Stops .disjunction [] (.closed last error) := by
    intro t ht op hop
    cases ht
    rw [hlast] at hop
    cases hop
  have hrun := run_phrase hq hfits (.inr hlimit) hstops
  rw [List.append_nil] at hrun
  rw [hrun]
  simp [run, close, step, settle, infixAbove?, hlast, TokenKind.infixOp?]

/-- **No sentence goes on with a refused token**, unless it was refused for its depth. -/
theorem Refuses.not_viable {limit : Int} {consumed : List Token} {state : State} {t : Token}
    {complaint : Complaint} (h : (whole limit).Refuses state t complaint)
    (hshifts : (whole limit).Shifts (.operand []) consumed state)
    (hdeep : ∀ n, complaint ≠ .tooDeep n) : ¬ Viable (consumed ++ [t]) := by
  rintro ⟨q, sentence, ⟨hq, last, hlast, rfl⟩, rest, hrest⟩
  -- A machine with a limit that is high enough for the sentence goes the same way.
  have hle : limit ≤ max limit q.nesting := Int.le_max_left ..
  have hmax : ((0 + q.nesting : Nat) : Int) ≤ max limit q.nesting := by omega
  have hrun : ((whole limit).raised (max limit q.nesting)).run (.closed last none) (.operand [])
      q.tokens = (.ok q.tree, []) := run_sentence hq hmax hlast none
  have hraised := hshifts.raised hle
  have hstep : ((whole limit).raised (max limit q.nesting)).step t state =
      (whole limit).step t state := by
    refine step_raised hle fun n => ?_
    cases h with
    | reject hstep => simpa [hstep] using hdeep n
    | trailing hstep _ => simp [hstep]
  rcases rest.eq_nil_or_concat with rfl | ⟨more, final, rfl⟩
  · -- The sentence ends with the token.
    rw [List.append_nil] at hrest
    obtain ⟨htokens, ht⟩ := List.append_inj' hrest rfl
    obtain rfl : t = last := List.singleton_inj.1 ht
    have hend := hraised.run (.closed t none) []
    rw [List.append_nil, htokens, hrun] at hend
    cases h with
    | reject hreject => simp [run, close, hstep, hreject] at hend
    | trailing _ hkind => exact hkind hlast
  · -- The token is one of the phrase.
    rw [List.concat_eq_append, ← List.append_assoc] at hrest
    obtain ⟨htokens, -⟩ := List.append_inj' hrest rfl
    have hgo := hraised.run (.closed last none) (t :: more)
    rw [← htokens, List.append_assoc, List.singleton_append, hgo] at hrun
    cases h with
    | reject hreject => simp [run, hstep, hreject] at hrun
    | trailing hdone _ => simp [run, hstep, hdone] at hrun

end Machine

/-! ## The stop of a parse -/

/-- The tokens of a text, up to and including the closing one. -/
def tokensOf (input : Bytes) : List Token :=
  match (Lexer.ofText filterRules input).stream with
  | (tokens, .closed last _) => tokens ++ [last]
  | (tokens, .broken _) => tokens

theorem tokensOf_eq {input : Bytes} {tokens : List Token} {last : Token} {error : Option LexError}
    (h : Lexes input .start input tokens (.closed last error)) :
    tokensOf input = tokens ++ [last] := by
  simp only [tokensOf, Lexer.stream_ofText h]

/-- The error of a stream is the one that is reported when the text is split into tokens. -/
theorem tokenize_eq_error {input : Bytes} {tokens : List Token} {last : Token}
    {error : Option LexError} (h : Lexes input .start input tokens (.closed last error))
    {e : LexError} : tokenize input = .error e ↔ error = some e := by
  cases error <;> simp [tokenize, Lexer.stream_ofText h]

namespace Lexes

variable {input text : Bytes} {p : Position} {tokens : List Token} {last : Token}
  {error : Option LexError}

theorem closing_last (h : Lexes input p text tokens (.closed last error)) :
    last.isClosing = true := by
  obtain ⟨q, heq | heq⟩ := h.ending_cases <;> cases heq <;> rfl

theorem exists_error_iff (h : Lexes input p text tokens (.closed last error)) :
    (∃ e, error = some e) ↔ last.kind = .error := by
  obtain ⟨q, heq | heq⟩ := h.ending_cases <;> cases heq <;> simp [Token.located]

end Lexes

theorem Token.isClosing_of_error {t : Token} (h : t.kind = .error) : t.isClosing = true := by
  rw [isClosing, h]
  rfl

theorem Token.kind_ne_eof {t : Token} (h : t.isClosing = false) : t.kind ≠ .eof := by
  intro hkind
  rw [isClosing, hkind] at h
  cases h

/-- Where a whole parse stops, and what comes of it. -/
structure Stop (limit : Int) (input : Bytes) where
  before : List Token
  token : Token
  after : List Token
  /-- What the machine waits for at the token. -/
  state : Machine.State
  tokens_eq : tokensOf input = before ++ token :: after
  isClosing_iff : token.isClosing = true ↔ after = []
  shifts : (Machine.whole limit).Shifts (.operand []) before state
  /-- The lexical error of the text, if there is one. -/
  error : Option LexError
  tokenize_iff : ∀ e, tokenize input = .error e ↔ error = some e
  isError_iff : token.kind = .error ↔ after = [] ∧ ∃ e, error = some e
  outcome : (∃ e, token.kind = .eof ∧ parse limit input = .ok e) ∨
    ∃ complaint, (Machine.whole limit).Refuses state token complaint ∧
      parse limit input = .error (.about token error complaint)

/-- **A parse stops at the first token that is not shifted**: it accepts the end of the text or
refuses the token. -/
theorem exists_stop (limit : Int) (input : Bytes) : Nonempty (Stop limit input) := by
  obtain ⟨tokens, last, error, h⟩ := exists_lexes_closed input
  have hopen : ∀ t ∈ tokens, t.isClosing = false := fun t ht => (h.spelled t ht).not_closing
  obtain ⟨consumed, rest, state, t, rfl, hfollowing, hshifts, hstop, hrun⟩ :=
    Machine.run_eq_close hopen h.closing_last error (Machine.whole limit) (.operand [])
  have hall := tokensOf_eq h
  have hparse := parse_eq h limit
  rw [List.append_assoc] at hall
  rw [hrun, Machine.close] at hparse
  cases rest with
  | nil =>
    cases hfollowing
    refine ⟨⟨consumed, last, [], state, hall, by simp [h.closing_last], hshifts, error,
      fun e => tokenize_eq_error h, by simp [← h.exists_error_iff], ?_⟩⟩
    cases hstep : (Machine.whole limit).step last state with
    | shift next => exact absurd hstep (hstop next)
    | reject complaint =>
      rw [hstep] at hparse
      exact .inr ⟨complaint, .reject hstep, hparse⟩
    | done e =>
      simp only [hstep, Machine.conclude] at hparse
      split at hparse
      · next hkind => exact .inl ⟨e, hkind, hparse⟩
      · next hkind => exact .inr ⟨_, .trailing hstep hkind, hparse⟩
  | cons t' rest =>
    cases hfollowing
    have ht : t.isClosing = false := hopen t (by simp)
    have hkind : t.kind ≠ .error := fun hkind => by simp [Token.isClosing_of_error hkind] at ht
    refine ⟨⟨consumed, t, rest ++ [last], state, hall, by simp [ht], hshifts, error,
      fun e => tokenize_eq_error h, by simp [hkind], .inr ?_⟩⟩
    cases hstep : (Machine.whole limit).step t state with
    | shift next => exact absurd hstep (hstop next)
    | reject complaint =>
      rw [hstep] at hparse
      exact ⟨complaint, .reject hstep, hparse⟩
    | done e =>
      simp only [hstep, Machine.conclude] at hparse
      refine ⟨_, .trailing hstep (Token.kind_ne_eof ht), ?_⟩
      rw [hparse, ParseError.about_of_open ht]

/-! ## The earliest error -/

namespace ParseError

variable {t : Token} {error : Option LexError} {complaint : Complaint}

theorem about_eq_lexical {e : LexError} (h : about t error complaint = .lexical e) :
    t.kind = .error ∧ error = some e := by
  simp only [about] at h
  split at h
  · next hkind =>
    cases h
    exact ⟨hkind, rfl⟩
  · cases h

theorem about_eq_grammatical {e : SyntaxError} (h : about t error complaint = .grammatical e) :
    e = ⟨t, complaint⟩ := by
  simp only [about] at h
  split at h
  · cases h
  · cases h
    rfl

end ParseError

namespace Machine.Refuses

variable {m : Machine} {state : State} {t : Token}

/-- An error token is refused for its error, unless it is refused for its depth. -/
theorem about_error {complaint : Complaint} (h : m.Refuses state t complaint)
    (hkind : t.kind = .error) (hdeep : ∀ n, complaint ≠ .tooDeep n) (e : LexError) :
    ParseError.about t (some e) complaint = .lexical e := by
  obtain ⟨place, expected, rfl⟩ : ∃ place expected, complaint = .unexpected place expected := by
    cases h with
    | trailing => exact ⟨_, _, rfl⟩
    | reject hstep =>
      have hmoves := m.step_moves t state
      rw [hstep] at hmoves
      cases hmoves with
      | unexpected place expected => exact ⟨place, expected, rfl⟩
      | tooDeep => exact absurd rfl (hdeep _)
      | reserved hopen =>
        rw [Token.isClosing_of_error hkind] at hopen
        cases hopen
  simp only [ParseError.about, hkind]

/-- A complaint about depth needs as many tokens as there are levels. -/
theorem limit_le {limit n : Int} {passed : List Token}
    (h : (whole limit).Refuses state t (.tooDeep n)) (hstate : (whole limit).Follows state passed) :
    limit ≤ passed.length := by
  cases h with
  | reject hstep =>
    have hmoves := (whole limit).step_moves t state
    rw [hstep] at hmoves
    cases hmoves with
    | @tooDeep stack hstack hdeep =>
      subst hstack
      have hlength := Reads.length_le hstate
      by_contra hlt
      have hallows : (whole limit).Allows ((whole limit).nesting stack) := by
        simp only [Allows, nesting, whole]
        omega
      rw [isTooDeep_eq_false.2 hallows] at hdeep
      cases hdeep

end Machine.Refuses

theorem Viable.mono {tokens before : List Token} (h : Viable tokens) (hle : before <+: tokens) :
    Viable before := by
  obtain ⟨p, sentence, hp, hprefix⟩ := h
  exact ⟨p, sentence, hp, hle.trans hprefix⟩

namespace Stop

variable {limit : Int} {input : Bytes} (stop : Stop limit input)

theorem follows : (Machine.whole limit).Follows stop.state stop.before := by
  have hstart : (Machine.whole limit).Follows (.operand []) [] := Machine.Reads.nil
  exact stop.shifts.follows hstart

theorem viable : Viable stop.before :=
  stop.follows.viable

/-- A failed parse has refused the token at which it stops. -/
theorem refuses_of_error {error : ParseError} (h : parse limit input = .error error) :
    ∃ complaint, (Machine.whole limit).Refuses stop.state stop.token complaint ∧
      error = .about stop.token stop.error complaint := by
  rcases stop.outcome with ⟨e, -, hok⟩ | ⟨complaint, hrefuses, hfail⟩
  · rw [hok] at h
    cases h
  · rw [hfail] at h
    exact ⟨complaint, hrefuses, (Except.error.inj h).symm⟩

/-- If the error is not about depth, no sentence goes on with the token. -/
theorem of_grammatical {error : SyntaxError} (h : parse limit input = .error (.grammatical error)) :
    error.token = stop.token ∧ (∀ n, error.complaint = .tooDeep n → limit ≤ stop.before.length) ∧
      ((∀ n, error.complaint ≠ .tooDeep n) → stop.token.kind ≠ .error ∧
        ¬ Viable (stop.before ++ [stop.token])) := by
  obtain ⟨complaint, hrefuses, habout⟩ := stop.refuses_of_error h
  obtain rfl := ParseError.about_eq_grammatical habout.symm
  refine ⟨rfl, ?_, fun hdeep => ⟨fun hkind => ?_, hrefuses.not_viable stop.shifts hdeep⟩⟩
  · rintro n rfl
    exact hrefuses.limit_le stop.follows
  · obtain ⟨-, e, he⟩ := stop.isError_iff.1 hkind
    rw [he, hrefuses.about_error hkind hdeep] at habout
    cases habout

/-- A lexical error is reported at the end of the tokens. -/
theorem of_lexical {error : LexError} (h : parse limit input = .error (.lexical error)) :
    tokenize input = .error error ∧ stop.token.kind = .error ∧ stop.after = [] := by
  obtain ⟨complaint, hrefuses, habout⟩ := stop.refuses_of_error h
  obtain ⟨hkind, herror⟩ := ParseError.about_eq_lexical habout.symm
  exact ⟨(stop.tokenize_iff error).2 herror, hkind, (stop.isError_iff.1 hkind).1⟩

/-- A parse stops at the closing token or before it. -/
theorem at_last_or_before {before : List Token} {last : Token}
    (h : tokensOf input = before ++ [last]) :
    (stop.after = [] ∧ stop.before = before) ∨
      stop.after ≠ [] ∧ ∃ more, before = stop.before ++ stop.token :: more := by
  rw [stop.tokens_eq] at h
  rcases List.eq_nil_or_concat stop.after with hafter | ⟨more, x, hafter⟩
  · rw [hafter] at h
    exact .inl ⟨hafter, (List.append_inj' h rfl).1⟩
  · rw [hafter, List.concat_eq_append, ← List.cons_append, ← List.append_assoc] at h
    exact .inr ⟨by simp [hafter], more, (List.append_inj' h rfl).1.symm⟩

/-- At the token of a lexical error the parse reports the error, or depth. -/
theorem parse_of_last {error : LexError} (herror : tokenize input = .error error)
    (h : stop.after = []) : parse limit input = .error (.lexical error) ∨
      ∃ n, parse limit input = .error (.grammatical ⟨stop.token, .tooDeep n⟩) := by
  obtain herror := (stop.tokenize_iff error).1 herror
  have hkind : stop.token.kind = .error := stop.isError_iff.2 ⟨h, error, herror⟩
  rcases stop.outcome with ⟨e, heof, -⟩ | ⟨complaint, hrefuses, hparse⟩
  · rw [hkind] at heof
    cases heof
  rw [herror] at hparse
  by_cases hdeep : ∃ n, complaint = .tooDeep n
  · obtain ⟨n, rfl⟩ := hdeep
    exact .inr ⟨n, hparse⟩
  · rw [hrefuses.about_error hkind (fun n hn => hdeep ⟨n, hn⟩)] at hparse
    exact .inl hparse

/-- At an earlier token the parse complains about that token. -/
theorem parse_of_open (h : stop.after ≠ []) :
    ∃ complaint, parse limit input = .error (.grammatical ⟨stop.token, complaint⟩) := by
  have hopen : stop.token.isClosing = false := by
    rwa [← Bool.not_eq_true, stop.isClosing_iff]
  rcases stop.outcome with ⟨e, heof, -⟩ | ⟨complaint, -, hparse⟩
  · exact absurd heof (Token.kind_ne_eof hopen)
  · rw [ParseError.about_of_open hopen] at hparse
    exact ⟨complaint, hparse⟩

end Stop

/-- **The earliest error is reported.** A complaint about a token comes with tokens before it that
can be continued to a sentence; if it is about depth, there are as many of them as levels are
allowed, and else no sentence starts with them and the token, which is not an error token. A
lexical error is the one of the token stream, and all tokens before it can be continued. So if a
text has a lexical error, what is reported depends on the tokens before it only: if they cannot be
continued to a sentence, the error is about one of them, and if they can, it is the lexical error
unless the expression is nested too deep. -/
theorem parse_error_earliest (limit : Int) (input : Bytes) :
    (∀ error, parse limit input = .error (.grammatical error) →
      ∃ before after, tokensOf input = before ++ error.token :: after ∧ Viable before ∧
        (∀ n, error.complaint = .tooDeep n → limit ≤ before.length) ∧
        ((∀ n, error.complaint ≠ .tooDeep n) → error.token.kind ≠ .error ∧
          ¬ Viable (before ++ [error.token]) ∧
          (error.token.kind = .eof → ∀ p, Derives .disjunction p → p.tokens ≠ before))) ∧
    (∀ error, parse limit input = .error (.lexical error) → tokenize input = .error error ∧
      ∃ before last, tokensOf input = before ++ [last] ∧ last.kind = .error ∧ Viable before) ∧
    ∀ error before last, tokenize input = .error error → tokensOf input = before ++ [last] →
      (¬ Viable before → ∃ e, parse limit input = .error (.grammatical e) ∧ e.token ∈ before) ∧
      (Viable before → parse limit input = .error (.lexical error) ∨
        ∃ token n, parse limit input = .error (.grammatical ⟨token, .tooDeep n⟩)) := by
  obtain ⟨stop⟩ := exists_stop limit input
  refine ⟨fun error herror => ?_, fun error herror => ?_, ?_⟩
  · obtain ⟨htoken, hlimit, hrefused⟩ := stop.of_grammatical herror
    rw [htoken]
    refine ⟨stop.before, stop.after, stop.tokens_eq, stop.viable, hlimit, fun hdeep => ?_⟩
    obtain ⟨hkind, hviable⟩ := hrefused hdeep
    refine ⟨hkind, hviable, fun heof p hp htokens => hviable ?_⟩
    exact ⟨p, _, ⟨hp, stop.token, heof, htokens ▸ rfl⟩, List.prefix_refl _⟩
  · obtain ⟨htokenize, hkind, hafter⟩ := stop.of_lexical herror
    exact ⟨htokenize, stop.before, stop.token, hafter ▸ stop.tokens_eq, hkind, stop.viable⟩
  · intro error before last herror hbefore
    rcases stop.at_last_or_before hbefore with ⟨hafter, rfl⟩ | ⟨hafter, more, rfl⟩
    · refine ⟨absurd stop.viable, fun _ => ?_⟩
      exact (stop.parse_of_last herror hafter).imp_right fun ⟨n, h⟩ => ⟨_, n, h⟩
    · obtain ⟨complaint, hparse⟩ := stop.parse_of_open hafter
      refine ⟨fun _ => ⟨_, hparse, by simp⟩, fun hviable => .inr ?_⟩
      -- Were it not about depth, no sentence would start with the tokens up to this one.
      by_cases hdeep : ∃ n, complaint = .tooDeep n
      · obtain ⟨n, rfl⟩ := hdeep
        exact ⟨_, n, hparse⟩
      · obtain ⟨-, hnot⟩ := (stop.of_grammatical hparse).2.2 fun n hn => hdeep ⟨n, hn⟩
        exact absurd (hviable.mono ⟨more, by simp⟩) hnot

end FilterQuery
