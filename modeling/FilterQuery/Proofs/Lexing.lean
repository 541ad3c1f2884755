import FilterQuery.Proofs.Scanning

/-!
# Token streams of the filter language

The lexer takes its tokens one at a time, with bounds on how often it may try. This module says
what comes out without the bounds. `Lexes` derives the tokens of a text piece by piece: a skipped
piece, a token, the end, or a place where no rule matches.

**Nothing breaks.** Every piece is non-empty, so the bounds are never reached, and the stream of a
text is exactly what `Lexes` derives (`stream_ofText`). In particular it always ends with a closing
token, never with a fault.

**Tokens are well spelled.** Each token of a derivation has a text that fits its kind
(`Lexes.spelled`), and the closing token is an `eof` token, or an `error` token that comes with its
error (`Lexes.ending_cases`).
-/

namespace FilterQuery

/-! ## Derivations of streams -/

/-- The error at a place in a text. -/
def LexError.at (input : Bytes) (p : Position) : LexError :=
  ⟨input, p.offset, p.line, p.column⟩

/-- The ending at the end of a text. -/
def Ending.finished (p : Position) : Ending :=
  .closed (.located p .eof []) none

/-- The ending at a place where no rule matches. -/
def Ending.failed (input : Bytes) (p : Position) : Ending :=
  .closed (.located p .error (LexError.at input p).message) (some (.at input p))

/-- The tokens and the ending of what is left of `input` at a position. -/
inductive Lexes (input : Bytes) : Position → Bytes → List Token → Ending → Prop
  | finish (p : Position) : Lexes input p [] [] (.finished p)
  | fail (p : Position) {text : Bytes} : text ≠ [] → Rule.firstMatch filterDialect text = none →
      Lexes input p text [] (.failed input p)
  | skip {p : Position} {text lexeme rest : Bytes} {r : Rule} {tokens : List Token}
      {ending : Ending} : Rule.firstMatch filterDialect text = some (r, lexeme, rest) →
      r.action = .skip → Lexes input (p.advance lexeme) rest tokens ending →
      Lexes input p text tokens ending
  | token {p : Position} {text lexeme rest : Bytes} {r : Rule} {tokens : List Token}
      {ending : Ending} : Rule.firstMatch filterDialect text = some (r, lexeme, rest) →
      r.action ≠ .skip → Lexes input (p.advance lexeme) rest tokens ending →
      Lexes input p text (.located p r.kind (r.value lexeme) :: tokens) ending

theorem isEmpty_of_firstMatch {text : Bytes} {r : Rule} {lexeme rest : Bytes}
    (h : Rule.firstMatch filterDialect text = some (r, lexeme, rest)) : text.isEmpty = false := by
  obtain ⟨rfl, hne⟩ := firstMatch_split h
  simp [hne]

theorem rest_lt {text : Bytes} {r : Rule} {lexeme rest : Bytes}
    (h : Rule.firstMatch filterDialect text = some (r, lexeme, rest)) :
    rest.length < text.length := by
  obtain ⟨rfl, hne⟩ := firstMatch_split h
  have := List.length_pos_iff.2 hne
  simp only [List.length_append]
  omega

/-- Every text has a stream. -/
theorem exists_lexes (input : Bytes) (p : Position) (text : Bytes) :
    ∃ tokens ending, Lexes input p text tokens ending := by
  induction hn : text.length using Nat.strong_induction_on generalizing p text with
  | _ n ih =>
    by_cases hnil : text = []
    · subst hnil
      exact ⟨[], _, .finish p⟩
    cases hmatch : Rule.firstMatch filterDialect text with
    | none => exact ⟨[], _, .fail p hnil hmatch⟩
    | some found =>
      obtain ⟨r, lexeme, rest⟩ := found
      obtain ⟨tokens, ending, hrest⟩ :=
        ih rest.length (hn ▸ rest_lt hmatch) (p.advance lexeme) rest rfl
      by_cases hskip : r.action = .skip
      · exact ⟨tokens, ending, .skip hmatch hskip hrest⟩
      · exact ⟨_, ending, .token hmatch hskip hrest⟩

namespace Lexes

variable {input text : Bytes} {p : Position} {tokens : List Token} {ending : Ending}

/-- The stream ends with an `eof` token, or with an `error` token and its error. -/
theorem ending_cases (h : Lexes input p text tokens ending) :
    ∃ q, ending = .finished q ∨ ending = .failed input q := by
  induction h with
  | finish p => exact ⟨p, .inl rfl⟩
  | fail p _ _ => exact ⟨p, .inr rfl⟩
  | skip _ _ _ ih => exact ih
  | token _ _ _ ih => exact ih

/-- **Every token of a stream is well spelled.** -/
theorem spelled (h : Lexes input p text tokens ending) :
    ∀ t ∈ tokens, Spelled t.kind t.text := by
  induction h with
  | finish => simp
  | fail => simp
  | skip _ _ _ ih => exact ih
  | token hmatch hskip _ ih =>
    intro t ht
    rcases List.mem_cons.1 ht with rfl | ht
    · exact (spelled_of_firstMatch hmatch hskip).1
    · exact ih t ht

end Lexes

/-- The stream of a text ends with a closing token. -/
theorem exists_lexes_closed (input : Bytes) :
    ∃ tokens last error, Lexes input .start input tokens (.closed last error) := by
  obtain ⟨tokens, ending, h⟩ := exists_lexes input .start input
  obtain ⟨p, rfl | rfl⟩ := h.ending_cases
  · exact ⟨tokens, _, _, h⟩
  · exact ⟨tokens, _, _, h⟩

theorem Spelled.not_closing {t : Token} (h : Spelled t.kind t.text) : t.isClosing = false := by
  cases hk : t.kind <;> simp_all [Spelled, TokenKind.isFixed, Token.isClosing, TokenKind.isClosing]

/-! ## The lexer follows the derivation -/

namespace Lexer

/-- A lexer of the filter language between two tokens. -/
def between (input : Bytes) (p : Position) (text : Bytes) : Lexer where
  rules := filterDialect
  input := input
  size := input.length
  start := p
  pending := []
  rest := text
  buffered := none
  error := none
  ended := false

theorem ofText_filterRules (input : Bytes) :
    ofText filterRules input = between input .start input := rfl

variable {input text lexeme rest : Bytes} {p : Position} {r : Rule}

theorem scan_finish (runs : Nat) :
    scan (runs + 1) (between input p []) =
      (.ok (.located p .eof []), { between input p [] with ended := true }) := rfl

theorem scan_fail (runs : Nat) (hne : text ≠ [])
    (h : Rule.firstMatch filterDialect text = none) :
    scan (runs + 1) (between input p text) =
      (.ok (.located p .error (LexError.at input p).message),
        { between input p text with error := some (.at input p), ended := true }) := by
  cases text with
  | nil => exact absurd rfl hne
  | cons b text =>
    simp only [scan, between, isEnd, List.isEmpty_cons, h]
    rfl

theorem scan_skip (runs : Nat)
    (h : Rule.firstMatch filterDialect text = some (r, lexeme, rest)) (hskip : r.action = .skip) :
    scan (runs + 1) (between input p text) =
      scan runs (between input (p.advance lexeme) rest) := by
  have hne : text.isEmpty = false := isEmpty_of_firstMatch h
  simp only [scan, between, isEnd, hne, h, hskip]
  rfl

theorem scan_token (runs : Nat)
    (h : Rule.firstMatch filterDialect text = some (r, lexeme, rest)) (hskip : r.action ≠ .skip) :
    scan (runs + 1) (between input p text) =
      (.ok (.located p r.kind (r.value lexeme)), between input (p.advance lexeme) rest) := by
  have hne : text.isEmpty = false := isEmpty_of_firstMatch h
  cases haction : r.action with
  | skip => exact absurd haction hskip
  | emit =>
    simp only [scan, between, isEnd, hne, h, haction, Rule.value]
    rfl
  | unquote =>
    have hlen : ¬ lexeme.length < 2 := Nat.not_lt.2 (two_le_of_unquote h haction)
    simp only [scan, between, isEnd, hne, h, haction, Rule.value, read, List.nil_append, hlen]
    rfl

/-- More runs than there are bytes left are as good as any other such number. -/
theorem scan_runs {runs runs' : Nat} (h : text.length < runs) (h' : text.length < runs') :
    scan runs (between input p text) = scan runs' (between input p text) := by
  induction hn : text.length using Nat.strong_induction_on generalizing p text runs runs' with
  | _ n ih =>
    obtain ⟨runs, rfl⟩ : ∃ k, runs = k + 1 := ⟨runs - 1, by omega⟩
    obtain ⟨runs', rfl⟩ : ∃ k, runs' = k + 1 := ⟨runs' - 1, by omega⟩
    by_cases hnil : text = []
    · subst hnil
      rw [scan_finish, scan_finish]
    cases hmatch : Rule.firstMatch filterDialect text with
    | none => rw [scan_fail _ hnil hmatch, scan_fail _ hnil hmatch]
    | some found =>
      obtain ⟨r, lexeme, rest⟩ := found
      have hlt := rest_lt hmatch
      by_cases hskip : r.action = .skip
      · rw [scan_skip _ hmatch hskip, scan_skip _ hmatch hskip]
        exact ih rest.length (by omega) (by omega) (by omega) rfl
      · rw [scan_token _ hmatch hskip, scan_token _ hmatch hskip]

theorem nextToken_between : (between input p text).nextToken =
    scan (input.length + 1) (between input p text) := rfl

theorem nextToken_skip (hlen : text.length ≤ input.length)
    (h : Rule.firstMatch filterDialect text = some (r, lexeme, rest)) (hskip : r.action = .skip) :
    (between input p text).nextToken = (between input (p.advance lexeme) rest).nextToken := by
  have hlt := rest_lt h
  rw [nextToken_between, nextToken_between, scan_skip _ h hskip]
  exact scan_runs (by omega) (by omega)

/-- **The lexer gives out the tokens of the derivation**, if its bound is above the number of
bytes. -/
theorem collect_between {tokens : List Token} {ending : Ending}
    (h : Lexes input p text tokens ending) (hlen : text.length ≤ input.length) (found : List Token)
    {bound : Nat} (hbound : text.length < bound) :
    collect found bound (between input p text) = (found.reverse ++ tokens, ending) := by
  induction h generalizing found bound with
  | finish p =>
    obtain ⟨bound, rfl⟩ : ∃ k, bound = k + 1 := ⟨bound - 1, by omega⟩
    simp only [collect, nextToken_between, scan_finish]
    simp [Token.isClosing, Token.located, TokenKind.isClosing, Ending.finished, between]
  | fail p hne hmatch =>
    obtain ⟨bound, rfl⟩ : ∃ k, bound = k + 1 := ⟨bound - 1, by omega⟩
    simp only [collect, nextToken_between, scan_fail _ hne hmatch]
    simp [Token.isClosing, Token.located, TokenKind.isClosing, Ending.failed]
  | @skip p text lexeme rest r tokens ending hmatch hskip _ ih =>
    have hlt := rest_lt hmatch
    rw [← ih (by omega) found (by omega : rest.length < bound)]
    obtain ⟨bound, rfl⟩ : ∃ k, bound = k + 1 := ⟨bound - 1, by omega⟩
    simp only [collect, nextToken_skip hlen hmatch hskip]
  | @token p text lexeme rest r tokens ending hmatch hskip _ ih =>
    have hlt := rest_lt hmatch
    obtain ⟨bound, rfl⟩ : ∃ k, bound = k + 1 := ⟨bound - 1, by omega⟩
    have hopen : (Token.located p r.kind (r.value lexeme)).isClosing = false :=
      (spelled_of_firstMatch hmatch hskip).1.not_closing
    simp only [collect, nextToken_between, scan_token _ hmatch hskip, hopen]
    rw [if_neg (by decide), ih (by omega) _ (by omega)]
    simp

theorem stream_between {tokens : List Token} {ending : Ending}
    (h : Lexes input p text tokens ending) (hlen : text.length ≤ input.length) :
    (between input p text).stream = (tokens, ending) :=
  collect_between h hlen [] (by show text.length < input.length + 2; omega)

/-- **The stream of a text is what the derivation says.** -/
theorem stream_ofText {tokens : List Token} {ending : Ending}
    (h : Lexes input .start input tokens ending) :
    (ofText filterRules input).stream = (tokens, ending) :=
  stream_between h le_rfl

/-- **The stream of a text does not break**: it has a closing token, which `tokenize` puts last or
whose error it gives. -/
theorem stream_closed (input : Bytes) :
    ∃ tokens last error, (ofText filterRules input).stream = (tokens, .closed last error) := by
  obtain ⟨tokens, last, error, h⟩ := exists_lexes_closed input
  exact ⟨tokens, last, error, stream_ofText h⟩

end Lexer

/-! ## One call after the other -/

namespace Lexer

variable {input text : Bytes} {p : Position} {tokens : List Token} {ending : Ending}

/-- The next token of a derivation, and the lexer behind it. -/
theorem nextToken_cons {t : Token} (h : Lexes input p text (t :: tokens) ending)
    (hlen : text.length ≤ input.length) :
    ∃ p' text', (between input p text).nextToken = (.ok t, between input p' text') ∧
      Lexes input p' text' tokens ending ∧ text'.length ≤ input.length := by
  generalize hall : t :: tokens = all at h
  induction h with
  | finish => cases hall
  | fail => cases hall
  | skip hmatch hskip _ ih =>
    have hlt := rest_lt hmatch
    rw [nextToken_skip hlen hmatch hskip]
    exact ih (by omega) hall
  | token hmatch hskip hrest _ =>
    cases hall
    have hlt := rest_lt hmatch
    exact ⟨_, _, scan_token _ hmatch hskip, hrest, by omega⟩

/-- The lexer has given out a closing token. -/
def IsDone (size : Nat) (l : Lexer) : Prop :=
  l.ended = true ∧ l.buffered = none ∧ l.size = size

/-- At the end of a derivation the lexer gives out the closing token. -/
theorem nextToken_nil (h : Lexes input p text [] ending) (hlen : text.length ≤ input.length) :
    ∃ last l, (between input p text).nextToken = (.ok last, l) ∧ last.isClosing = true ∧
      ending = .closed last l.error ∧ l.IsDone input.length := by
  generalize hall : ([] : List Token) = all at h
  induction h with
  | finish p => exact ⟨_, _, scan_finish input.length, rfl, rfl, rfl, rfl, rfl⟩
  | fail p hne hmatch => exact ⟨_, _, scan_fail input.length hne hmatch, rfl, rfl, rfl, rfl, rfl⟩
  | skip hmatch hskip _ ih =>
    have hlt := rest_lt hmatch
    rw [nextToken_skip hlen hmatch hskip]
    exact ih (by omega) hall
  | token => cases hall

theorem IsDone.nextToken {size : Nat} {l : Lexer} (h : l.IsDone size) :
    l.nextToken = (.ok (.pastEnd size), l) := by
  obtain ⟨hended, hbuffered, hsize⟩ := h
  rw [Lexer.nextToken, hbuffered, hsize]
  simp only [scan, hended, hsize, if_true]

/-- The answer to a call of `nextToken` that comes after so many others. -/
def answer (l : Lexer) : (calls : Nat) → Except Fault Token
  | 0 => l.nextToken.1
  | calls + 1 => l.nextToken.2.answer calls

theorem IsDone.answer {size : Nat} {l : Lexer} (h : l.IsDone size) (calls : Nat) :
    l.answer calls = .ok (.pastEnd size) := by
  induction calls with
  | zero => rw [Lexer.answer, h.nextToken]
  | succ calls ih => rw [Lexer.answer, h.nextToken, ih]

/-- **The answers are the tokens of the derivation and the closing token**, and then the same token
over and over. -/
theorem answer_between (h : Lexes input p text tokens ending) (hlen : text.length ≤ input.length) :
    ∃ last error, ending = .closed last error ∧
      (∀ calls t, tokens[calls]? = some t → (between input p text).answer calls = .ok t) ∧
      (between input p text).answer tokens.length = .ok last ∧
      ∀ calls, tokens.length < calls →
        (between input p text).answer calls = .ok (.pastEnd input.length) := by
  induction tokens generalizing p text with
  | nil =>
    obtain ⟨last, l, hnext, -, rfl, hdone⟩ := nextToken_nil h hlen
    refine ⟨last, l.error, rfl, by simp, ?_, fun calls hcalls => ?_⟩
    · rw [List.length_nil, answer, hnext]
    · cases calls with
      | zero => cases hcalls
      | succ calls => rw [answer, hnext, hdone.answer]
  | cons t tokens ih =>
    obtain ⟨p', text', hnext, hrest, hlen'⟩ := nextToken_cons h hlen
    obtain ⟨last, error, hend, htokens, hlast, hpast⟩ := ih hrest hlen'
    refine ⟨last, error, hend, fun calls u hu => ?_, ?_, fun calls hcalls => ?_⟩
    · cases calls with
      | zero =>
        cases hu
        rw [answer, hnext]
      | succ calls =>
        rw [answer, hnext]
        exact htokens calls u hu
    · rw [List.length_cons, answer, hnext, hlast]
    · cases calls with
      | zero => cases hcalls
      | succ calls =>
        rw [answer, hnext]
        exact hpast calls (Nat.lt_of_succ_lt_succ hcalls)

end Lexer

/-- A text has one stream only. -/
theorem Lexes.unique {input : Bytes} {tokens tokens' : List Token} {ending ending' : Ending}
    (h : Lexes input .start input tokens ending) (h' : Lexes input .start input tokens' ending') :
    tokens = tokens' ∧ ending = ending' := by
  have heq := (Lexer.stream_ofText h).symm.trans (Lexer.stream_ofText h')
  exact Prod.mk.inj heq

/-- **The tokens of a text** are those of its derivation up to the end of the text. -/
theorem tokenize_eq_ok {input : Bytes} {tokens : List Token} :
    tokenize input = .ok tokens ↔ ∃ found p, Lexes input .start input found (.finished p) ∧
      tokens = found ++ [.located p .eof []] := by
  obtain ⟨found, ending, h⟩ := exists_lexes input .start input
  have hstream := Lexer.stream_ofText h
  obtain ⟨p, rfl | rfl⟩ := h.ending_cases
  · simp only [tokenize, hstream, Ending.finished]
    constructor
    · intro heq
      cases heq
      exact ⟨found, p, h, rfl⟩
    · rintro ⟨found', p', h', rfl⟩
      obtain ⟨rfl, hend⟩ := h.unique h'
      simp only [Ending.finished, Ending.closed.injEq] at hend
      rw [hend.1]
  · simp only [tokenize, hstream, Ending.failed]
    constructor
    · intro heq
      cases heq
    · rintro ⟨found', p', h', -⟩
      cases (h.unique h').2

end FilterQuery
