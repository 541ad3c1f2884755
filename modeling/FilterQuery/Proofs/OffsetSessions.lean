import FilterQuery.Proofs.OffsetRuns

/-!
# Sessions with one lexer

A lexer can be asked for tokens, for single characters and for bytes ahead, and a caller may give
out tokens of its own, in any order. Here such sessions are followed by offsets.

**Theorem (`offsets_in_order`).** In every state of a session the offsets are in order and at most
one token waits. A rule that is tried never moves back, and stays in place if it does not match.
A call can break only where a rule is to strip the quotes off less than two bytes. If every rule
that skips text skips some, every call for a token ends.

**Rounds.** A call for a token runs rules until one of them gives a token. `Responds` is that loop
without a bound on its rounds, and `Reachable` takes in the states between them. Each round does
what the lexer that keeps pieces of text does (`run_turn`), so that sessions with the two are the
same (`Session.exists_session`, `exists_session`). Where that lexer reports that a call never ends,
the loop has no end (`not_responds`).
-/

namespace FilterQuery

/-! ## Calls -/

/-- What a lexer can be asked for. -/
inductive LexerCall where
  | token
  | next
  | peek
  | peekBytes (count : Int)
  | isEnd
  | emit (kind : TokenKind)
deriving Repr, DecidableEq

/-- What a call of the lexer gives. -/
inductive LexerReply where
  | token (t : Token)
  | character (code : Option Nat)
  | bytes (text : Bytes)
  | flag (value : Bool)
  | done
deriving Repr, DecidableEq

namespace OffsetLexer

/-- One round of a call. Only a call for a token may need more rounds. -/
def round : LexerCall → Scanning (Option LexerReply)
  | .token => do return (← turn).map .token
  | .next => do return some (.character (← next))
  | .peek => do return some (.character (← peek))
  | .peekBytes count => do return some (.bytes (← peekBytes count))
  | .isEnd => do return some (.flag (← isEnd))
  | .emit kind => do
    emit kind
    return some .done

/-- A call, run for as many rounds as it needs. -/
inductive Responds (call : LexerCall) :
    OffsetLexer → Except OutOfBounds LexerReply → OffsetLexer → Prop
  | gives {o o' : OffsetLexer} {reply : LexerReply} :
      (round call).run o = .ok (some reply) o' → Responds call o (.ok reply) o'
  | breaks {o o' : OffsetLexer} {e : OutOfBounds} :
      (round call).run o = .error e o' → Responds call o (.error e) o'
  | again {o o' o'' : OffsetLexer} {result : Except OutOfBounds LexerReply} :
      (round call).run o = .ok none o' → Responds call o' result o'' → Responds call o result o''

/-- The calls that may be made: bytes are peeked at forward, up to an offset that there is, and a
token is given out only into an empty queue. -/
def Allows (o : OffsetLexer) : LexerCall → Prop
  | .peekBytes count => 0 ≤ count ∧ o.pos + count < Lexer.offsetLimit
  | .emit _ => o.tokens = []
  | _ => True

/-- Calls one after the other, with their results. -/
inductive Session : OffsetLexer → List LexerCall → List (Except OutOfBounds LexerReply) →
    OffsetLexer → Prop
  | nil {o : OffsetLexer} : Session o [] [] o
  | cons {o o' o'' : OffsetLexer} {call : LexerCall} {calls : List LexerCall}
      {result : Except OutOfBounds LexerReply} {results : List (Except OutOfBounds LexerReply)} :
      o.Allows call → Responds call o result o' → Session o' calls results o'' →
      Session o (call :: calls) (result :: results) o''

/-- The state that a computation leaves, broken or not. -/
def last {α : Type} (x : Scanning α) (o : OffsetLexer) : OffsetLexer :=
  match x.run o with
  | .ok _ o' => o'
  | .error _ o' => o'

/-- The states of a lexer: behind any call, broken or not, between the rounds of a call, and behind
any attempt at a rule. -/
inductive Reachable (rules : List Rule) (input : Bytes) : OffsetLexer → Prop
  | start : Reachable rules input (ofText rules input)
  | round {o : OffsetLexer} (call : LexerCall) : Reachable rules input o → o.Allows call →
      Reachable rules input (last (OffsetLexer.round call) o)
  | tried {o : OffsetLexer} (r : Rule) : Reachable rules input o →
      Reachable rules input (last (matchRule r) o)

end OffsetLexer

namespace Lexer

/-- The result of a call and the lexer behind it. There is none for a call that is refused. -/
def respond (l : Lexer) : LexerCall → Option (Except Fault LexerReply × Lexer)
  | .token => some (l.nextToken.1.map .token, l.nextToken.2)
  | .next => some (.ok (.character (l.next.1.map (·.rune))), l.next.2)
  | .peek => some (.ok (.character (l.peek.map (·.rune))), l)
  | .peekBytes count => (l.peekBytes count).map fun text => (.ok (.bytes text), l)
  | .isEnd => some (.ok (.flag l.isEnd), l)
  | .emit kind => (l.emit? kind).map fun l' => (.ok .done, l')

/-- Calls one after the other, with their results. There is no going on behind a call that never
ends. -/
inductive Session : Lexer → List LexerCall → List (Except Fault LexerReply) → Lexer → Prop
  | nil {l : Lexer} : Session l [] [] l
  | cons {l l' l'' : Lexer} {call : LexerCall} {calls : List LexerCall}
      {result : Except Fault LexerReply} {results : List (Except Fault LexerReply)} :
      l.respond call = some (result, l') → result ≠ .error .endless →
      Session l' calls results l'' → Session l (call :: calls) (result :: results) l''

theorem allows_iff (l : Lexer) (call : LexerCall) (width : Int) :
    (l.offsets width).Allows call ↔ (l.respond call).isSome = true := by
  cases call with
  | peekBytes count =>
    have hpos : (l.offsets width).pos = l.pos := rfl
    simp only [OffsetLexer.Allows, respond, Lexer.peekBytes, hpos, Option.isSome_map]
    split
    · next hrefused =>
      simp only [Bool.or_eq_true, decide_eq_true_eq] at hrefused
      simp
      omega
    · next hallowed =>
      simp only [Bool.or_eq_true, decide_eq_true_eq] at hallowed
      simp
      omega
  | emit kind =>
    have htokens : (l.offsets width).tokens = l.buffered.toList := rfl
    simp only [OffsetLexer.Allows, respond, emit?, htokens, Option.isSome_map]
    cases l.buffered with
    | none => simp
    | some token => simp
  | _ => simp [OffsetLexer.Allows, respond]

theorem peek_rune (l : Lexer) : l.peek.map (·.rune) = Utf8.firstRune? l.rest := by
  unfold peek Utf8.firstRune?
  cases l.rest <;> rfl

end Lexer

/-! ## Calls by offsets -/

namespace OffsetLexer

variable {rules : List Rule} {input : Bytes} {l l' : Lexer} {call : LexerCall}

theorem chunkAt_append (b : UInt8) (rest : Bytes) :
    b :: rest = (Utf8.chunkAt b rest).bytes ++
      (b :: rest).drop (Utf8.chunkAt b rest).bytes.length := by
  have hbegins : (Utf8.chunkAt b rest).bytes <+: b :: rest := by
    unfold Utf8.chunkAt
    rcases Utf8.first? (b :: rest) with _ | ⟨code, width⟩
    · exact ⟨rest, rfl⟩
    · exact List.take_prefix ..
  exact (List.prefix_iff_eq_append.1 hbegins).symm

theorem run_round_next (h : l.Over rules input) (width : Int) :
    l.next.2.Over rules input ∧ ∃ width', (round .next).run (l.offsets width) =
      .ok (some (.character (l.next.1.map (·.rune)))) (l.next.2.offsets width') := by
  obtain ⟨taken, hbehind⟩ := h.behind
  have hat := hbehind.stands width
  cases hrest : l.rest with
  | nil =>
    have hnext : l.next = (none, l) := by simp [Lexer.next, Lexer.peek, hrest]
    rw [hrest] at hat
    rw [hnext]
    refine ⟨h, 0, ?_⟩
    simp only [round, EStateM.run_bind, hat.run_next_nil, EStateM.run_pure]
    rfl
  | cons b rest =>
    have hnext : l.next = (some (Utf8.chunkAt b rest), l.read (Utf8.chunkAt b rest).bytes
        ((b :: rest).drop (Utf8.chunkAt b rest).bytes.length)) := by
      simp [Lexer.next, Lexer.peek, hrest]
    rw [hrest] at hat
    rw [hnext]
    refine ⟨h.read (hrest.trans (chunkAt_append b rest)), (Utf8.decode (b :: rest)).2, ?_⟩
    rw [Lexer.offsets_read _ _ _ _ width]
    simp only [round, EStateM.run_bind, hat.run_next (by simp), EStateM.run_pure]
    rfl

/-- **A call for anything but a token does the same by offsets.** -/
theorem run_call {result : Except Fault LexerReply} (h : l.Over rules input) (hcall : call ≠ .token)
    (hresult : l.respond call = some (result, l')) (width : Int) :
    l'.Over rules input ∧ ∃ reply width', result = .ok reply ∧
      (round call).run (l.offsets width) = .ok (some reply) (l'.offsets width') := by
  obtain ⟨taken, hbehind⟩ := h.behind
  cases call with
  | token => exact absurd rfl hcall
  | next =>
    cases hresult
    obtain ⟨hover, width', hrun⟩ := run_round_next h width
    exact ⟨hover, _, width', rfl, hrun⟩
  | peek =>
    cases hresult
    obtain ⟨width', hrun⟩ := (hbehind.stands width).ends_peek
    refine ⟨h, _, width', rfl, ?_⟩
    simp only [round, EStateM.run_bind, hrun, EStateM.run_pure, Lexer.peek_rune]
    rfl
  | peekBytes count =>
    obtain ⟨text, htext, hpair⟩ := Option.map_eq_some_iff.1 hresult
    cases hpair
    unfold Lexer.peekBytes at htext
    split at htext
    · cases htext
    · next hallowed =>
      cases htext
      have hcount : 0 ≤ count := by
        simp only [Bool.or_eq_true, decide_eq_true_eq] at hallowed
        omega
      refine ⟨h, _, width, rfl, ?_⟩
      simp only [round, EStateM.run_bind, run_peekBytes hbehind hcount, EStateM.run_pure]
  | isEnd =>
    cases hresult
    refine ⟨h, _, width, rfl, ?_⟩
    simp only [round, EStateM.run_bind, run_isEnd hbehind, EStateM.run_pure]
  | emit kind =>
    obtain ⟨l₁, hemit, hpair⟩ := Option.map_eq_some_iff.1 hresult
    cases hpair
    unfold Lexer.emit? at hemit
    split at hemit
    · cases hemit
    · next hbuffered =>
      cases hemit
      refine ⟨h.restart.update .., _, width, rfl, ?_⟩
      simp only [round, EStateM.run_bind, run_emit hbehind hbuffered, EStateM.run_pure]
      rfl

theorem run_round_token (o : OffsetLexer) : (round .token).run o = match turn.run o with
    | .ok found o' => .ok (found.map .token) o'
    | .error e o' => .error e o' := by
  rw [round, EStateM.run_bind]
  cases turn.run o <;> rfl

/-- **A round of a call for a token does the same by offsets.** -/
theorem run_turn (h : l.Over rules input) (hbuffered : l.buffered = none) (hended : l.ended = false)
    (width : Int) :
    ∃ width', (round .token).run (l.offsets width) = match l.turn with
      | .again l' => .ok none (l'.offsets width')
      | .gives token l' => .ok none ((l'.queue token).offsets width')
      | .breaks l' => .error ⟨⟩ (l'.offsets width') := by
  obtain ⟨taken, hbehind⟩ := h.behind
  obtain ⟨width', hrun⟩ := run_lexExpression hbehind hbuffered width
  refine ⟨width', ?_⟩
  rw [run_round_token, run_turn_rule hbuffered hended, EStateM.run_bind, hrun]
  cases l.turn <;> rfl

theorem run_buffered {token : Token} (hbuffered : l.buffered = some token) (width : Int) :
    (round .token).run (l.offsets width) =
      .ok (some (.token token)) (Lexer.offsets { l with buffered := none } width) := by
  rw [run_round_token, run_turn_buffered hbuffered]
  rfl

theorem run_ended (h : l.Over rules input) (hbuffered : l.buffered = none) (hended : l.ended = true)
    (width : Int) :
    (round .token).run (l.offsets width) =
      .ok (some (.token (.pastEnd l.size))) (l.offsets width) := by
  obtain ⟨taken, hbehind⟩ := h.behind
  rw [run_round_token, run_turn_ended hbehind hbuffered hended]
  rfl

/-! ## Calls for a token -/

/-- A fault, as a broken slice. -/
def outcome (result : Except Fault LexerReply) : Except OutOfBounds LexerReply :=
  result.mapError fun _ => ⟨⟩

theorem responds_scan (runs : Nat) (h : l.Over rules input) (hbuffered : l.buffered = none)
    (hends : (Lexer.scan runs l).1 ≠ .error .endless) (width : Int) :
    (Lexer.scan runs l).2.Over rules input ∧ ∃ width', Responds .token (l.offsets width)
      (outcome ((Lexer.scan runs l).1.map .token)) ((Lexer.scan runs l).2.offsets width') := by
  induction runs generalizing l width with
  | zero => exact absurd rfl hends
  | succ runs ih =>
    by_cases hended : l.ended = true
    · have hscan : Lexer.scan (runs + 1) l = (.ok (.pastEnd l.size), l) := by
        rw [Lexer.scan, if_pos hended]
      rw [hscan]
      exact ⟨h, width, .gives (run_ended h hbuffered hended width)⟩
    · have hended : l.ended = false := eq_false_of_ne_true hended
      obtain ⟨width', hround⟩ := run_turn h hbuffered hended width
      have hkept := l.buffered_turn
      have hover := h.turn
      rw [Lexer.scan_succ runs hended] at hends ⊢
      cases hturn : l.turn with
      | again l' =>
        rw [hturn] at hround hkept hover hends
        obtain ⟨hlast, width'', hresponds⟩ := ih hover (hkept.trans hbuffered) hends width'
        exact ⟨hlast, width'', .again hround hresponds⟩
      | gives token l' =>
        rw [hturn] at hround hkept hover
        have htake : (round .token).run ((l'.queue token).offsets width') =
            .ok (some (.token token)) (l'.offsets width') := by
          rw [run_buffered rfl, ← hkept.trans hbuffered]
          rfl
        exact ⟨hover, width', .again hround (.gives htake)⟩
      | breaks l' =>
        rw [hturn] at hround hover
        exact ⟨hover, width', .breaks hround⟩

end OffsetLexer

/-! ## Calls that never end -/

namespace Lexer

variable {l : Lexer}

/-- A rule that skips nothing wins again in the next round. -/
theorem scan_of_stuck {r : Rule} (runs : Nat) (hended : l.ended = false) (hend : l.isEnd = false)
    (hmatch : Rule.firstMatch l.rules l.rest = some (r, [], l.rest)) (hskip : r.action = .skip) :
    (scan runs l).1 = .error .endless := by
  induction runs generalizing l with
  | zero => rfl
  | succ runs ih =>
    have hturn : l.turn = .again (l.read [] l.rest).restart :=
      turn_eq_again.2 ⟨hend, r, [], l.rest, hmatch, hskip, rfl⟩
    rw [scan_succ runs hended, hturn]
    exact ih hended hend hmatch

/-- **A call that needs more rounds than there are bytes never ends.** -/
theorem scan_endless {runs : Nat} (hruns : l.rest.length < runs)
    (h : (scan runs l).1 = .error .endless) (more : Nat) : (scan more l).1 = .error .endless := by
  induction runs generalizing l more with
  | zero => exact absurd hruns (Nat.not_lt_zero _)
  | succ runs ih =>
    by_cases hended : l.ended = true
    · rw [scan, if_pos hended] at h
      cases h
    have hended : l.ended = false := eq_false_of_ne_true hended
    rw [scan_succ runs hended] at h
    cases hturn : l.turn with
    | gives token l' =>
      rw [hturn] at h
      cases h
    | breaks l' =>
      rw [hturn] at h
      cases h
    | again l' =>
      obtain ⟨hend, r, lexeme, rest, hmatch, hskip, rfl⟩ := turn_eq_again.1 hturn
      have hrest := Rule.rest_of_firstMatch hmatch
      by_cases hempty : lexeme = []
      · rw [hempty, List.nil_append] at hrest
        rw [hempty, ← hrest] at hmatch
        exact scan_of_stuck more hended hend hmatch hskip
      · have hless : ((l.read lexeme rest).restart).rest.length < runs := by
          have hpos := List.length_pos_iff.2 hempty
          rw [hrest, List.length_append] at hruns
          show rest.length < runs
          omega
        rw [hturn] at h
        cases more with
        | zero => rfl
        | succ more =>
          rw [scan_succ more hended, hturn]
          exact ih hless h more

/-- No rule skips the empty text. -/
def SkipsText (rules : List Rule) : Prop :=
  ∀ r ∈ rules, r.action = .skip → ∀ wholeWord, r.pattern ≠ .literal [] wholeWord

theorem SkipsText.ne_nil {rules : List Rule} {text lexeme rest : Bytes} {r : Rule}
    (h : SkipsText rules) (hmatch : Rule.firstMatch rules text = some (r, lexeme, rest))
    (hskip : r.action = .skip) : lexeme ≠ [] := by
  obtain ⟨hmem, hsplit⟩ := Rule.mem_of_firstMatch hmatch
  have hpattern := h r hmem hskip
  cases hr : r.pattern with
  | literal lead wholeWord =>
    rw [hr] at hsplit
    obtain ⟨rfl, -, -⟩ := Pattern.literal_split_eq_some.1 hsplit
    rintro rfl
    exact hpattern wholeWord hr
  | scan kind =>
    rw [hr] at hsplit
    exact (Scan.split_eq_some hsplit).2

theorem SkipsText.complete {rules : List Rule} (h : SkipsText rules) :
    SkipsText (completeRules rules) := by
  intro r hmem hskip wholeWord hpattern
  obtain ⟨q, hq, rfl⟩ := List.mem_map.1 hmem
  have hsame : q.complete = q := by
    obtain ⟨kind, pattern, action⟩ := q
    rcases pattern with ⟨_ | ⟨b, text⟩, _⟩ | _
    · cases action with
      | skip => rfl
      | emit => cases hskip
      | unquote => cases hskip
    · rfl
    · rfl
  rw [hsame] at hskip hpattern
  exact h q hq hskip wholeWord hpattern

/-- **If every skipping rule skips some text, every call ends.** -/
theorem scan_ne_endless {runs : Nat} (h : SkipsText l.rules) (hruns : l.rest.length < runs) :
    (scan runs l).1 ≠ .error .endless := by
  induction runs generalizing l with
  | zero => exact absurd hruns (Nat.not_lt_zero _)
  | succ runs ih =>
    by_cases hended : l.ended = true
    · rw [scan, if_pos hended]
      simp
    rw [scan_succ runs (eq_false_of_ne_true hended)]
    cases hturn : l.turn with
    | gives token l' => simp
    | breaks l' => simp
    | again l' =>
      obtain ⟨-, r, lexeme, rest, hmatch, hskip, rfl⟩ := turn_eq_again.1 hturn
      have hpos := List.length_pos_iff.2 (h.ne_nil hmatch hskip)
      have hless : ((l.read lexeme rest).restart).rest.length < runs := by
        rw [Rule.rest_of_firstMatch hmatch, List.length_append] at hruns
        show rest.length < runs
        omega
      exact ih h hless

end Lexer

namespace OffsetLexer

variable {rules : List Rule} {input : Bytes} {l l' : Lexer} {call : LexerCall}

theorem exists_again (h : l.Over rules input) (hbuffered : l.buffered = none)
    (hendless : ∀ runs, (Lexer.scan runs l).1 = .error .endless) (width : Int) :
    ∃ l' width', (round .token).run (l.offsets width) = .ok none (l'.offsets width') ∧
      l'.Over rules input ∧ l'.buffered = none ∧
      ∀ runs, (Lexer.scan runs l').1 = .error .endless := by
  have hended : l.ended = false := by
    by_contra hended
    have hone := hendless 1
    rw [Lexer.scan, if_pos (by simpa using hended)] at hone
    cases hone
  obtain ⟨width', hround⟩ := run_turn h hbuffered hended width
  have hkept := l.buffered_turn
  have hover := h.turn
  have hmore : ∀ runs, (Lexer.scan (runs + 1) l).1 = .error .endless := fun runs =>
    hendless (runs + 1)
  simp only [Lexer.scan_succ _ hended] at hmore
  cases hturn : l.turn with
  | gives token l' =>
    rw [hturn] at hmore
    cases hmore 0
  | breaks l' =>
    rw [hturn] at hmore
    cases hmore 0
  | again l' =>
    rw [hturn] at hround hkept hover hmore
    exact ⟨l', width', hround, hover, hkept.trans hbuffered, hmore⟩

/-- **Where a call never ends, the loop has no end.** -/
theorem not_responds (h : l.Over rules input) (hbuffered : l.buffered = none)
    (hendless : ∀ runs, (Lexer.scan runs l).1 = .error .endless) (width : Int)
    (result : Except OutOfBounds LexerReply) (o : OffsetLexer) :
    ¬ Responds .token (l.offsets width) result o := by
  intro hresponds
  generalize hstart : l.offsets width = start at hresponds
  induction hresponds generalizing l width with
  | gives hround =>
    obtain ⟨l', width', hagain, -⟩ := exists_again h hbuffered hendless width
    rw [hstart, hround] at hagain
    cases hagain
  | breaks hround =>
    obtain ⟨l', width', hagain, -⟩ := exists_again h hbuffered hendless width
    rw [hstart, hround] at hagain
    cases hagain
  | again hround _ ih =>
    obtain ⟨l', width', hagain, hover, hkept, hnever⟩ := exists_again h hbuffered hendless width
    rw [hstart, hround] at hagain
    cases hagain
    exact ih hover hkept hnever width' rfl

theorem rest_lt_size (h : l.Over rules input) : l.rest.length < l.size + 1 := by
  obtain ⟨taken, hbehind⟩ := h.behind
  rw [hbehind.size, hbehind.input, List.length_append, List.length_append]
  omega

theorem responds_token (h : l.Over rules input) (width : Int) :
    (l.nextToken.1 ≠ .error .endless → l.nextToken.2.Over rules input ∧ ∃ width',
      Responds .token (l.offsets width) (outcome (l.nextToken.1.map .token))
        (l.nextToken.2.offsets width')) ∧
    (l.nextToken.1 = .error .endless → ∀ result o, ¬ Responds .token (l.offsets width) result o) := by
  cases hbuffered : l.buffered with
  | some token =>
    have hnext : l.nextToken = (.ok token, { l with buffered := none }) := by
      rw [Lexer.nextToken, hbuffered]
    rw [hnext]
    constructor
    · intro _
      exact ⟨h.update .., width, .gives (run_buffered hbuffered width)⟩
    · intro hendless
      cases hendless
  | none =>
    have hnext : l.nextToken = Lexer.scan (l.size + 1) l := by
      rw [Lexer.nextToken, hbuffered]
    rw [hnext]
    constructor
    · intro hends
      exact responds_scan _ h hbuffered hends width
    · intro hendless
      exact not_responds h hbuffered (Lexer.scan_endless (rest_lt_size h) hendless) width

theorem nextToken_ne_endless (h : l.Over rules input) (hskips : Lexer.SkipsText rules) :
    l.nextToken.1 ≠ .error .endless := by
  rw [Lexer.nextToken]
  cases l.buffered with
  | some token =>
    intro hendless
    cases hendless
  | none =>
    apply Lexer.scan_ne_endless _ (rest_lt_size h)
    rwa [h.rules]

/-- Whatever a call gives, it gives nothing else. -/
theorem Responds.unique {o o₁ o₂ : OffsetLexer} {r₁ r₂ : Except OutOfBounds LexerReply}
    (h₁ : Responds call o r₁ o₁) (h₂ : Responds call o r₂ o₂) : r₁ = r₂ ∧ o₁ = o₂ := by
  -- both go through the same rounds
  induction h₁ with
  | gives hround =>
    rcases h₂ with hround' | hround' | ⟨hround', -⟩ <;> rw [hround] at hround' <;> cases hround'
    exact ⟨rfl, rfl⟩
  | breaks hround =>
    rcases h₂ with hround' | hround' | ⟨hround', -⟩ <;> rw [hround] at hround' <;> cases hround'
    exact ⟨rfl, rfl⟩
  | again hround _ ih =>
    rcases h₂ with hround' | hround' | ⟨hround', hresponds⟩ <;> rw [hround] at hround' <;>
      cases hround'
    exact ih hresponds

theorem map_eq_endless {result : Except Fault Token} :
    result.map LexerReply.token = .error .endless ↔ result = .error .endless := by
  cases result with
  | ok token => simp [Except.map]
  | error fault => simp [Except.map]

/-- **A call does the same by offsets**, and if it never ends, then by offsets neither. -/
theorem responds_call {result : Except Fault LexerReply} (h : l.Over rules input)
    (hresult : l.respond call = some (result, l')) (width : Int) :
    (result ≠ .error .endless → l'.Over rules input ∧
      ∃ width', Responds call (l.offsets width) (outcome result) (l'.offsets width')) ∧
    (result = .error .endless → ∀ result' o, ¬ Responds call (l.offsets width) result' o) := by
  by_cases hcall : call = .token
  · subst hcall
    cases hresult
    obtain ⟨hends, hnever⟩ := responds_token h width
    constructor
    · intro hne
      exact hends (mt map_eq_endless.2 hne)
    · intro hendless
      exact hnever (map_eq_endless.1 hendless)
  · obtain ⟨hover, reply, width', rfl, hround⟩ := run_call h hcall hresult width
    exact ⟨fun _ => ⟨hover, width', .gives hround⟩, fun hendless => by cases hendless⟩

/-- **A session by offsets is one of the other lexer.** -/
theorem Session.exists_session {start o : OffsetLexer} {calls : List LexerCall}
    {results : List (Except OutOfBounds LexerReply)} (hsession : Session start calls results o)
    (h : l.Over rules input) {width : Int} (hstart : start = l.offsets width) :
    ∃ replies l' width', l.Session calls replies l' ∧ results = replies.map outcome ∧
      o = l'.offsets width' := by
  induction hsession generalizing l width with
  | nil => exact ⟨[], l, width, .nil, rfl, hstart⟩
  | @cons _ _ _ call _ _ _ hallows hresponds _ ih =>
    subst hstart
    obtain ⟨⟨result, l'⟩, hresult⟩ := Option.isSome_iff_exists.1 ((l.allows_iff call width).1 hallows)
    obtain ⟨hends, hnever⟩ := responds_call h hresult width
    by_cases hendless : result = .error .endless
    · exact absurd hresponds (hnever hendless _ _)
    · obtain ⟨hover, width', hresponds'⟩ := hends hendless
      obtain ⟨rfl, rfl⟩ := hresponds.unique hresponds'
      obtain ⟨replies, l'', width'', hsession, rfl, rfl⟩ := ih hover rfl
      exact ⟨result :: replies, l'', width'', .cons hresult hendless hsession, rfl, rfl⟩

/-- **A session of the other lexer is one by offsets.** -/
theorem exists_session {calls : List LexerCall} {replies : List (Except Fault LexerReply)}
    (hsession : l.Session calls replies l') (h : l.Over rules input) (width : Int) :
    ∃ width', Session (l.offsets width) calls (replies.map outcome) (l'.offsets width') := by
  induction hsession generalizing width with
  | nil => exact ⟨width, .nil⟩
  | @cons l _ _ call _ _ _ hresult hends _ ih =>
    obtain ⟨hover, width', hresponds⟩ := (responds_call h hresult width).1 hends
    obtain ⟨width'', hsession⟩ := ih hover width'
    refine ⟨width'', .cons ?_ hresponds hsession⟩
    rw [l.allows_iff, hresult]
    rfl

/-! ## Reachable states -/

theorem eq_token_of_again {o o' : OffsetLexer} (h : (round call).run o = .ok none o') :
    call = .token := by
  cases call with
  | token => rfl
  | _ =>
    simp only [round, EStateM.run_bind] at h
    split at h <;> cases h

theorem Responds.reachable {o o' : OffsetLexer} {result : Except OutOfBounds LexerReply}
    (hresponds : Responds call o result o') (hallows : o.Allows call)
    (h : Reachable rules input o) : Reachable rules input o' := by
  induction hresponds with
  | gives hround =>
    have hlast := h.round call hallows
    rwa [last, hround] at hlast
  | breaks hround =>
    have hlast := h.round call hallows
    rwa [last, hround] at hlast
  | again hround _ ih =>
    have hlast := h.round call hallows
    rw [last, hround] at hlast
    obtain rfl := eq_token_of_again hround
    exact ih trivial hlast

theorem Session.reachable {o o' : OffsetLexer} {calls : List LexerCall}
    {results : List (Except OutOfBounds LexerReply)} (hsession : Session o calls results o')
    (h : Reachable rules input o) : Reachable rules input o' := by
  induction hsession with
  | nil => exact h
  | cons hallows hresponds _ ih => exact ih (hresponds.reachable hallows h)

theorem exists_round (h : l.Over rules input) {width : Int} (hallows : (l.offsets width).Allows call) :
    ∃ (l' : Lexer) (width' : Int), l'.Over rules input ∧
      last (round call) (l.offsets width) = l'.offsets width' := by
  by_cases hcall : call = .token
  · subst hcall
    cases hbuffered : l.buffered with
    | some token =>
      refine ⟨{ l with buffered := none }, width, h.update .., ?_⟩
      rw [last, run_buffered hbuffered]
    | none =>
      by_cases hended : l.ended = true
      · refine ⟨l, width, h, ?_⟩
        rw [last, run_ended h hbuffered hended]
      · obtain ⟨width', hround⟩ := run_turn h hbuffered (eq_false_of_ne_true hended) width
        have hover := h.turn
        rw [last, hround]
        cases hturn : l.turn with
        | again l' =>
          rw [hturn] at hover
          exact ⟨l', width', hover, rfl⟩
        | gives token l' =>
          rw [hturn] at hover
          exact ⟨l'.queue token, width', hover.update .., rfl⟩
        | breaks l' =>
          rw [hturn] at hover
          exact ⟨l', width', hover, rfl⟩
  · obtain ⟨⟨result, l'⟩, hresult⟩ := Option.isSome_iff_exists.1 ((l.allows_iff call width).1 hallows)
    obtain ⟨hover, reply, width', -, hround⟩ := run_call h hcall hresult width
    refine ⟨l', width', hover, ?_⟩
    rw [last, hround]

/-- **Every state is one of the other lexer, by offsets.** -/
theorem Reachable.exists_lexer {o : OffsetLexer} (h : Reachable rules input o) :
    ∃ (l : Lexer) (width : Int), l.Over (completeRules rules) input ∧ o = l.offsets width := by
  induction h with
  | start => exact ⟨Lexer.ofText rules input, 0, .ofText rules input, rfl⟩
  | round call _ hallows ih =>
    obtain ⟨l, width, hover, rfl⟩ := ih
    exact exists_round hover hallows
  | tried r _ ih =>
    obtain ⟨l, width, hover, rfl⟩ := ih
    obtain ⟨taken, hbehind⟩ := hover.behind
    rcases hsplit : r.pattern.split l.rest with _ | ⟨lexeme, rest⟩
    · obtain ⟨width', hrun⟩ := run_matchRule_none hbehind hsplit width
      refine ⟨l, width', hover, ?_⟩
      rw [last, hrun]
    · obtain ⟨width', hrun⟩ := run_matchRule_some hbehind hsplit width
      refine ⟨l.read lexeme rest, width', hover.read (Pattern.split_append hsplit), ?_⟩
      rw [last, hrun]

/-- The next token starts in the part of the input that is read, and at most one token waits. -/
structure InOrder (o : OffsetLexer) : Prop where
  start_nonneg : 0 ≤ o.start
  start_le_pos : o.start ≤ o.pos
  pos_le_length : o.pos ≤ o.input.length
  tokens_le_one : o.tokens.length ≤ 1

theorem inOrder (h : l.Over rules input) (width : Int) : (l.offsets width).InOrder := by
  obtain ⟨taken, hbehind⟩ := h.behind
  have hstart := hbehind.start_offsets width
  have hpending := l.pos_sub_start width
  have hlength := (hbehind.stands width).length
  refine ⟨by omega, by omega, by omega, ?_⟩
  show l.buffered.toList.length ≤ 1
  cases l.buffered with
  | none => exact Nat.zero_le 1
  | some token => exact Nat.le_refl 1

/-- Trying the rule gives an answer. If it matches, the lexer does not move back, and if it does not
match, the lexer stays where it is. -/
def Tries (o : OffsetLexer) (r : Rule) : Prop :=
  ∃ matched o', (matchRule r).run o = .ok matched o' ∧ o'.start = o.start ∧
    if matched then o.pos ≤ o'.pos else o'.pos = o.pos

theorem tries (h : l.Over rules input) (r : Rule) (width : Int) : (l.offsets width).Tries r := by
  obtain ⟨taken, hbehind⟩ := h.behind
  rcases hsplit : r.pattern.split l.rest with _ | ⟨lexeme, rest⟩
  · obtain ⟨width', hrun⟩ := run_matchRule_none hbehind hsplit width
    exact ⟨false, _, hrun, rfl, rfl⟩
  · obtain ⟨width', hrun⟩ := run_matchRule_some hbehind hsplit width
    refine ⟨true, _, hrun, rfl, ?_⟩
    rw [Lexer.offsets_read l lexeme rest width' width]
    show ((l.pos : Nat) : Int) ≤ l.pos + lexeme.length
    omega

/-- The rule that wins here is to strip the quotes off less than two bytes. -/
def Breaks (o o' : OffsetLexer) : Prop :=
  o.tokens = [] ∧ o.ended = false ∧ o.pos < o.input.length ∧
    ∃ r, (tryRules o.rules).run o = .ok (some r) o' ∧ r.action = .unquote ∧ o'.pos - o'.start < 2

theorem isEnd_eq_false (h : l.Over rules input) (width : Int) :
    l.isEnd = false ↔ (l.offsets width).pos < (l.offsets width).input.length := by
  obtain ⟨taken, hbehind⟩ := h.behind
  have hlength := (hbehind.stands width).length
  rw [← Bool.not_eq_true, Lexer.isEnd, List.isEmpty_iff_length_eq_zero]
  omega

theorem round_token_eq_error (hbuffered : l.buffered = none) (hended : l.ended = false)
    {width : Int} {e : OutOfBounds} {o : OffsetLexer} :
    (round .token).run (l.offsets width) = .error e o ↔
      lexExpression.run (l.offsets width) = .error ⟨⟩ o := by
  rw [run_round_token, run_turn_rule hbuffered hended, EStateM.run_bind]
  cases lexExpression.run (l.offsets width) with
  | ok _ o' => simp
  | error e' o' => simp

/-- **A round breaks only for a text that is too short to be unquoted.** -/
theorem round_eq_error (h : l.Over rules input) {width : Int}
    (hallows : (l.offsets width).Allows call) (e : OutOfBounds) (o : OffsetLexer) :
    (round call).run (l.offsets width) = .error e o ↔
      call = .token ∧ (l.offsets width).Breaks o := by
  by_cases hcall : call = .token
  · subst hcall
    obtain ⟨taken, hbehind⟩ := h.behind
    cases hbuffered : l.buffered with
    | some token =>
      rw [run_buffered hbuffered]
      simp [Breaks, Lexer.offsets, hbuffered]
    | none =>
      by_cases hended : l.ended = true
      · rw [run_ended h hbuffered hended]
        simp [Breaks, Lexer.offsets, hended]
      · have hended : l.ended = false := eq_false_of_ne_true hended
        rw [round_token_eq_error hbuffered hended, lexExpression_eq_error hbehind hbuffered,
          isEnd_eq_false h width]
        constructor
        · rintro ⟨hpos, hrule⟩
          exact ⟨rfl, Lexer.tokens_offsets hbuffered width, hended, hpos, hrule⟩
        · rintro ⟨-, -, -, hpos, hrule⟩
          exact ⟨hpos, hrule⟩
  · obtain ⟨⟨result, l'⟩, hresult⟩ := Option.isSome_iff_exists.1 ((l.allows_iff call width).1 hallows)
    obtain ⟨-, reply, width', -, hround⟩ := run_call h hcall hresult width
    rw [hround]
    simp [hcall]

/-- **The offsets of a lexer stay in order, whatever it is asked for.** Sessions by offsets are the
sessions of the lexer that keeps pieces of text. -/
theorem offsets_in_order (rules : List Rule) (input : Bytes) :
    (∀ calls results o, Session (.ofText rules input) calls results o →
      Reachable rules input o ∧ ∃ replies l width,
        (Lexer.ofText rules input).Session calls replies l ∧ results = replies.map outcome ∧
          o = l.offsets width) ∧
    (∀ calls replies l, (Lexer.ofText rules input).Session calls replies l →
      ∃ width, Session (.ofText rules input) calls (replies.map outcome) (l.offsets width)) ∧
    ∀ o, Reachable rules input o →
      o.InOrder ∧
      (∀ r, o.Tries r) ∧
      (∃ code width, peek.run o = .ok code { o with width := width }) ∧
      (∀ count, 0 ≤ count → ∃ text, (peekBytes count).run o = .ok text o) ∧
      (∀ call, o.Allows call → ∀ e o', (round call).run o = .error e o' ↔
        call = .token ∧ o.Breaks o') ∧
      (Lexer.SkipsText rules → ∃ result o', Responds .token o result o') := by
  refine ⟨?_, ?_, ?_⟩
  · intro calls results o hsession
    exact ⟨hsession.reachable .start, hsession.exists_session (.ofText rules input) rfl⟩
  · intro calls replies l hsession
    exact exists_session hsession (.ofText rules input) 0
  · intro o hreachable
    obtain ⟨l, width, hover, rfl⟩ := hreachable.exists_lexer
    obtain ⟨taken, hbehind⟩ := hover.behind
    refine ⟨inOrder hover width, fun r => tries hover r width, ?_, ?_, ?_, ?_⟩
    · obtain ⟨width', hrun⟩ := (hbehind.stands width).ends_peek
      exact ⟨_, width', hrun⟩
    · intro count hcount
      exact ⟨_, run_peekBytes hbehind hcount width⟩
    · intro call hallows e o'
      exact round_eq_error hover hallows e o'
    · intro hskips
      have hends := nextToken_ne_endless hover hskips.complete
      obtain ⟨-, width', hresponds⟩ := (responds_token hover width).1 hends
      exact ⟨_, _, hresponds⟩

-- The rules of the filter language skip white space only.
example : Lexer.SkipsText filterRules := by
  unfold Lexer.SkipsText
  decide

-- A call breaks on a single byte that is to be unquoted. The next call goes on behind it, and then
-- there is enough text.
example : ∃ o o', (round .token).run
    (.ofText [⟨.string, .literal [0x22] false, .unquote⟩] [0x22, 0x22]) = .error ⟨⟩ o ∧
      (o.start, o.pos) = (0, 1) ∧ (round .token).run o = .ok none o' ∧
      o'.tokens.map Token.text = [[]] :=
  ⟨_, _, rfl, rfl, rfl, rfl⟩

end OffsetLexer

end FilterQuery
