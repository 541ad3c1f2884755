import FilterQuery.Proofs.OffsetLexer

/-!
# One rule by offsets

Once a rule has matched, its match becomes a token or is dropped. This module follows that by
offsets, and beside it in the lexer that keeps pieces of text.

**States.** `Lexer.offsets` gives the state of a lexer by offsets. It forgets how the text is cut
into pieces, but if the pieces are those of the input (`Lexer.Behind`), every slice that is taken
is one of them.

**Theorem (`run_lexExpression`).** One rule, run by offsets, leads to the state that the same rule
leads to, with its token in the queue. It breaks exactly if that rule finds too little text to strip
of its quotes, and leaves the state where the rule has just matched (`lexExpression_eq_error`).
-/

namespace FilterQuery

namespace OffsetLexer

/-! ## Giving out tokens -/

/-- Where the next token starts. -/
def place : Scanning Position := do
  let l ← get
  let before ← slice l.input 0 (min l.start l.input.length)
  let p := Position.start.advance before
  return { p with offset := l.start.toNat }

/-- Puts a token with a given text into the queue. -/
def emitValue (kind : TokenKind) (text : Bytes) : Scanning Unit := do
  let p ← place
  modify fun l => { l with tokens := l.tokens ++ [Token.located p kind text], start := l.pos }

/-- Puts the pending text into the queue, as a token of a kind. -/
def emit (kind : TokenKind) : Scanning Unit := do
  let l ← get
  let text ← slice l.input l.start l.pos
  emitValue kind text

/-- Drops the pending text. -/
def ignore : Scanning Unit :=
  modify fun l => { l with start := l.pos }

/-- Puts an error token into the queue and stops the scan. The message shows the text at the start
of the token. -/
def fail : Scanning Unit := do
  let _ ← peekBytes 10
  let p ← place
  let l ← get
  let e : LexError := ⟨l.input, p.offset, p.line, p.column⟩
  if l.start < l.input.length then
    let _ ← slice l.input l.start l.input.length
  set { l with
    tokens := l.tokens ++ [Token.located p .error e.message], error := some e, ended := true }

/-- What becomes of the pending text once a rule has matched. -/
def give (r : Rule) : Scanning Unit :=
  match r.action with
  | .skip => ignore
  | .emit => emit r.kind
  | .unquote => do
    let l ← get
    let raw ← slice l.input l.start l.pos
    let text ← slice raw 1 (raw.length - 1)
    emitValue r.kind text

/-- One rule, or the end of the input. -/
def lexExpression : Scanning Unit := do
  if ← isEnd then
    emit .eof
    modify fun l => { l with ended := true }
  else
    let l ← get
    match ← tryRules l.rules with
    | none => fail
    | some r => give r

/-- One round of the loop that looks for a token: a token of the queue is taken, and if there is
none, a rule is run. -/
def turn : Scanning (Option Token) := do
  let l ← get
  match l.tokens with
  | token :: tokens =>
    set { l with tokens := tokens }
    return some token
  | [] =>
    if l.ended then return some (.pastEnd l.input.length)
    else
      lexExpression
      return none

end OffsetLexer

/-! ## One rule of the other lexer -/

theorem Pattern.split_append {pattern : Pattern} {text lexeme rest : Bytes}
    (h : pattern.split text = some (lexeme, rest)) : text = lexeme ++ rest := by
  cases pattern with
  | literal lead wholeWord =>
    obtain ⟨rfl, htext, -⟩ := Pattern.literal_split_eq_some.1 h
    exact htext
  | scan kind => exact (Scan.split_eq_some h).1

theorem Rule.rest_of_firstMatch {rules : List Rule} {text : Bytes} {r : Rule} {lexeme rest : Bytes}
    (h : firstMatch rules text = some (r, lexeme, rest)) : text = lexeme ++ rest :=
  Pattern.split_append (mem_of_firstMatch h).2

namespace Lexer

/-- What one rule does. -/
inductive Turn where
  /-- Some text is skipped. -/
  | again (l : Lexer)
  | gives (token : Token) (l : Lexer)
  /-- There is too little text to strip of its quotes. -/
  | breaks (l : Lexer)

/-- The state that a rule leaves. -/
def Turn.state : Turn → Lexer
  | again l => l
  | gives _ l => l
  | breaks l => l

/-- What becomes of the pending text once a rule has matched. -/
def obey (l : Lexer) (r : Rule) : Turn :=
  match r.action with
  | .skip => .again l.restart
  | .emit => .gives (.located l.start r.kind l.pending) l.restart
  | .unquote =>
    if l.pending.length < 2 then .breaks l
    else .gives (.located l.start r.kind (l.pending.drop 1).dropLast) l.restart

/-- One rule, or the end of the input. -/
def turn (l : Lexer) : Turn :=
  if l.isEnd then .gives l.finish.1 l.finish.2
  else match Rule.firstMatch l.rules l.rest with
    | none => .gives l.fail.1 l.fail.2
    | some (r, lexeme, rest) => (l.read lexeme rest).obey r

/-- A scan runs one rule after the other. -/
theorem scan_succ (runs : Nat) {l : Lexer} (h : l.ended = false) :
    scan (runs + 1) l = match l.turn with
      | .again l' => scan runs l'
      | .gives token l' => (.ok token, l')
      | .breaks l' => (.error .unquotable, l') := by
  rw [scan, if_neg (by simp [h]), turn]
  by_cases hend : l.isEnd = true
  · rw [if_pos hend, if_pos hend]
  · rw [if_neg hend, if_neg hend]
    rcases Rule.firstMatch l.rules l.rest with _ | ⟨r, lexeme, rest⟩
    · rfl
    · dsimp only [obey]
      cases r.action with
      | skip => rfl
      | emit => rfl
      | unquote =>
        dsimp only
        split <;> rfl

theorem obey_eq_again {l l' : Lexer} {r : Rule} :
    l.obey r = .again l' ↔ r.action = .skip ∧ l.restart = l' := by
  unfold obey
  cases r.action with
  | skip => simp
  | emit => simp
  | unquote =>
    dsimp only
    split
    · simp
    · simp

/-- Another rule is run if the one that matched skips its match. -/
theorem turn_eq_again {l l' : Lexer} : l.turn = .again l' ↔ l.isEnd = false ∧
    ∃ r lexeme rest, Rule.firstMatch l.rules l.rest = some (r, lexeme, rest) ∧
      r.action = .skip ∧ (l.read lexeme rest).restart = l' := by
  unfold turn
  by_cases hend : l.isEnd = true
  · rw [if_pos hend]
    simp [hend]
  · rw [if_neg hend]
    rcases Rule.firstMatch l.rules l.rest with _ | ⟨r, lexeme, rest⟩
    · simp
    · show (l.read lexeme rest).obey r = .again l' ↔ _
      rw [obey_eq_again]
      constructor
      · rintro ⟨hskip, hstate⟩
        exact ⟨eq_false_of_ne_true hend, r, lexeme, rest, rfl, hskip, hstate⟩
      · rintro ⟨-, r', lexeme', rest', hmatch, hskip, hstate⟩
        cases hmatch
        exact ⟨hskip, hstate⟩

theorem obey_state (l : Lexer) (r : Rule) :
    (l.obey r).state = l ∨ (l.obey r).state = l.restart := by
  unfold obey
  cases r.action with
  | skip => exact .inr rfl
  | emit => exact .inr rfl
  | unquote =>
    dsimp only
    split
    · exact .inl rfl
    · exact .inr rfl

theorem buffered_turn (l : Lexer) : l.turn.state.buffered = l.buffered := by
  unfold turn
  by_cases hend : l.isEnd = true
  · rw [if_pos hend]
    rfl
  · rw [if_neg hend]
    rcases Rule.firstMatch l.rules l.rest with _ | ⟨r, lexeme, rest⟩
    · rfl
    · show ((l.read lexeme rest).obey r).state.buffered = l.buffered
      rcases (l.read lexeme rest).obey_state r with hstate | hstate
      · rw [hstate]
        rfl
      · rw [hstate]
        rfl

/-! ## States by offsets -/

/-- The state by offsets, with a width for the character that was read last. -/
def offsets (l : Lexer) (width : Int) : OffsetLexer where
  rules := l.rules
  input := l.input
  pos := l.pos
  start := l.start.offset
  width := width
  tokens := l.buffered.toList
  error := l.error
  ended := l.ended

/-- The lexer with a token that waits to be taken. -/
def queue (l : Lexer) (token : Token) : Lexer :=
  { l with buffered := some token }

/-- The outcome of a rule by offsets. -/
def Turn.offsets (width : Int) : Turn → EStateM.Result OutOfBounds OffsetLexer Unit
  | again l => .ok () (l.offsets width)
  | gives token l => .ok () ((l.queue token).offsets width)
  | breaks l => .error ⟨⟩ (l.offsets width)

/-- A rule breaks if it strips quotes off a text that is too short, and leaves the state as it is. -/
theorem obey_eq_error {l : Lexer} {r : Rule} {width : Int} {o : OffsetLexer} :
    (l.obey r).offsets width = .error ⟨⟩ o ↔
      r.action = .unquote ∧ l.pending.length < 2 ∧ l.offsets width = o := by
  unfold obey
  cases r.action with
  | skip => simp [Turn.offsets]
  | emit => simp [Turn.offsets]
  | unquote =>
    by_cases hshort : l.pending.length < 2
    · simp [hshort, Turn.offsets]
    · simp [hshort, Turn.offsets]

theorem pos_sub_start (l : Lexer) (width : Int) :
    (l.offsets width).pos - (l.offsets width).start = l.pending.length := by
  show ((l.start.offset + l.pending.length : Nat) : Int) - l.start.offset = _
  omega

theorem offsets_read (l : Lexer) (lexeme rest : Bytes) (width width' : Int) :
    (l.read lexeme rest).offsets width =
      { l.offsets width' with pos := l.pos + lexeme.length, width := width } := by
  simp [offsets, read, pos, Int.add_assoc]

theorem offsets_restart (l : Lexer) (width : Int) :
    l.restart.offsets width = { l.offsets width with start := l.pos } := by
  simp [offsets, restart, pos, Position.offset_advance]

theorem tokens_offsets {l : Lexer} (h : l.buffered = none) (width : Int) :
    (l.offsets width).tokens = [] := by
  simp [offsets, h]

/-- The lexer has given out or skipped the first part of its input. -/
structure Behind (l : Lexer) (taken : Bytes) : Prop where
  size : l.size = l.input.length
  input : l.input = taken ++ (l.pending ++ l.rest)
  start : l.start = Position.start.advance taken

namespace Behind

variable {l : Lexer} {taken : Bytes}

theorem offset (h : l.Behind taken) : l.start.offset = taken.length := by
  rw [h.start, Position.offset_advance]
  simp [Position.start]

theorem stands (h : l.Behind taken) (width : Int) :
    (l.offsets width).At (taken ++ l.pending) l.rest := by
  constructor
  · show l.input = _
    rw [h.input, List.append_assoc]
  · show ((l.pos : Nat) : Int) = _
    rw [Lexer.pos, h.offset, List.length_append]

theorem start_offsets (h : l.Behind taken) (width : Int) :
    (l.offsets width).start = taken.length := by
  show ((l.start.offset : Nat) : Int) = _
  rw [h.offset]

theorem read {lexeme rest : Bytes} (h : l.Behind taken) (hrest : l.rest = lexeme ++ rest) :
    (l.read lexeme rest).Behind taken where
  size := h.size
  input := by
    show l.input = taken ++ (l.pending ++ lexeme ++ rest)
    rw [h.input, hrest, List.append_assoc]
  start := h.start

theorem restart (h : l.Behind taken) : l.restart.Behind (taken ++ l.pending) where
  size := h.size
  input := by
    show l.input = taken ++ l.pending ++ ([] ++ l.rest)
    rw [h.input, List.nil_append, List.append_assoc]
  start := by
    show l.start.advance l.pending = _
    rw [h.start, Position.advance_append]

end Behind

/-- The lexer is somewhere in a text. -/
structure Over (rules : List Rule) (input : Bytes) (l : Lexer) : Prop where
  rules : l.rules = rules
  input : l.input = input
  behind : ∃ taken, l.Behind taken

namespace Over

variable {rules : List Rule} {input : Bytes} {l : Lexer}

theorem ofText (rules : List Rule) (input : Bytes) :
    (Lexer.ofText rules input).Over (completeRules rules) input :=
  ⟨rfl, rfl, [], rfl, rfl, rfl⟩

theorem read {lexeme rest : Bytes} (h : l.Over rules input) (hrest : l.rest = lexeme ++ rest) :
    (l.read lexeme rest).Over rules input := by
  obtain ⟨taken, hbehind⟩ := h.behind
  exact ⟨h.rules, h.input, taken, hbehind.read hrest⟩

theorem restart (h : l.Over rules input) : l.restart.Over rules input := by
  obtain ⟨taken, hbehind⟩ := h.behind
  exact ⟨h.rules, h.input, _, hbehind.restart⟩

/-- What waits to be taken, and whether the scan has stopped, says nothing about the place. -/
theorem update (h : l.Over rules input) (buffered : Option Token) (error : Option LexError)
    (ended : Bool) :
    Over rules input { l with buffered := buffered, error := error, ended := ended } := by
  obtain ⟨taken, hbehind⟩ := h.behind
  exact ⟨h.rules, h.input, taken, hbehind.size, hbehind.input, hbehind.start⟩

theorem turn (h : l.Over rules input) : l.turn.state.Over rules input := by
  unfold Lexer.turn
  by_cases hend : l.isEnd = true
  · rw [if_pos hend]
    exact h.restart.update ..
  · rw [if_neg hend]
    rcases hmatch : Rule.firstMatch l.rules l.rest with _ | ⟨r, lexeme, rest⟩
    · exact h.update ..
    · have hread := h.read (Rule.rest_of_firstMatch hmatch)
      show ((l.read lexeme rest).obey r).state.Over rules input
      rcases (l.read lexeme rest).obey_state r with hstate | hstate
      · rw [hstate]
        exact hread
      · rw [hstate]
        exact hread.restart

end Over

end Lexer

/-! ## The slices that are taken -/

namespace OffsetLexer

variable {l : Lexer} {taken : Bytes}

theorem run_pending (h : l.Behind taken) (width : Int) :
    (slice (l.offsets width).input (l.offsets width).start (l.offsets width).pos).run
      (l.offsets width) = .ok l.pending (l.offsets width) := by
  apply run_slice h.input (h.start_offsets width)
  rw [(h.stands width).pos, List.length_append]
  simp

theorem run_place (h : l.Behind taken) (width : Int) :
    place.run (l.offsets width) = .ok l.start (l.offsets width) := by
  have hinput : (l.offsets width).input = [] ++ (taken ++ (l.pending ++ l.rest)) := h.input
  have hmin : min (l.offsets width).start (l.offsets width).input.length = taken.length := by
    rw [h.start_offsets, hinput, List.nil_append, List.length_append]
    omega
  have hslice : (slice (l.offsets width).input 0 taken.length).run (l.offsets width) =
      .ok taken (l.offsets width) := run_slice hinput rfl (by simp) _
  simp only [place, EStateM.run_bind, EStateM.run_get, hmin, hslice, EStateM.run_pure, ← h.start]
  rfl

theorem run_peekBytes (h : l.Behind taken) {count : Int} (hcount : 0 ≤ count) (width : Int) :
    (peekBytes count).run (l.offsets width) =
      .ok (l.rest.take count.toNat) (l.offsets width) := by
  have hat := h.stands width
  have hlength := hat.length
  by_cases hend : ((l.offsets width).input.length : Int) < (l.offsets width).pos + count
  · have htake : l.rest.take count.toNat = l.rest := List.take_of_length_le (by omega)
    simp only [peekBytes, EStateM.run_bind, EStateM.run_get, if_pos hend, hat.run_slice, htake]
  · have hinput : (l.offsets width).input =
        (taken ++ l.pending) ++ (l.rest.take count.toNat ++ l.rest.drop count.toNat) := by
      rw [List.take_append_drop, hat.input]
    have htake : (l.rest.take count.toNat).length = count.toNat :=
      List.length_take_of_le (by omega)
    have hslice : (slice (l.offsets width).input (l.offsets width).pos
        ((l.offsets width).pos + count)).run (l.offsets width) =
          .ok (l.rest.take count.toNat) (l.offsets width) := by
      apply run_slice hinput hat.pos
      rw [htake, hat.pos]
      omega
    simp only [peekBytes, EStateM.run_bind, EStateM.run_get, if_neg hend, hslice]

theorem run_unquote {raw : Bytes} (h : 2 ≤ raw.length) (l : OffsetLexer) :
    (slice raw 1 (raw.length - 1)).run l = .ok (raw.drop 1).dropLast l := by
  have hbounds : (0 : Int) ≤ 1 ∧ (1 : Int) ≤ raw.length - 1 ∧
      (raw.length - 1 : Int) ≤ raw.length := by
    omega
  have hlength : ((raw.length : Int) - 1).toNat = raw.length - 1 := by omega
  rw [slice, if_pos hbounds, hlength, EStateM.run_pure, List.dropLast_eq_take, List.length_drop,
    List.drop_take]
  rfl

theorem run_unquote_short {raw : Bytes} (h : raw.length < 2) (l : OffsetLexer) :
    (slice raw 1 (raw.length - 1)).run l = .error ⟨⟩ l := by
  have hbounds : ¬ ((0 : Int) ≤ 1 ∧ (1 : Int) ≤ raw.length - 1 ∧
      (raw.length - 1 : Int) ≤ raw.length) := by
    omega
  rw [slice, if_neg hbounds]
  rfl

/-! ## What becomes of a match -/

theorem run_emitValue (h : l.Behind taken) (hbuffered : l.buffered = none) (kind : TokenKind)
    (text : Bytes) (width : Int) :
    (emitValue kind text).run (l.offsets width) =
      .ok () ((l.restart.queue (.located l.start kind text)).offsets width) := by
  have hqueue : (l.restart.queue (.located l.start kind text)).offsets width =
      { l.restart.offsets width with tokens := [.located l.start kind text] } := rfl
  rw [emitValue, EStateM.run_bind, run_place h, hqueue, Lexer.offsets_restart]
  simp only [EStateM.run_modify, Lexer.tokens_offsets hbuffered, List.nil_append]
  rfl

theorem run_emit (h : l.Behind taken) (hbuffered : l.buffered = none) (kind : TokenKind)
    (width : Int) :
    (emit kind).run (l.offsets width) =
      .ok () ((l.restart.queue (.located l.start kind l.pending)).offsets width) := by
  simp only [emit, EStateM.run_bind, EStateM.run_get, run_pending h, run_emitValue h hbuffered]

theorem run_give (h : l.Behind taken) (hbuffered : l.buffered = none) (r : Rule) (width : Int) :
    (give r).run (l.offsets width) = (l.obey r).offsets width := by
  unfold give Lexer.obey
  cases r.action with
  | skip =>
    show _ = EStateM.Result.ok () (l.restart.offsets width)
    rw [Lexer.offsets_restart]
    rfl
  | emit => exact run_emit h hbuffered r.kind width
  | unquote =>
    by_cases hshort : l.pending.length < 2
    · simp only [EStateM.run_bind, EStateM.run_get, run_pending h, run_unquote_short hshort,
        if_pos hshort]
      rfl
    · have hlong : 2 ≤ l.pending.length := by omega
      simp only [EStateM.run_bind, EStateM.run_get, run_pending h, run_unquote hlong,
        if_neg hshort, run_emitValue h hbuffered]
      rfl

theorem run_fail (h : l.Behind taken) (hbuffered : l.buffered = none) (width : Int) :
    fail.run (l.offsets width) = .ok () ((l.fail.2.queue l.fail.1).offsets width) := by
  have hinput : (l.offsets width).input = taken ++ ((l.pending ++ l.rest) ++ []) := by
    rw [List.append_nil]
    exact h.input
  have hslice : (slice (l.offsets width).input (l.offsets width).start
      (l.offsets width).input.length).run (l.offsets width) =
        .ok (l.pending ++ l.rest) (l.offsets width) := by
    apply run_slice hinput (h.start_offsets width)
    rw [hinput, List.append_nil, List.length_append]
    simp
  have hcount : (0 : Int) ≤ 10 := by decide
  by_cases hinside : (l.offsets width).start < (l.offsets width).input.length
  · simp only [fail, EStateM.run_bind, EStateM.run_get, run_peekBytes h hcount, run_place h,
      if_pos hinside, hslice, EStateM.run_set, Lexer.tokens_offsets hbuffered]
    rfl
  · simp only [fail, EStateM.run_bind, EStateM.run_get, run_peekBytes h hcount, run_place h,
      if_neg hinside, EStateM.run_set, Lexer.tokens_offsets hbuffered]
    rfl

/-! ## One rule -/

theorem run_isEnd (h : l.Behind taken) (width : Int) :
    isEnd.run (l.offsets width) = .ok l.isEnd (l.offsets width) := by
  have hlength := (h.stands width).length
  have hvalue : decide (((l.offsets width).input.length : Int) ≤ (l.offsets width).pos) =
      l.isEnd := by
    rw [hlength, Bool.eq_iff_iff, decide_eq_true_eq, Lexer.isEnd, List.isEmpty_iff_length_eq_zero]
    omega
  simp only [isEnd, EStateM.run_bind, EStateM.run_get, EStateM.run_pure, hvalue]

theorem run_tryRules_none (h : l.Behind taken) (hmatch : Rule.firstMatch l.rules l.rest = none)
    (width : Int) :
    ∃ width', (tryRules l.rules).run (l.offsets width) = .ok none (l.offsets width') := by
  obtain ⟨width', hrun⟩ := (h.stands width).ends_tryRules l.rules
  refine ⟨width', ?_⟩
  rw [hrun, hmatch]
  simp [Lexer.offsets]

theorem run_tryRules_some {r : Rule} {lexeme rest : Bytes} (h : l.Behind taken)
    (hmatch : Rule.firstMatch l.rules l.rest = some (r, lexeme, rest)) (width : Int) :
    ∃ width', (tryRules l.rules).run (l.offsets width) =
      .ok (some r) ((l.read lexeme rest).offsets width') := by
  obtain ⟨width', hrun⟩ := (h.stands width).ends_tryRules l.rules
  refine ⟨width', ?_⟩
  rw [hrun, hmatch, Lexer.offsets_read l lexeme rest width' width]
  rfl

theorem run_matchRule_none {r : Rule} (h : l.Behind taken) (hsplit : r.pattern.split l.rest = none)
    (width : Int) :
    ∃ width', (matchRule r).run (l.offsets width) = .ok false (l.offsets width') := by
  obtain ⟨width', hrun⟩ := (recognizes_matchRule r).refuses (h.stands width) hsplit
  exact ⟨width', hrun⟩

theorem run_matchRule_some {r : Rule} {lexeme rest : Bytes} (h : l.Behind taken)
    (hsplit : r.pattern.split l.rest = some (lexeme, rest)) (width : Int) :
    ∃ width', (matchRule r).run (l.offsets width) =
      .ok true ((l.read lexeme rest).offsets width') := by
  obtain ⟨width', hrun⟩ := (recognizes_matchRule r).accepts (h.stands width) hsplit
  refine ⟨width', ?_⟩
  rw [hrun, Lexer.offsets_read l lexeme rest width' width]
  rfl

theorem run_lexExpression_rules (h : l.Behind taken) (hend : l.isEnd = false) {width : Int}
    {found : Option Rule} {o : OffsetLexer}
    (hrules : (tryRules l.rules).run (l.offsets width) = .ok found o) :
    lexExpression.run (l.offsets width) = (found.elim fail give).run o := by
  have hrules : (tryRules (l.offsets width).rules).run (l.offsets width) = .ok found o := hrules
  simp only [lexExpression, EStateM.run_bind, run_isEnd h, hend, Bool.false_eq_true, if_false,
    EStateM.run_get, hrules]
  cases found <;> rfl

theorem run_lexExpression_end (h : l.Behind taken) (hbuffered : l.buffered = none)
    (hend : l.isEnd = true) (width : Int) :
    lexExpression.run (l.offsets width) =
      .ok () ((l.finish.2.queue l.finish.1).offsets width) := by
  simp only [lexExpression, EStateM.run_bind, run_isEnd h, hend, if_true, run_emit h hbuffered,
    EStateM.run_modify]
  rfl

/-- **One rule does the same by offsets.** A token given out waits in the queue. -/
theorem run_lexExpression (h : l.Behind taken) (hbuffered : l.buffered = none) (width : Int) :
    ∃ width', lexExpression.run (l.offsets width) = l.turn.offsets width' := by
  unfold Lexer.turn
  by_cases hend : l.isEnd = true
  · rw [if_pos hend]
    exact ⟨width, run_lexExpression_end h hbuffered hend width⟩
  · have hnot : l.isEnd = false := eq_false_of_ne_true hend
    rw [if_neg hend]
    rcases hmatch : Rule.firstMatch l.rules l.rest with _ | ⟨r, lexeme, rest⟩
    · obtain ⟨width', hrules⟩ := run_tryRules_none h hmatch width
      refine ⟨width', ?_⟩
      rw [run_lexExpression_rules h hnot hrules]
      exact run_fail h hbuffered width'
    · obtain ⟨width', hrules⟩ := run_tryRules_some h hmatch width
      refine ⟨width', ?_⟩
      rw [run_lexExpression_rules h hnot hrules]
      exact run_give (h.read (Rule.rest_of_firstMatch hmatch)) hbuffered r width'

/-- **A rule breaks only on a text that is too short to be unquoted.** -/
theorem lexExpression_eq_error (h : l.Behind taken) (hbuffered : l.buffered = none) (width : Int)
    (o : OffsetLexer) :
    lexExpression.run (l.offsets width) = .error ⟨⟩ o ↔ l.isEnd = false ∧
      ∃ r, (tryRules l.rules).run (l.offsets width) = .ok (some r) o ∧ r.action = .unquote ∧
        o.pos - o.start < 2 := by
  by_cases hend : l.isEnd = true
  · rw [run_lexExpression_end h hbuffered hend]
    simp [hend]
  · have hnot : l.isEnd = false := eq_false_of_ne_true hend
    rcases hmatch : Rule.firstMatch l.rules l.rest with _ | ⟨r, lexeme, rest⟩
    · obtain ⟨width', hrules⟩ := run_tryRules_none h hmatch width
      rw [run_lexExpression_rules h hnot hrules, Option.elim_none, run_fail h hbuffered, hrules]
      simp
    · obtain ⟨width', hrules⟩ := run_tryRules_some h hmatch width
      have hread := h.read (Rule.rest_of_firstMatch hmatch)
      rw [run_lexExpression_rules h hnot hrules, Option.elim_some, run_give hread hbuffered,
        Lexer.obey_eq_error, hrules]
      have hlength := (l.read lexeme rest).pos_sub_start width'
      constructor
      · rintro ⟨haction, hshort, rfl⟩
        exact ⟨hnot, r, rfl, haction, by omega⟩
      · rintro ⟨-, r', hfound, haction, hshort⟩
        cases hfound
        exact ⟨haction, by omega, rfl⟩

/-! ## Rounds -/

theorem run_turn_buffered {token : Token} (hbuffered : l.buffered = some token) (width : Int) :
    turn.run (l.offsets width) =
      .ok (some token) (Lexer.offsets { l with buffered := none } width) := by
  have htokens : (l.offsets width).tokens = [token] := by simp [Lexer.offsets, hbuffered]
  simp only [turn, EStateM.run_bind, EStateM.run_get, htokens, EStateM.run_set, EStateM.run_pure]
  rfl

theorem run_turn_ended (h : l.Behind taken) (hbuffered : l.buffered = none) (hended : l.ended = true)
    (width : Int) :
    turn.run (l.offsets width) = .ok (some (.pastEnd l.size)) (l.offsets width) := by
  have hended : (l.offsets width).ended = true := hended
  simp only [turn, EStateM.run_bind, EStateM.run_get, Lexer.tokens_offsets hbuffered, hended,
    if_true, EStateM.run_pure, h.size]
  rfl

theorem run_turn_rule (hbuffered : l.buffered = none) (hended : l.ended = false) (width : Int) :
    turn.run (l.offsets width) = (lexExpression >>= fun _ => pure none).run (l.offsets width) := by
  have hended : (l.offsets width).ended = false := hended
  simp only [turn, EStateM.run_bind, EStateM.run_get, Lexer.tokens_offsets hbuffered, hended,
    Bool.false_eq_true, if_false]

end OffsetLexer

end FilterQuery
