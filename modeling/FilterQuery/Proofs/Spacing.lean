import FilterQuery.Proofs.Grouping

/-!
# White space between tokens

White space only separates tokens, and nothing behind the lexer depends on where a token stands.

**Theorem (`spacing_irrelevant`).** Two texts with white space between them have the tokens of both,
those of the second one further on. Texts with the same tokens up to places parse to the same
expression up to places, or both fail at the same token for the same reason; and they compile to the
same query and document, or both fail for the same reason.

**Two runs.** `unplaced` extends to frames, states and moves of the machine, and a step commutes
with it (`Machine.step_unplaced`). So two parses over the same tokens shift the same number of them
(`Stop.length_le`, both ways) and stop in the same state up to places.
-/

namespace FilterQuery

/-! ## Texts one after the other -/

/-- The second token is the first one, so many bytes further on. -/
def Token.Shifted (n : Nat) (t t' : Token) : Prop :=
  t'.kind = t.kind ∧ t'.text = t.text ∧ t'.pos = t.pos + n

theorem Token.Shifted.of_unplaced {n : Nat} {t t' : Token} (h : t'.unplaced = t.unplaced)
    (hpos : t'.pos = t.pos + n) : t.Shifted n t' := by
  refine ⟨?_, ?_, hpos⟩
  · rw [← t'.kind_unplaced, h, t.kind_unplaced]
  · rw [← t'.text_unplaced, h, t.text_unplaced]

/-- **White space separates tokens.** -/
theorem tokenize_append {first second gap : Bytes} {tokens more : List Token}
    (hfirst : tokenize first = .ok tokens) (hsecond : tokenize second = .ok more)
    (hgap : Blanks gap) (hne : gap ≠ []) :
    ∃ more', tokenize (first ++ (gap ++ second)) = .ok (tokens.dropLast ++ more') ∧
      List.Forall₂ (Token.Shifted (first.length + gap.length)) more more' := by
  obtain ⟨found, hlaid, rfl⟩ := laid_of_tokenize hfirst
  obtain ⟨found', hlaid', rfl⟩ := laid_of_tokenize hsecond
  obtain ⟨moved, hmoved, hsame⟩ :=
    hlaid'.exists_moved ((Position.start.advance first).advance gap)
  have hall := tokenize_of_laid (hlaid.append hgap hne hmoved)
  refine ⟨moved ++ [.closing (first ++ (gap ++ second))], ?_, List.rel_append ?_ (.cons ?_ .nil)⟩
  · rw [hall, List.dropLast_concat, List.append_assoc]
  · refine hsame.imp fun t t' ht => .of_unplaced ht.1 ?_
    have hpos := ht.2
    rw [Position.offset_advance, Position.offset_advance] at hpos
    show t'.pos = t.pos + (first.length + gap.length)
    simp only [Position.start] at hpos
    omega
  · refine .of_unplaced rfl ?_
    rw [Token.pos_closing, Token.pos_closing, List.length_append, List.length_append]
    omega

/-! ## The machine is blind to places -/

namespace Frame

/-- The frame without the places of its tokens. -/
def unplaced : Frame → Frame
  | group => group
  | operandOf op level => operandOf op.unplaced level
  | rightOf left op level => rightOf left.unplaced op.unplaced level

@[simp] theorem floor_unplaced (frame : Frame) : frame.unplaced.floor = frame.floor := by
  cases frame <;> rfl

end Frame

namespace Machine

/-- The state without the places of its tokens. -/
def State.unplaced : State → State
  | operand stack => operand (stack.map Frame.unplaced)
  | pattern left op stack => pattern left.unplaced op.unplaced (stack.map Frame.unplaced)
  | operator done stack => operator done.unplaced (stack.map Frame.unplaced)

/-- The move without the places of its tokens. -/
def Move.unplaced : Move → Move
  | shift state => shift state.unplaced
  | done e => done e.unplaced
  | reject complaint => reject complaint

variable (m : Machine) (t : Token)

theorem isTooDeep_unplaced (stack : List Frame) :
    m.isTooDeep (stack.map Frame.unplaced) = m.isTooDeep stack := by
  have hnesting : m.nesting (stack.map Frame.unplaced) = m.nesting stack := by
    unfold nesting
    rw [List.length_map]
  rw [isTooDeep, isTooDeep, hnesting]

theorem startOperand_unplaced (stack : List Frame) :
    m.startOperand (stack.map Frame.unplaced) t.unplaced = (m.startOperand stack t).unplaced := by
  simp only [startOperand, isTooDeep_unplaced, Token.kind_unplaced]
  split
  · rfl
  · split
    · rfl
    · split <;> rfl

theorem takeInfix_unplaced (op : InfixOp) (e : Expr) (stack : List Frame) :
    takeInfix op t.unplaced e.unplaced (stack.map Frame.unplaced) =
      (takeInfix op t e stack).unplaced := by
  simp only [takeInfix]
  split
  · rfl
  · split <;> rfl

theorem takePattern_unplaced (left : Expr) (op : Token) (stack : List Frame) :
    takePattern left.unplaced op.unplaced (stack.map Frame.unplaced) t.unplaced =
      (takePattern left op stack t).unplaced := by
  simp only [takePattern, Token.kind_unplaced]
  split <;> rfl

theorem settle_unplaced (e : Expr) (stack : List Frame) :
    m.settle t.unplaced e.unplaced (stack.map Frame.unplaced) = (m.settle t e stack).unplaced := by
  induction stack generalizing e with
  | nil =>
    simp only [List.map_nil, settle, Token.kind_unplaced]
    split
    · rfl
    · split
      · exact takeInfix_unplaced t _ e []
      · rfl
  | cons frame stack ih =>
    rw [List.map_cons, settle.eq_def, settle.eq_def m t e]
    simp only [Token.kind_unplaced, Frame.floor_unplaced]
    split
    · exact takeInfix_unplaced t _ e (frame :: stack)
    · cases frame with
      | group =>
        simp only [Frame.unplaced]
        split
        · rw [e.grouped_unplaced]
          rfl
        · rfl
      | operandOf op level => exact ih (.unary op e)
      | rightOf left op level => exact ih (.binary op left e false)

/-- **A step is blind to places.** -/
theorem step_unplaced (state : State) :
    m.step t.unplaced state.unplaced = (m.step t state).unplaced := by
  cases state with
  | operand stack => exact startOperand_unplaced m t stack
  | pattern left op stack => exact takePattern_unplaced t left op stack
  | operator e stack => exact settle_unplaced m t e stack

variable {m t} {state state' : State} {tokens : List Token}

theorem Shifts.unplaced (h : m.Shifts state tokens state') :
    m.Shifts state.unplaced (tokens.map Token.unplaced) state'.unplaced := by
  induction h with
  | nil state => exact .nil _
  | @cons state next last t tokens hstep _ ih =>
    refine .cons ?_ ih
    rw [step_unplaced, hstep]
    rfl

/-- A run over more tokens goes the same way first. -/
theorem Shifts.exists_shift {more : List Token} {last : State} (h : m.Shifts state tokens state')
    (hmore : m.Shifts state (tokens ++ t :: more) last) :
    ∃ next, m.step t state' = .shift next := by
  induction h with
  | nil state =>
    cases hmore with
    | cons hstep _ => exact ⟨_, hstep⟩
  | cons hstep _ ih =>
    cases hmore with
    | cons hstep' hmore =>
      rw [hstep] at hstep'
      cases hstep'
      exact ih hmore

theorem Shifts.unique {last : State} (h : m.Shifts state tokens state')
    (h' : m.Shifts state tokens last) : state' = last := by
  induction h with
  | nil state =>
    cases h'
    rfl
  | cons hstep _ ih =>
    cases h' with
    | cons hstep' h' =>
      rw [hstep] at hstep'
      cases hstep'
      exact ih h'

theorem Refuses.unplaced {complaint : Complaint} (h : m.Refuses state t complaint) :
    m.Refuses state.unplaced t.unplaced complaint := by
  cases h with
  | reject hstep =>
    refine .reject ?_
    rw [step_unplaced, hstep]
    rfl
  | @trailing e hstep hkind =>
    refine .trailing (e := e.unplaced) ?_ hkind
    rw [step_unplaced, hstep]
    rfl

theorem Refuses.unique {complaint complaint' : Complaint} (h : m.Refuses state t complaint)
    (h' : m.Refuses state t complaint') : complaint = complaint' := by
  cases h with
  | reject hstep =>
    cases h' with
    | reject hstep' => exact Move.reject.inj (hstep.symm.trans hstep')
    | trailing hstep' _ => cases hstep.symm.trans hstep'
  | trailing hstep _ =>
    cases h' with
    | reject hstep' => cases hstep.symm.trans hstep'
    | trailing => rfl

end Machine

/-! ## Two parses -/

namespace Stop

variable {limit : Int} {input input' : Bytes}

theorem not_shift (stop : Stop limit input) (next : Machine.State) :
    (Machine.whole limit).step stop.token.unplaced stop.state.unplaced ≠ .shift next := by
  rw [Machine.step_unplaced]
  have hmoves := (Machine.whole limit).step_moves stop.token stop.state
  rcases stop.outcome with ⟨e, heof, -⟩ | ⟨complaint, hrefuses, -⟩
  · cases hstep : (Machine.whole limit).step stop.token stop.state with
    | shift next' =>
      rw [hstep] at hmoves
      cases hmoves with
      | shift _ hopen => exact absurd heof (Token.kind_ne_eof hopen)
    | done | reject => simp [Machine.Move.unplaced]
  · cases hrefuses with
    | reject hstep | trailing hstep _ =>
      rw [hstep]
      simp [Machine.Move.unplaced]

variable (stop : Stop limit input) (stop' : Stop limit input')
  (h : (tokensOf input).map Token.unplaced = (tokensOf input').map Token.unplaced)

include h

theorem length_le : stop.before.length ≤ stop'.before.length := by
  by_contra hlt
  rw [stop.tokens_eq, stop'.tokens_eq, List.map_append, List.map_append] at h
  -- The first parse would have shifted the token at which the second one stops.
  rcases List.append_eq_append_iff.1 h with ⟨more, hbefore, -⟩ | ⟨more, hbefore, hrest⟩
  · have := congrArg List.length hbefore
    simp only [List.length_map, List.length_append] at this
    omega
  · cases more with
    | nil =>
      have := congrArg List.length hbefore
      simp only [List.length_map, List.append_nil] at this
      omega
    | cons t more =>
      rw [List.map_cons, List.cons_append, List.cons.injEq] at hrest
      have hshifts := stop.shifts.unplaced
      rw [hbefore, ← hrest.1] at hshifts
      obtain ⟨next, hnext⟩ := stop'.shifts.unplaced.exists_shift hshifts
      exact stop'.not_shift next hnext

/-- **Two parses over the same tokens stop at the same one**, in the same state up to places. -/
theorem same : stop.before.length = stop'.before.length ∧
    stop.token.unplaced = stop'.token.unplaced ∧ stop.state.unplaced = stop'.state.unplaced := by
  have hlength := Nat.le_antisymm (stop.length_le stop' h) (stop'.length_le stop h.symm)
  rw [stop.tokens_eq, stop'.tokens_eq, List.map_append, List.map_append] at h
  obtain ⟨hbefore, hrest⟩ := List.append_inj h (by simpa using hlength)
  rw [List.map_cons, List.map_cons, List.cons.injEq] at hrest
  have hshifts := stop.shifts.unplaced
  rw [hbefore] at hshifts
  exact ⟨hlength, hrest.1, hshifts.unique stop'.shifts.unplaced⟩

end Stop

theorem tokensOf_of_tokenize {input : Bytes} {tokens : List Token}
    (h : tokenize input = .ok tokens) : tokensOf input = tokens := by
  obtain ⟨found, p, hlex, rfl⟩ := tokenize_eq_ok.1 h
  exact tokensOf_eq hlex

theorem Stop.exists_grammatical {limit : Int} {input : Bytes} (stop : Stop limit input)
    {tokens : List Token} (h : tokenize input = .ok tokens) {error : ParseError}
    (herror : parse limit input = .error error) :
    ∃ complaint, (Machine.whole limit).Refuses stop.state stop.token complaint ∧
      error = .grammatical ⟨stop.token, complaint⟩ := by
  obtain ⟨complaint, hrefuses, rfl⟩ := stop.refuses_of_error herror
  have hnone : stop.error = none := by
    cases hsome : stop.error with
    | none => rfl
    | some e =>
      rw [(stop.tokenize_iff e).2 hsome] at h
      cases h
  refine ⟨complaint, hrefuses, ?_⟩
  simp [ParseError.about, hnone]

/-- Two errors about the tokens at one index, for one reason. -/
def SameFailure (tokens tokens' : List Token) (error error' : ParseError) : Prop :=
  ∃ (i : Nat) (t t' : Token) (complaint : Complaint), tokens[i]? = some t ∧ tokens'[i]? = some t' ∧
    error = .grammatical ⟨t, complaint⟩ ∧ error' = .grammatical ⟨t', complaint⟩

section

variable {limit : Int} {text text' : Bytes} {tokens tokens' : List Token}
  (h : tokenize text = .ok tokens) (h' : tokenize text' = .ok tokens')
  (hsame : tokens.map Token.unplaced = tokens'.map Token.unplaced)

include h h' hsame

theorem parse_eq_ok_of_same {e : Expr} (he : parse limit text = .ok e) :
    ∃ e', parse limit text' = .ok e' ∧ e.unplaced = e'.unplaced := by
  obtain ⟨found, p, hlex, rfl⟩ := tokenize_eq_ok.1 h
  obtain ⟨found', p', hlex', rfl⟩ := tokenize_eq_ok.1 h'
  obtain ⟨q, hq, rfl, hnesting, rfl⟩ := (parse_eq_ok hlex).1 he
  rw [List.map_append, List.map_append] at hsame
  obtain ⟨q', rfl, hplace⟩ := Phrase.exists_tokens (List.append_inj' hsame rfl).1.symm
  refine ⟨q'.tree, (parse_eq_ok hlex').2 ⟨q', hq.of_unplaced hplace, rfl, ?_, rfl⟩, ?_⟩
  · rwa [Phrase.nesting, Phrase.inside_of_unplaced hplace]
  · exact (Phrase.tree_of_unplaced hplace).symm

theorem sameFailure_of_parse {error error' : ParseError} (he : parse limit text = .error error)
    (he' : parse limit text' = .error error') : SameFailure tokens tokens' error error' := by
  obtain ⟨stop⟩ := exists_stop limit text
  obtain ⟨stop'⟩ := exists_stop limit text'
  obtain ⟨complaint, hrefuses, rfl⟩ := stop.exists_grammatical h he
  obtain ⟨complaint', hrefuses', rfl⟩ := stop'.exists_grammatical h' he'
  obtain rfl := tokensOf_of_tokenize h
  obtain rfl := tokensOf_of_tokenize h'
  obtain ⟨hlength, htoken, hstate⟩ := stop.same stop' hsame
  have hcomplaint : complaint = complaint' := by
    have hunplaced := hrefuses.unplaced
    rw [htoken, hstate] at hunplaced
    exact hunplaced.unique hrefuses'.unplaced
  refine ⟨stop.before.length, stop.token, stop'.token, complaint, ?_, ?_, rfl, hcomplaint ▸ rfl⟩
  · rw [stop.tokens_eq, List.getElem?_append_right le_rfl, Nat.sub_self, List.getElem?_cons_zero]
  · rw [stop'.tokens_eq, hlength, List.getElem?_append_right le_rfl, Nat.sub_self,
      List.getElem?_cons_zero]

/-- **Parses over the same tokens end alike.** -/
theorem parse_alike (limit : Int) :
    (∃ e e', parse limit text = .ok e ∧ parse limit text' = .ok e' ∧ e.unplaced = e'.unplaced) ∨
      ∃ error error', parse limit text = .error error ∧ parse limit text' = .error error' ∧
        SameFailure tokens tokens' error error' := by
  cases he : parse limit text with
  | ok e =>
    obtain ⟨e', he', hplace⟩ := parse_eq_ok_of_same h h' hsame he
    exact .inl ⟨e, e', rfl, he', hplace⟩
  | error error =>
    cases he' : parse limit text' with
    | ok e' =>
      obtain ⟨e, hok, -⟩ := parse_eq_ok_of_same h' h hsame.symm he'
      rw [he] at hok
      cases hok
    | error error' =>
      exact .inr ⟨error, error', rfl, rfl, sameFailure_of_parse h h' hsame he he'⟩

end

/-- What is parsed to the same expression up to places compiles alike. -/
theorem compile_alike {limits : Limits} {text text' : Bytes} {e e' : Expr}
    (he : parse limits.expression text = .ok e) (he' : parse limits.expression text' = .ok e')
    (hplace : e.unplaced = e'.unplaced) :
    (∃ c, compile limits text = .ok c ∧ compile limits text' = .ok c) ∨
      ∃ doc doc' cause, compile limits text = .error (.malformed ⟨doc, cause⟩) ∧
        compile limits text' = .error (.malformed ⟨doc', cause⟩) := by
  have hgenerate : generate limits.filter (some e) = generate limits.filter (some e') := by
    rw [generate, generate, ← e.filterAt_unplaced, hplace, e'.filterAt_unplaced]
  simp only [compile, he, he', hgenerate]
  cases generate limits.filter (some e') with
  | error malformed => exact .inr ⟨malformed.doc, malformed.doc, malformed.cause, rfl, rfl⟩
  | ok query =>
    dsimp only
    cases query.toJson.encode with
    | error literal => exact .inr ⟨text, text', .badNumber literal, rfl, rfl⟩
    | ok document =>
      dsimp only
      cases validate document with
      | error malformed => exact .inr ⟨malformed.doc, malformed.doc, malformed.cause, rfl, rfl⟩
      | ok => exact .inl ⟨⟨query, document⟩, rfl, rfl⟩

/-- **White space does not matter.** Two texts with white space between them have the tokens of the
first one without its end and then those of the second one, further on by what stands before it.
Texts whose tokens differ in their places only parse to expressions that differ in places only, or
both fail at the same index with the same complaint; and they compile to one query and document, or
both fail so, or both are malformed for the same cause. -/
theorem spacing_irrelevant :
    (∀ first second gap tokens more, tokenize first = .ok tokens → tokenize second = .ok more →
      Blanks gap → gap ≠ [] →
      ∃ more', tokenize (first ++ (gap ++ second)) = .ok (tokens.dropLast ++ more') ∧
        List.Forall₂ (Token.Shifted (first.length + gap.length)) more more') ∧
    ∀ text text' tokens tokens', tokenize text = .ok tokens → tokenize text' = .ok tokens' →
      tokens.map Token.unplaced = tokens'.map Token.unplaced →
      (∀ limit, (∃ e e', parse limit text = .ok e ∧ parse limit text' = .ok e' ∧
          e.unplaced = e'.unplaced) ∨
        ∃ error error', parse limit text = .error error ∧ parse limit text' = .error error' ∧
          SameFailure tokens tokens' error error') ∧
      ∀ limits, (∃ c, compile limits text = .ok c ∧ compile limits text' = .ok c) ∨
        (∃ error error', compile limits text = .error (.parse error) ∧
          compile limits text' = .error (.parse error') ∧
          SameFailure tokens tokens' error error') ∨
        ∃ doc doc' cause, compile limits text = .error (.malformed ⟨doc, cause⟩) ∧
          compile limits text' = .error (.malformed ⟨doc', cause⟩) := by
  refine ⟨fun _ _ _ _ _ => tokenize_append, ?_⟩
  intro text text' tokens tokens' h h' hsame
  refine ⟨parse_alike h h' hsame, fun limits => ?_⟩
  rcases parse_alike h h' hsame limits.expression with
    ⟨e, e', he, he', hplace⟩ | ⟨error, error', he, he', hfailure⟩
  · rcases compile_alike he he' hplace with hok | hmalformed
    · exact .inl hok
    · exact .inr (.inr hmalformed)
  · refine .inr (.inl ⟨error, error', ?_, ?_, hfailure⟩)
    · simp only [compile, he]
    · simp only [compile, he']

/-- White space of any kind around the tokens of a comparison makes no difference. -/
theorem spacing_irrelevant_comparison : ∃ c tokens tokens',
    tokenize (ascii "a==1") = .ok tokens ∧ tokenize (ascii " a\t==\n1 ") = .ok tokens' ∧
    tokens ≠ tokens' ∧ compile {} (ascii "a==1") = .ok c ∧
    compile {} (ascii " a\t==\n1 ") = .ok c := by
  let tokens : List Token := [.onLine 0 .identity "a", .onLine 1 .equal "==",
    .onLine 3 .number "1", .onLine 4 .eof ""]
  let tokens' : List Token := [.onLine 1 .identity "a", .onLine 3 .equal "==",
    ⟨.number, ascii "1", 6, 2, 1⟩, ⟨.eof, [], 8, 2, 3⟩]
  have htokens : tokenize (ascii "a==1") = .ok tokens := by decide
  have htokens' : tokenize (ascii " a\t==\n1 ") = .ok tokens' := by decide
  have hok : (compile {} (ascii "a==1")).isOk = true := by decide +kernel
  have hsame := (spacing_irrelevant.2 _ _ _ _ htokens htokens' (by decide)).2 {}
  rcases hsame with ⟨c, hc, hc'⟩ | ⟨error, -, herror, -⟩ | ⟨doc, -, cause, herror, -⟩
  · exact ⟨c, tokens, tokens', htokens, htokens', by decide, hc, hc'⟩
  · rw [herror] at hok
    cases hok
  · rw [herror] at hok
    cases hok

end FilterQuery
