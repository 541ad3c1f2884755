import FilterQuery.Proofs.Descent

/-!
# Sessions with one tree

A tree can be asked for one part of a text after the other, also behind an error. This module is
about such sessions: any calls, in any order.

**Theorem (`session_state`).** Every call comes to an end. Between the calls, the level counter is
the number of errors about the depth so far. A call that fails leaves no root and stands on the
token it complains about; a call that succeeds has passed a phrase that is as long as its floor lets
it be, and only building keeps its tree. No call moves back.

**Calls.** Each call that parses does what one run of the machine does from where the cursor stands
(`Parser.descends`, `Parser.exists_run`); what a session keeps follows from what each call keeps
(`Parser.completes`).
-/

namespace FilterQuery

/-! ## Calls -/

/-- What a tree can be asked for. -/
inductive Call where
  | expression (floor : Int)
  | operand
  | build
  | current
  | next
  | peek
deriving Repr, DecidableEq

/-- What a call gives. -/
inductive Answer where
  | node (n : Node)
  | token (t : Token)
  /-- Building gives nothing back: what it has built is the root. -/
  | built
deriving Repr, DecidableEq

namespace Descent

/-- One call. An error that building gives back counts like one that is thrown. -/
def call (limit : Int) : Call → Descent Answer
  | .expression floor => return .node (← expression limit floor)
  | .operand => return .node (← operand limit)
  | .build => do
    match ← build limit with
    | some error => throw error
    | none => return .built
  | .current => return .token (← current)
  | .next => return .token (← next)
  | .peek => return .token (← peek)

/-- Calls one after the other, whether or not they fail: all the answers, and the tree behind
them. -/
def calls (limit : Int) : List Call → Tree → Option (List (Except ParseError Answer) × Tree)
  | [], tree => some ([], tree)
  | call :: rest, tree => do
    let (answer, tree') ← (Descent.call limit call).run tree
    let (answers, last) ← calls limit rest tree'
    return (answer :: answers, last)

end Descent

/-- Whether a call failed for its depth. -/
def failedForDepth : Except ParseError Answer → Bool
  | .ok _ => false
  | .error e => e.isTooDeep

/-- The error is about the token that the cursor stands on. -/
def ParseError.IsAt (input : Bytes) (c : Cursor) : ParseError → Prop
  | .grammatical e => e.token = c.current
  | .lexical e => c.current.kind = .error ∧ c.lexer.error = some e ∧ tokenize input = .error e
  | .broken _ => False

namespace Tree

/-- A phrase has been passed. -/
def Passes (tree : Tree) (s : Stratum) (q : Phrase) (tree' : Tree) : Prop :=
  Derives s q ∧ tree'.cursor.passed = q.tokens.reverse ++ tree.cursor.passed

/-- What comes with the answer of a call. A phrase that was read above a floor has no operator on
its outside that is not above the floor, and none that is follows it. An operand on its own is no
expression yet, so it is nested one level less than the expression that it makes. Nothing is missing
in a root that was built. -/
def Grants (limit : Int) (input : Bytes) (tree : Tree) : Call → Answer → Tree → Prop
  | .expression floor, .node n, tree' => tree'.root = tree.root ∧
      Machine.infixAbove? tree'.cursor.current.kind floor = none ∧
      ∃ s q, tree.Passes s q tree' ∧ (s = .operand ∨ floor < s.level) ∧ n = q.tree.node ∧
        tree.depth + q.nesting ≤ limit
  | .operand, .node n, tree' => tree'.root = tree.root ∧
      ∃ q, tree.Passes .operand q tree' ∧ n = q.tree.node ∧
        (q.inside = 0 ∨ tree.depth + q.inside ≤ limit)
  | .build, .built, tree' => tree'.cursor.current.kind = .eof ∧
      ∃ q, tree.Passes .disjunction q tree' ∧ tree'.root = q.tree.node ∧
        tree'.root.expr? = some q.tree ∧ tree.depth + q.nesting ≤ limit
  | .current, .token t, tree' => tree' = tree ∧ t = tree.cursor.current
  | .next, .token t, tree' => tree'.root = tree.root ∧ t = tree.cursor.current ∧
      tree'.cursor.passed =
        if t.isClosing then tree.cursor.passed else t :: tree.cursor.passed
  | .peek, .token t, tree' => tree'.root = tree.root ∧
      tree'.cursor.passed = tree.cursor.passed ∧ tree'.cursor.current = tree.cursor.current ∧
      if tree.cursor.current.isClosing then t = tree.cursor.current
      else ∃ more, tokensOf input =
        tree.cursor.passed.reverse ++ tree.cursor.current :: t :: more
  | _, _, _ => False

/-- What a call does to a tree. -/
structure Steps (limit : Int) (input : Bytes) (tree : Tree) (call : Call)
    (answer : Except ParseError Answer) (tree' : Tree) : Prop where
  depth : tree'.depth = tree.depth + (failedForDepth answer).toNat
  forward : tree.cursor.passed <:+ tree'.cursor.passed
  fails : ∀ e, answer = .error e → tree'.root = .nil ∧ e.IsAt input tree'.cursor
  grants : ∀ a, answer = .ok a → tree.Grants limit input call a tree'

/-- What a call that succeeds does. -/
theorem Steps.granted {limit : Int} {input : Bytes} {tree tree' : Tree} {call : Call} {a : Answer}
    (hdepth : tree'.depth = tree.depth) (hforward : tree.cursor.passed <:+ tree'.cursor.passed)
    (h : tree.Grants limit input call a tree') : Steps limit input tree call (.ok a) tree' := by
  refine ⟨?_, hforward, ?_, ?_⟩
  · rw [hdepth]
    exact (Int.add_zero _).symm
  · intro e he
    cases he
  · intro b hb
    cases hb
    exact h

end Tree

/-! ## One call -/

namespace Parser

variable {input : Bytes} {last : Token} {error : Option LexError} {p : Parser}
  {tokens : List Token}

theorem along_ahead {consumed rest : List Token}
    (h : p.cursor.Along input last error (consumed ++ rest)) :
    (p.ahead consumed.length).cursor.Along input last error rest ∧
      (p.ahead consumed.length).cursor.passed = consumed.reverse ++ p.cursor.passed :=
  h.advance

/-- **What a run from the current token does**: it reads a phrase, or it complains about the token
at which it stops. -/
theorem exists_run (h : p.cursor.Along input last error tokens) (limit : Int) (goal : Goal) :
    ∃ consumed rest, tokens = consumed ++ rest ∧
      ((∃ s q, Machine.Holds ⟨goal, p.depth, limit⟩ [] s q consumed ∧
        p.run limit goal = (.ok q.tree, p.ahead consumed.length)) ∨
      ∃ complaint e, e = ParseError.about (p.ahead consumed.length).cursor.current error complaint ∧
        p.run limit goal = (.error e, (p.ahead consumed.length).failed e)) := by
  obtain ⟨consumed, rest, state, t, rfl, hfollowing, hshifts, hstop, hrun⟩ :=
    Machine.run_eq_close h.not_closing h.lexes.closing_last error ⟨goal, p.depth, limit⟩
      (.operand [])
  have hcurrent := (along_ahead h).1.stands.current
  rw [hfollowing] at hcurrent
  obtain rfl := Option.some.inj hcurrent
  have hlength : (consumed ++ rest).length - rest.length = consumed.length := by simp
  have hstart : Machine.Follows ⟨goal, p.depth, limit⟩ (.operand []) [] := Machine.Reads.nil
  have hanswers := Machine.step_sound (t := (p.ahead consumed.length).cursor.current)
    (hshifts.follows hstart)
  refine ⟨consumed, rest, rfl, ?_⟩
  simp only [Parser.run, h.stands.upcoming, hrun, hlength, Machine.close]
  cases hstep : Machine.step _ (p.ahead consumed.length).cursor.current state with
  | shift next => exact absurd hstep (hstop next)
  | reject complaint => exact .inr ⟨complaint, _, rfl, rfl⟩
  | done e =>
    rw [hstep] at hanswers
    obtain ⟨s, q, hq, rfl⟩ := hanswers
    exact .inl ⟨s, q, hq, rfl⟩

/-- What a call leaves behind when it fails. -/
theorem steps_failed {p₁ : Parser} (h : p₁.cursor.Along input last error tokens)
    (hforward : p.cursor.passed <:+ p₁.cursor.passed) (hdepth : p₁.depth = p.depth) {e : ParseError}
    {complaint : Complaint} (he : e = .about p₁.cursor.current error complaint) (limit : Int)
    (call : Call) :
    (p₁.failed e).cursor.Along input last error tokens ∧
      p.tree.Steps limit input call (.error e) (p₁.failed e).tree := by
  have hat : e.IsAt input p₁.cursor := by
    cases e with
    | broken fault => exact ParseError.about_ne_broken _ _ _ _ he.symm
    | grammatical e =>
      cases ParseError.about_eq_grammatical he.symm
      rfl
    | lexical e =>
      obtain ⟨hkind, rfl⟩ := ParseError.about_eq_lexical he.symm
      obtain rfl := h.eq_nil (Token.isClosing_of_error hkind)
      exact ⟨hkind, h.stands.lexer_error, (tokenize_eq_error h.lexes).2 rfl⟩
  have hbroken : ∀ fault, e ≠ .broken fault := by
    rintro fault rfl
    exact hat.elim
  have hcursor : (p₁.failed e).cursor = p₁.cursor := by
    cases e <;> rfl
  rw [tree_failed _ hbroken, hcursor]
  refine ⟨h, ?_, hforward, ?_, ?_⟩
  · show (if e.isTooDeep then (p₁.depth : Int) + 1 else p₁.depth) = p.depth + e.isTooDeep.toNat
    rw [hdepth]
    cases e.isTooDeep <;> simp
  · intro e' he'
    cases he'
    exact ⟨rfl, hat⟩
  · intro a ha
    cases ha

/-- A phrase that the machine has read has been passed. -/
theorem passes {m : Machine} {s : Stratum} {q : Phrase} {consumed rest : List Token}
    (h : p.cursor.Along input last error (consumed ++ rest)) (hq : m.Holds [] s q consumed) :
    consumed = q.tokens ∧ p.tree.Passes s q (p.ahead consumed.length).tree := by
  obtain ⟨before, hreads, rfl⟩ := hq.reads
  cases hreads
  exact ⟨rfl, hq.derives, h.advance.2⟩

theorem nesting_of_allows {floor limit : Int} {depth : Nat} {q : Phrase}
    (h : Machine.Allows ⟨.expression floor, depth, limit⟩
      (Machine.nesting ⟨.expression floor, depth, limit⟩ [] + q.inside)) :
    (depth : Int) + q.nesting ≤ limit := by
  simp only [Machine.Allows, Machine.nesting, List.length_nil] at h
  rw [Phrase.nesting]
  omega

/-- A call on a parser that is along a text: it comes to an end, it does what it should, and the
parser stays along the text. -/
def Completes (limit : Int) (input : Bytes) (last : Token) (error : Option LexError) (p : Parser)
    (call : Call) : Prop :=
  ∃ (answer : Except ParseError Answer) (p' : Parser) (rest : List Token),
    (Descent.call limit call).run p.tree = some (answer, p'.tree) ∧
    p'.cursor.Along input last error rest ∧ p.tree.Steps limit input call answer p'.tree

/-- What a call does that reads for a goal. -/
theorem completes_read (h : p.cursor.Along input last error tokens) {limit : Int} (goal : Goal)
    {call : Call}
    (hcall : Descent.call limit call = Descent.read limit goal >>= fun n => pure (.node n))
    (hgrants : ∀ {s q tree'}, Machine.Holds ⟨goal, p.depth, limit⟩ [] s q q.tokens →
      p.tree.Passes s q tree' → tree'.root = p.tree.root → goal.Stops tree'.cursor.current.kind →
      p.tree.Grants limit input call (.node q.tree.node) tree') :
    p.Completes limit input last error call := by
  obtain ⟨hread, hstops⟩ := descends h le_rfl limit goal
  rw [← run_read h] at hread
  unfold Completes
  rw [hcall]
  obtain ⟨consumed, rest, rfl, ⟨s, q, hq, hrun⟩ | ⟨complaint, e, he, hrun⟩⟩ :=
    exists_run h limit goal
  · obtain ⟨rfl, hpasses⟩ := passes h hq
    rw [hrun] at hread hstops
    refine ⟨_, _, rest, Descent.run_bind_ok hread, (along_ahead h).1,
      .granted rfl ⟨_, hpasses.2.symm⟩ ?_⟩
    exact hgrants hq hpasses rfl (hstops _ rfl)
  · rw [hrun] at hread
    obtain ⟨hahead, hpassed⟩ := along_ahead h
    obtain ⟨hafter, hsteps⟩ := steps_failed (p := p) hahead ⟨_, hpassed.symm⟩ rfl he limit call
    exact ⟨_, _, rest, Descent.run_bind_error hread, hafter, hsteps⟩

/-- What building does. -/
theorem completes_build (h : p.cursor.Along input last error tokens) (limit : Int) :
    p.Completes limit input last error .build := by
  have hbuild := builds h limit
  obtain ⟨consumed, rest, rfl, ⟨s, q, hq, hrun⟩ | ⟨complaint, e, he, hrun⟩⟩ :=
    exists_run h limit (.expression 0)
  · obtain ⟨-, hderives, hpassed⟩ := passes h hq
    by_cases heof : (p.ahead consumed.length).cursor.current.kind = .eof
    · simp only [Parser.build, Parser.expression, hrun, if_pos heof] at hbuild
      refine ⟨_, _, rest, Descent.run_bind_ok hbuild, (along_ahead h).1,
        .granted rfl ⟨_, hpassed.symm⟩ ⟨heof, q, ⟨?_, hpassed⟩, rfl, q.tree.expr?_node, ?_⟩⟩
      · exact hderives.mono s.disjunction_level_le
      · exact nesting_of_allows hq.allows
    · simp only [Parser.build, Parser.expression, hrun, if_neg heof,
        (along_ahead h).1.about_current] at hbuild
      obtain ⟨hafter, hsteps⟩ :=
        steps_failed (p := p) (along_ahead h).1 ⟨_, hpassed.symm⟩ rfl rfl limit .build
      exact ⟨_, _, rest, Descent.run_bind_ok hbuild, hafter, hsteps⟩
  · simp only [Parser.build, Parser.expression, hrun] at hbuild
    obtain ⟨hahead, hpassed⟩ := along_ahead h
    obtain ⟨hafter, hsteps⟩ := steps_failed (p := p) hahead ⟨_, hpassed.symm⟩ rfl he limit .build
    exact ⟨_, _, rest, Descent.run_bind_ok hbuild, hafter, hsteps⟩

theorem completes_next (h : p.cursor.Along input last error tokens) (limit : Int) :
    p.Completes limit input last error .next := by
  have hcurrent := h.stands.current
  cases tokens with
  | nil =>
    obtain rfl := Option.some.inj hcurrent
    refine ⟨_, p, [], Descent.run_bind_ok (Descent.run_ask h.stands.next_nil), h,
      .granted rfl (List.suffix_refl _) ⟨rfl, rfl, ?_⟩⟩
    rw [if_pos h.lexes.closing_last]
  | cons t rest =>
    obtain rfl := Option.some.inj hcurrent
    obtain ⟨c', hnext, hstands, hpassed⟩ := h.stands.next
    have hopen := h.not_closing _ List.mem_cons_self
    refine ⟨_, { p with cursor := c' }, rest, Descent.run_bind_ok (Descent.run_ask hnext),
      ⟨hstands, ?_⟩, .granted rfl ⟨[p.cursor.current], hpassed.symm⟩ ⟨rfl, rfl, ?_⟩⟩
    · simpa [hpassed] using h.lexes
    · rw [if_neg (Bool.not_eq_true _ ▸ hopen)]
      exact hpassed

theorem completes_peek (h : p.cursor.Along input last error tokens) (limit : Int) :
    p.Completes limit input last error .peek := by
  obtain ⟨t, c', hpeek, hfollowing, hstands, hpassed, hcurrent⟩ := h.stands.peek
  refine ⟨_, { p with cursor := c' }, tokens, Descent.run_bind_ok (Descent.run_ask hpeek),
    ⟨hstands, hpassed ▸ h.lexes⟩,
    .granted rfl ⟨[], hpassed.symm⟩ ⟨rfl, hpassed, hcurrent, ?_⟩⟩
  split
  · next hclosing =>
    obtain rfl := h.eq_nil hclosing
    exact Option.some.inj (hfollowing.symm.trans h.stands.current)
  · next hopen =>
    have htokens := h.eq_cons (Bool.not_eq_true _ ▸ hopen)
    obtain ⟨more, hmore⟩ := Machine.exists_following hfollowing
    refine ⟨more, ?_⟩
    rw [h.tokensOf_eq, htokens, List.cons_append, hmore]
    rfl

/-- **What a call does.** -/
theorem completes (h : p.cursor.Along input last error tokens) (limit : Int) (call : Call) :
    p.Completes limit input last error call := by
  cases call with
  | expression floor =>
    refine completes_read h (.expression floor) rfl fun {s q tree'} hq hpasses hroot hstops => ?_
    exact ⟨hroot, hstops, s, q, hpasses, hq.fits, rfl, nesting_of_allows hq.allows⟩
  | operand =>
    refine completes_read h .operand rfl fun {s q tree'} hq hpasses hroot _ => ?_
    have hs : s = .operand := hq.fits.elim id False.elim
    subst hs
    have hallows : q.inside = 0 ∨ (p.depth : Int) + q.inside ≤ limit := by
      simpa [Machine.Allows, Machine.nesting] using hq.allows
    exact ⟨hroot, q, hpasses, rfl, hallows⟩
  | build => exact completes_build h limit
  | current =>
    exact ⟨_, p, tokens, rfl, h, .granted rfl (List.suffix_refl _) ⟨rfl, rfl⟩⟩
  | next => exact completes_next h limit
  | peek => exact completes_peek h limit

/-- A sentence is built, if there are levels enough left for its nesting. -/
theorem build_sentence {q : Phrase} (h : p.cursor.Along input last error q.tokens)
    (hq : Derives .disjunction q) {limit : Int}
    (hlimit : (p.depth : Int) + q.nesting ≤ limit) (hlast : last.kind = .eof) :
    p.build limit =
      (.ok q.tree, { p.ahead q.tokens.length with root := some q.tree }) := by
  have hrest : p.cursor.Along input last error (q.tokens ++ []) := by rwa [List.append_nil]
  have hcurrent : last = (p.cursor.advance q.tokens.length).current :=
    Option.some.inj hrest.advance.1.stands.current
  have hlimit : ((p.depth + q.nesting : Nat) : Int) ≤ limit := hlimit
  simp [Parser.build, Parser.expression, Parser.run, h.stands.upcoming,
    Machine.run_sentence hq hlimit hlast error, ← hcurrent, hlast, Parser.ahead]

/-- What can be built is a sentence that fits into the levels left. -/
theorem build_iff (h : p.cursor.Along input last error tokens) (limit : Int) (n : Node) :
    (∃ tree, (Descent.call limit .build).run p.tree = some (.ok .built, tree) ∧ tree.root = n) ↔
      ∃ q final, Derives .disjunction q ∧ final.kind = .eof ∧
        tokensOf input = p.cursor.passed.reverse ++ (q.tokens ++ [final]) ∧
        (p.depth : Int) + q.nesting ≤ limit ∧ q.tree.node = n := by
  constructor
  · rintro ⟨tree, hbuild, rfl⟩
    obtain ⟨answer, p', rest, hrun, hrest, hsteps⟩ := completes_build h limit
    rw [hbuild] at hrun
    cases hrun
    obtain ⟨heof, q, ⟨hq, hpassed⟩, hroot, -, hlimit⟩ := hsteps.grants _ rfl
    have heof : p'.cursor.current.kind = .eof := heof
    obtain rfl := hrest.eq_nil (by rw [Token.isClosing, heof]; rfl)
    have hpassed : p'.cursor.passed = q.tokens.reverse ++ p.cursor.passed := hpassed
    refine ⟨q, last, hq, ?_, ?_, hlimit, hroot.symm⟩
    · rwa [Option.some.inj hrest.stands.current]
    · simp [hrest.tokensOf_eq, hpassed]
  · rintro ⟨q, final, hq, heof, htokens, hlimit, rfl⟩
    rw [h.tokensOf_eq, List.append_cancel_left_eq] at htokens
    obtain ⟨rfl, hfinal⟩ := List.append_inj' htokens rfl
    obtain rfl := List.singleton_inj.1 hfinal
    have hbuild := builds h limit
    rw [build_sentence h hq hlimit heof] at hbuild
    exact ⟨_, Descent.run_bind_ok hbuild, rfl⟩

/-! ## Sessions -/

/-- **What a session keeps**: every call comes to an end, the cursor stays in the text, and the
levels in use are those lost to errors about the depth. -/
theorem exists_calls (h : p.cursor.Along input last error tokens) (limit : Int)
    (calls : List Call) :
    ∃ (answers : List (Except ParseError Answer)) (p' : Parser) (rest : List Token),
      Descent.calls limit calls p.tree = some (answers, p'.tree) ∧
      p'.cursor.Along input last error rest ∧
      p'.tree.depth = p.tree.depth + answers.countP failedForDepth := by
  induction calls generalizing p tokens with
  | nil => exact ⟨[], p, tokens, rfl, h, (Int.add_zero _).symm⟩
  | cons call calls ih =>
    obtain ⟨answer, p₁, rest, hcall, hp₁, hsteps⟩ := completes h limit call
    obtain ⟨answers, p', rest', hcalls, hp', hdepth⟩ := ih hp₁
    refine ⟨answer :: answers, p', rest', ?_, hp', ?_⟩
    · simp [Descent.calls, hcall, hcalls]
    · rw [hdepth, hsteps.depth, List.countP_cons]
      cases failedForDepth answer with
      | false => simp
      | true => simp only [Bool.toNat_true, if_true]; omega

end Parser

/-- **The state of a tree over a session.** Any calls on one tree, whether or not they fail, come to
an end, and they leave as many levels open as there were errors about the depth. The same goes for
one more call: it closes every level that it opens, unless its error is about the depth, and then
all but one. It does not move back. If it fails, it leaves no root and stands on the token that the
error is about; if it succeeds, it has passed a phrase that fits into the levels left, and only
building changes the root. What can be built is just a sentence that fits. -/
theorem session_state (limit : Int) (input : Bytes) : ∃ start,
    Tree.ofLexer (.ofText filterRules input) = .ok start ∧ start.depth = 0 ∧
    ∀ calls, ∃ answers tree, Descent.calls limit calls start = some (answers, tree) ∧
      tree.depth = answers.countP failedForDepth ∧
      (∀ call, ∃ answer tree', (Descent.call limit call).run tree = some (answer, tree') ∧
        tree'.depth = tree.depth + (failedForDepth answer).toNat ∧
        tree.cursor.passed <:+ tree'.cursor.passed ∧
        (∃ more, tokensOf input = tree'.cursor.passed.reverse ++ tree'.cursor.current :: more) ∧
        (∀ e, answer = .error e → tree'.root = .nil ∧ e.IsAt input tree'.cursor) ∧
        ∀ a, answer = .ok a → tree.Grants limit input call a tree') ∧
      ∀ n, (∃ tree', (Descent.call limit .build).run tree = some (.ok .built, tree') ∧
          tree'.root = n) ↔
        ∃ q last, Derives .disjunction q ∧ last.kind = .eof ∧
          tokensOf input = tree.cursor.passed.reverse ++ (q.tokens ++ [last]) ∧
          tree.depth + q.nesting ≤ limit ∧ q.tree.node = n := by
  obtain ⟨start, last, error, tokens, -, hstart, hdepth, halong⟩ := Parser.exists_start input
  have hzero : start.tree.depth = 0 := by
    show (start.depth : Int) = 0
    rw [hdepth]
    rfl
  refine ⟨start.tree, hstart, hzero, fun calls => ?_⟩
  obtain ⟨answers, p, rest, hcalls, hp, hcount⟩ := Parser.exists_calls halong limit calls
  rw [hzero, Int.zero_add] at hcount
  refine ⟨answers, p.tree, hcalls, hcount, fun call => ?_, Parser.build_iff hp limit⟩
  obtain ⟨answer, p', rest', hcall, hp', hsteps⟩ := Parser.completes hp limit call
  exact ⟨answer, p'.tree, hcall, hsteps.depth, hsteps.forward, hp'.exists_current, hsteps.fails,
    hsteps.grants⟩

/-- A text that is nested too deep costs a level, and then not even a field fits. -/
theorem session_state_lostLevel : ∃ start error tree,
    Tree.ofLexer (.ofText filterRules (ascii "(x")) = .ok start ∧
    Descent.calls 1 [.build] start = some ([.error error], tree) ∧ error.isTooDeep = true ∧
    tree.depth = 1 ∧ tree.cursor.current = .onLine 1 .identity "x" ∧
    ∀ tree', (Descent.call 1 .build).run tree ≠ some (.ok .built, tree') := by
  let error : ParseError := .grammatical ⟨.onLine 1 .identity "x", .tooDeep 1⟩
  have hparse : parse 1 (ascii "(x") = .error error := by decide
  obtain ⟨start, hstart, hzero, hsession⟩ := session_state 1 (ascii "(x")
  obtain ⟨start', tree, hstart', hbuild, -⟩ := exists_descent 1 (ascii "(x")
  cases hstart.symm.trans hstart'
  rw [hparse] at hbuild
  have hcall : (Descent.call 1 .build).run start = some (.error error, tree) :=
    Descent.run_bind_ok hbuild
  have hcalls : Descent.calls 1 [.build] start = some ([.error error], tree) := by
    simp [Descent.calls, hcall]
  obtain ⟨_, _, hnone, -, hfirst, -⟩ := hsession []
  cases hnone
  obtain ⟨_, _, hcall', -, -, -, hfails, -⟩ := hfirst .build
  cases hcall.symm.trans hcall'
  obtain ⟨_, _, hone, hdepth, -, hbuilt⟩ := hsession [.build]
  cases hcalls.symm.trans hone
  refine ⟨start, error, tree, hstart, hcalls, rfl, hdepth, (hfails error rfl).2.symm, ?_⟩
  intro tree' htree'
  obtain ⟨q, -, -, -, -, hlimit, -⟩ := (hbuilt _).1 ⟨tree', htree', rfl⟩
  have hlost : tree.depth = 1 := hdepth
  rw [hlost, Phrase.nesting] at hlimit
  omega

end FilterQuery
