import FilterQuery.Parser.Descent
import FilterQuery.Proofs.Cursors

/-!
# Recursive descent follows the machine

**Theorem (`exists_descent`).** The functions that call each other come to an end on every text,
with the error or the expression of `parse`. Each of them does what the machine does with its stack:
it has the same result, at the same token, with the same root and the same levels of nesting in use
(`Parser.descends`, `Parser.builds`).

**Frames are calls.** A call of `expressionIn` in the middle of a descent is the machine with one
more frame on its stack, and the level that the call opens is the nesting of that stack. `Mirrors`
says what such a call has to do, for every stack; an error that passes through closes the level of
each call it leaves, so only a level that `enter` itself refused stays open.

**Turns.** A call of `expressionIn` from within comes behind a token that was passed, and so does a
turn of the loop. So the induction on the turns goes through as long as there are two of them for
each token left (`Descent.follows`).
-/

namespace FilterQuery

@[simp]
theorem Expr.node_grouped (e : Expr) : e.grouped.node = e.node.grouped := by
  cases e <;> rfl

/-- Nothing is missing in an expression. -/
theorem Expr.expr?_node (e : Expr) : e.node.expr? = some e := by
  induction e with
  | identity | string | number => rfl
  | unary op arg ih => simp [Expr.node, Node.expr?, ih]
  | binary op left right paren ihl ihr => simp [Expr.node, Node.expr?, ihl, ihr]

theorem ParseError.isTooDeep_about_unexpected (token : Token) (error : Option LexError)
    (place : Place) (expected : Option TokenKind) :
    (ParseError.about token error (.unexpected place expected)).isTooDeep = false := by
  unfold ParseError.about
  split <;> simp_all [ParseError.isTooDeep]

namespace Tree

/-- The tree with its cursor moved on. -/
def ahead (tree : Tree) (count : Nat) : Tree :=
  { tree with cursor := tree.cursor.advance count }

/-- The tree behind an error that came out of a call. -/
def failed (tree : Tree) (error : ParseError) : Tree :=
  { tree with root := .nil, depth := if error.isTooDeep then tree.depth + 1 else tree.depth }

/-- The tree one level deeper. -/
def opened (tree : Tree) : Tree :=
  { tree with depth := tree.depth + 1 }

/-- The tree one level higher. -/
def closed (tree : Tree) : Tree :=
  { tree with depth := tree.depth - 1 }

theorem closed_opened (tree : Tree) : tree.opened.closed = tree := by
  simp only [opened, closed, Int.add_sub_cancel]

/-- An error that passes through a level leaves it as it came. -/
theorem closed_failed (tree : Tree) (error : ParseError) :
    (tree.failed error).closed = tree.closed.failed error := by
  unfold failed closed
  cases error.isTooDeep with
  | false => rfl
  | true =>
    have hdepth : tree.depth + 1 - 1 = tree.depth - 1 + 1 := by omega
    simp [hdepth]

theorem failed_of_not_tooDeep (tree : Tree) {error : ParseError} (h : error.isTooDeep = false) :
    tree.failed error = { tree with root := .nil } := by
  rw [failed, h]
  rfl

theorem ahead_add (tree : Tree) (a b : Nat) : (tree.ahead a).ahead b = tree.ahead (a + b) := by
  simp only [ahead, Cursor.advance_add]

theorem closed_ahead (tree : Tree) (count : Nat) :
    (tree.ahead count).closed = tree.closed.ahead count :=
  rfl

end Tree

namespace Descent

/-! ## Computations -/

section Runs

variable {α β : Type} {tree tree' : Tree} {x : Descent α} {f : α → Descent β}

theorem run_bind_ok {a : α} (h : x.run tree = some (.ok a, tree')) :
    (x >>= f).run tree = (f a).run tree' := by
  simp only [run, ExceptT.run_bind, StateT.run_bind] at h ⊢
  simp only [h, Option.bind_eq_bind, Option.bind_some]

theorem run_bind_error {error : ParseError} (h : x.run tree = some (.error error, tree')) :
    (x >>= f).run tree = some (.error error, tree') := by
  simp only [run, ExceptT.run_bind, StateT.run_bind] at h ⊢
  simp only [h, Option.bind_eq_bind, Option.bind_some]
  rfl

theorem run_tryCatch_ok {a : α} {handle : ParseError → Descent α}
    (h : x.run tree = some (.ok a, tree')) :
    Descent.run (tryCatch x handle) tree = some (.ok a, tree') := by
  show (StateT.run (ExceptT.run x) tree).bind _ = _
  rw [show StateT.run (ExceptT.run x) tree = _ from h]
  rfl

theorem run_tryCatch_error {error : ParseError} {handle : ParseError → Descent α}
    (h : x.run tree = some (.error error, tree')) :
    Descent.run (tryCatch x handle) tree = (handle error).run tree' := by
  show (StateT.run (ExceptT.run x) tree).bind _ = _
  rw [show StateT.run (ExceptT.run x) tree = _ from h]
  rfl

end Runs

variable {tree : Tree}

theorem run_get (tree : Tree) : (get : Descent Tree).run tree = some (.ok tree, tree) :=
  rfl

theorem run_current (tree : Tree) : current.run tree = some (.ok tree.cursor.current, tree) :=
  rfl

theorem run_complain (tree : Tree) (token : Token) (complaint : Complaint) :
    (complain token complaint).run tree =
      some (.error (.grammatical ⟨token, complaint⟩), { tree with root := .nil }) :=
  rfl

theorem run_unexpected (tree : Tree) (token : Token) (place : Place)
    (expected : Option TokenKind) :
    (unexpected token place expected).run tree =
      some (.error (.about token tree.cursor.lexer.error (.unexpected place expected)),
        { tree with root := .nil }) := by
  unfold unexpected
  by_cases hkind : token.kind = .error
  · rw [if_pos hkind, run_bind_ok (run_get tree)]
    cases herror : tree.cursor.lexer.error with
    | none =>
      simp only [ParseError.about, hkind]
      exact run_complain _ _ _
    | some error =>
      simp only [ParseError.about, hkind]
      exact run_bind_error rfl
  · rw [if_neg hkind]
    rw [show ParseError.about token tree.cursor.lexer.error (.unexpected place expected) =
      .grammatical ⟨token, .unexpected place expected⟩ by simp [ParseError.about, hkind]]
    exact run_complain _ _ _

theorem run_expect_ok {kind : TokenKind} (h : tree.cursor.current.kind = kind) (place : Place) :
    (expect kind place).run tree = some (.ok tree.cursor.current, tree) := by
  unfold expect
  rw [run_bind_ok (run_current tree), if_neg (not_not_intro h)]
  rfl

theorem run_expect_error {kind : TokenKind} (h : tree.cursor.current.kind ≠ kind) (place : Place) :
    (expect kind place).run tree =
      some (.error (.about tree.cursor.current tree.cursor.lexer.error
        (.unexpected place (some kind))), { tree with root := .nil }) := by
  unfold expect
  rw [run_bind_ok (run_current tree), if_pos h]
  exact run_bind_error (run_unexpected _ _ _ _)

theorem run_enter_ok {limit : Int} (h : tree.depth + 1 ≤ limit) :
    (enter limit).run tree = some (.ok (), tree.opened) := by
  unfold enter
  rw [run_bind_ok rfl, run_bind_ok (run_get _), if_neg (Int.not_lt.2 h)]
  rfl

theorem run_enter_error {limit : Int} (h : limit < tree.depth + 1) :
    (enter limit).run tree = some (.error (.grammatical ⟨tree.cursor.current, .tooDeep limit⟩),
      tree.failed (.grammatical ⟨tree.cursor.current, .tooDeep limit⟩)) := by
  unfold enter
  rw [run_bind_ok rfl, run_bind_ok (run_get _), if_pos h]
  exact run_complain _ _ _

theorem run_recover_ok {x : Descent Unit} {tree' : Tree}
    (h : x.run tree = some (.ok (), tree')) : (recover x).run tree = some (.ok none, tree') :=
  run_tryCatch_ok (run_bind_ok h)

theorem run_recover_error {x : Descent Unit} {tree' : Tree} {error : ParseError}
    (h : x.run tree = some (.error error, tree')) (hbroken : ∀ fault, error ≠ .broken fault) :
    (recover x).run tree = some (.ok (some error), tree') := by
  unfold recover
  rw [run_tryCatch_error (run_bind_error h)]
  cases error with
  | broken fault => exact absurd rfl (hbroken fault)
  | lexical error => rfl
  | grammatical error => rfl

/-- What runs inside a level is run one level deeper, and the level is closed however it ends. -/
theorem run_expressionIn {limit : Int} (h : tree.depth + 1 ≤ limit) (floor : Int) (turns : Nat) :
    (expressionIn limit floor (turns + 1)).run tree =
      ((operandIn limit turns >>= continuedIn limit floor turns).run tree.opened).map
        fun out => (out.1, out.2.closed) := by
  rw [expressionIn, run_bind_ok (run_enter_ok h)]
  simp only [run, ExceptT.run]
  rw [Option.map_eq_bind]
  rfl

theorem run_ask {question : Cursor → Except Fault Token × Cursor} {t : Token} {c : Cursor}
    (h : question tree.cursor = (.ok t, c)) :
    (ask question).run tree = some (.ok t, { tree with cursor := c }) := by
  unfold ask
  rw [run_bind_ok (run_get tree), h]
  rfl

theorem run_next {input : Bytes} {last : Token} {error : Option LexError} {t : Token}
    {tokens : List Token} (h : tree.cursor.Along input last error (t :: tokens)) :
    next.run tree = some (.ok t, tree.ahead 1) := by
  obtain ⟨cursor, hnext, -, -⟩ := h.stands.next
  simp only [Tree.ahead, Cursor.advance, hnext]
  exact run_ask hnext

end Descent

/-! ## The machine -/

namespace Machine

variable {m : Machine} {stack : List Frame} {floor : Int}

/-- What starts on top of the stack is continued by the operators above the floor. -/
def OnFloor (m : Machine) (floor : Int) : List Frame → Prop
  | [] => m.goal = .expression floor
  | frame :: _ => (frame.floor : Int) = floor

theorem OnFloor.nesting_pos (h : m.OnFloor floor stack) : 0 < m.nesting stack := by
  cases stack with
  | nil =>
    simp only [OnFloor] at h
    simp only [nesting, h, List.length_nil]
    exact Nat.one_pos
  | cons frame stack =>
    rw [nesting_cons]
    exact Nat.succ_pos _

theorem OnFloor.settle {t : Token} {op : InfixOp} {e : Expr} (h : m.OnFloor floor stack)
    (habove : infixAbove? t.kind floor = some op) :
    m.settle t e stack = takeInfix op t e stack := by
  obtain ⟨hop, hlt⟩ := infixAbove?_eq_some.1 habove
  refine settle_operator hop ?_
  cases stack with
  | nil =>
    simp only [OnFloor] at h
    simpa only [Admits, h] using hlt
  | cons frame stack =>
    simp only [OnFloor] at h
    subst h
    exact Int.ofNat_lt.1 hlt

/-- What starts on top of the stack is too deep if the level that it opens is above the limit. -/
theorem isTooDeep_iff {depth : Int} (h : m.OnFloor floor stack)
    (hdepth : depth + 1 = m.depth + m.nesting stack) :
    m.isTooDeep stack = true ↔ m.limit < depth + 1 := by
  have hpos := h.nesting_pos
  simp only [isTooDeep, Bool.and_eq_true, decide_eq_true_eq]
  omega

theorem nesting_opened {depth : Int} (h : depth = m.depth + m.nesting stack) (frame : Frame) :
    depth + 1 = m.depth + m.nesting (frame :: stack) := by
  rw [nesting_cons]
  omega

end Machine

namespace Descent

open Machine

/-! ## One call -/

/-- **What a call does that follows the machine** from a state until an operand is complete on a
stack: it reads the tokens that the machine shifts on the way and gives that operand, or it throws
the error of the run where the run stops. -/
inductive Mirrors (m : Machine) (ending : Ending) (state : State) (stack : List Frame)
    (stops : TokenKind → Prop) (tree : Tree) (tokens : List Token) :
    Option (Except ParseError Node × Tree) → Prop
  | ok {e : Expr} {consumed rest : List Token} : tokens = consumed ++ rest →
      m.run ending state tokens = m.run ending (.operator e stack) rest →
      stops (tree.ahead consumed.length).cursor.current.kind →
      Mirrors m ending state stack stops tree tokens
        (some (.ok e.node, tree.ahead consumed.length))
  | error {error : ParseError} {consumed rest : List Token} : tokens = consumed ++ rest →
      m.run ending state tokens = (.error error, rest) →
      Mirrors m ending state stack stops tree tokens
        (some (.error error, (tree.ahead consumed.length).failed error))

namespace Mirrors

variable {m : Machine} {state : State} {stack : List Frame} {stops : TokenKind → Prop}
  {tree : Tree} {tokens : List Token} {out : Option (Except ParseError Node × Tree)}

/-- Tokens that the machine shifts first may be passed first. -/
theorem after {ending : Ending} {state' : State} {consumed rest : List Token}
    (h : Mirrors m ending state' stack stops (tree.ahead consumed.length) rest out)
    (htokens : tokens = consumed ++ rest)
    (hrun : m.run ending state tokens = m.run ending state' rest) :
    Mirrors m ending state stack stops tree tokens out := by
  subst htokens
  cases h with
  | @ok e more rest' hrest hrun' hstops =>
    subst hrest
    rw [Tree.ahead_add, ← List.length_append] at hstops ⊢
    exact .ok (List.append_assoc _ _ _).symm (hrun.trans hrun') hstops
  | @error error more rest' hrest hrun' =>
    subst hrest
    rw [Tree.ahead_add, ← List.length_append]
    exact .error (List.append_assoc _ _ _).symm (hrun.trans hrun')

theorem congr {ending : Ending} {state' : State}
    (h : Mirrors m ending state' stack stops tree tokens out)
    (hrun : m.run ending state tokens = m.run ending state' tokens) :
    Mirrors m ending state stack stops tree tokens out := by
  cases h with
  | ok htokens hrun' hstops => exact .ok htokens (hrun.trans hrun') hstops
  | error htokens hrun' => exact .error htokens (hrun.trans hrun')

variable {input : Bytes} {last : Token} {error : Option LexError}

/-- An operand that is complete where the tree stands. -/
theorem here {ending : Ending} (e : Expr)
    (hrun : m.run ending state tokens = m.run ending (.operator e stack) tokens)
    (hstops : stops tree.cursor.current.kind) :
    Mirrors m ending state stack stops tree tokens (some (.ok e.node, tree)) := by
  have h := @ok m ending state stack stops tree tokens e [] tokens rfl hrun hstops
  exact h

/-- A token that the machine rejects. -/
theorem refused {complaint : Complaint} (halong : tree.cursor.Along input last error tokens)
    (hstep : m.step tree.cursor.current state = .reject complaint) :
    Mirrors m (.closed last error) state stack stops tree tokens
      (some (.error (.about tree.cursor.current error complaint),
        tree.failed (.about tree.cursor.current error complaint))) := by
  have h := @Mirrors.error m _ state stack stops tree tokens _ [] tokens rfl
    (halong.run_reject hstep)
  exact h

/-- A token that the machine rejects for another reason than its depth. -/
theorem rejected {complaint : Complaint} {e : ParseError}
    (halong : tree.cursor.Along input last error tokens)
    (hstep : m.step tree.cursor.current state = .reject complaint)
    (he : e = .about tree.cursor.current error complaint) (hdeep : e.isTooDeep = false) :
    Mirrors m (.closed last error) state stack stops tree tokens
      (some (.error e, { tree with root := .nil })) := by
  rw [← Tree.failed_of_not_tooDeep tree hdeep]
  subst he
  exact refused halong hstep

/-- A token that the machine shifts is passed. -/
theorem next {f : Token → Descent Node} {state' : State}
    (halong : tree.cursor.Along input last error tokens)
    (hstep : m.step tree.cursor.current state = .shift state')
    (hf : (tree.ahead 1).cursor.Along input last error tokens.tail →
      tokens.tail.length < tokens.length →
      Mirrors m (.closed last error) state' stack stops (tree.ahead 1) tokens.tail
        ((f tree.cursor.current).run (tree.ahead 1))) :
    Mirrors m (.closed last error) state stack stops tree tokens
      ((Descent.next >>= f).run tree) := by
  obtain ⟨hcons, hrun⟩ := halong.run_shift hstep
  have htokens : tokens = [tree.cursor.current] ++ tokens.tail := hcons
  have hlength : tokens.tail.length < tokens.length := by
    rw [hcons]
    exact Nat.lt_succ_self _
  have hcons : tree.cursor.Along input last error ([tree.cursor.current] ++ tokens.tail) := by
    rwa [← htokens]
  rw [run_bind_ok (run_next hcons)]
  exact (hf hcons.advance.1 hlength).after htokens hrun

/-- **A call and what is done with its operand.** -/
theorem bind {f : Node → Descent Node} {x : Descent Node} {stack' : List Frame}
    {stops' : TokenKind → Prop}
    (h : Mirrors m (.closed last error) state stack stops tree tokens (x.run tree))
    (halong : tree.cursor.Along input last error tokens)
    (hf : ∀ {e : Expr} {count : Nat} {rest : List Token}, rest <:+ tokens →
      (tree.ahead count).cursor.Along input last error rest →
      stops (tree.ahead count).cursor.current.kind →
      Mirrors m (.closed last error) (.operator e stack) stack' stops' (tree.ahead count) rest
        ((f e.node).run (tree.ahead count))) :
    Mirrors m (.closed last error) state stack' stops' tree tokens ((x >>= f).run tree) := by
  generalize hout : x.run tree = out at h
  cases h with
  | @ok e consumed rest htokens hrun hstops =>
    rw [run_bind_ok hout]
    subst htokens
    exact (hf (List.suffix_append _ _) halong.advance.1 hstops).after rfl hrun
  | @error error consumed rest htokens hrun =>
    rw [run_bind_error hout]
    exact .error htokens hrun

/-- A level that is opened before a call and closed behind it makes no difference. -/
theorem closed {ending : Ending}
    (h : Mirrors m ending state stack stops tree.opened tokens out) :
    Mirrors m ending state stack stops tree tokens
      (out.map fun out => (out.1, out.2.closed)) := by
  cases h with
  | ok htokens hrun hstops =>
    rw [Option.map_some, Tree.closed_ahead, Tree.closed_opened]
    exact .ok htokens hrun hstops
  | error htokens hrun =>
    rw [Option.map_some, Tree.closed_failed, Tree.closed_ahead, Tree.closed_opened]
    exact .error htokens hrun

end Mirrors

/-! ## The descent -/

section Calls

variable {m : Machine} {stack : List Frame} {floor : Int} {tree : Tree} {tokens : List Token}
  {input : Bytes} {last : Token} {error : Option LexError} {turns : Nat}

/-- **Calls that follow the machine**, if the turns are enough for the tokens left. A call of
`expressionIn` opens the level of the operand on top of the stack; the other two stand in that level
already. -/
structure Follows (m : Machine) (input : Bytes) (last : Token) (error : Option LexError)
    (turns : Nat) : Prop where
  expression {tree : Tree} {tokens : List Token} {stack : List Frame} {floor : Int} :
    tree.cursor.Along input last error tokens → 2 * tokens.length + 2 ≤ turns →
    m.OnFloor floor stack → tree.depth + 1 = m.depth + m.nesting stack →
    Mirrors m (.closed last error) (.operand stack) stack (infixAbove? · floor = none) tree tokens
      ((expressionIn m.limit floor turns).run tree)
  operand {tree : Tree} {tokens : List Token} {stack : List Frame} :
    tree.cursor.Along input last error tokens → 2 * tokens.length + 1 ≤ turns →
    m.isTooDeep stack = false → tree.depth = m.depth + m.nesting stack →
    Mirrors m (.closed last error) (.operand stack) stack (fun _ => True) tree tokens
      ((operandIn m.limit turns).run tree)
  continued {tree : Tree} {tokens : List Token} {stack : List Frame} {floor : Int} {left : Expr} :
    tree.cursor.Along input last error tokens → 2 * tokens.length + 1 ≤ turns →
    m.OnFloor floor stack → tree.depth = m.depth + m.nesting stack →
    Mirrors m (.closed last error) (.operator left stack) stack (infixAbove? · floor = none) tree
      tokens ((continuedIn m.limit floor turns left.node).run tree)

/-- Behind the expression in a group: the parenthesis that closes it. -/
theorem closing_mirrors {e : Expr} (halong : tree.cursor.Along input last error tokens)
    (hstops : infixAbove? tree.cursor.current.kind 0 = none) :
    Mirrors m (.closed last error) (.operator e (.group :: stack)) stack (fun _ => True) tree tokens
      (Descent.run (do
        let _ ← expect .rightParen .group
        let _ ← next
        return e.node.grouped) tree) := by
  by_cases hkind : tree.cursor.current.kind = .rightParen
  · rw [run_bind_ok (run_expect_ok hkind _)]
    have hstep : m.step tree.cursor.current (.operator e (.group :: stack)) =
        .shift (.operator e.grouped stack) := by
      rw [step, settle_group hkind]
    refine .next halong hstep fun _ _ => ?_
    rw [← Expr.node_grouped]
    exact .here e.grouped rfl trivial
  · rw [run_bind_error (run_expect_error hkind _)]
    have hstep : m.step tree.cursor.current (.operator e (.group :: stack)) =
        .reject (.unexpected .group (some .rightParen)) := by
      simp only [step]
      rw [settle.eq_def]
      simp [Frame.floor, hstops]
    exact .rejected halong hstep (halong.about_current _)
      (ParseError.isTooDeep_about_unexpected _ _ _ _)

theorem literal_mirrors {n : Node} (halong : tree.cursor.Along input last error tokens)
    (hdeep : m.isTooDeep stack = false)
    (hkind : tree.cursor.current.kind ∈ [TokenKind.number, .string, .identity])
    (hn : (Phrase.literalTree tree.cursor.current).node = n) :
    Mirrors m (.closed last error) (.operand stack) stack (fun _ => True) tree tokens
      ((next >>= fun _ => pure n).run tree) := by
  subst hn
  have hstep : m.step tree.cursor.current (.operand stack) =
      .shift (.operator (Phrase.literalTree tree.cursor.current) stack) :=
    startOperand_literal hdeep hkind
  exact .next halong hstep fun _ _ => .here _ rfl trivial

/-- A primary or an application of prefix operators. -/
theorem Follows.operand_succ (ih : Follows m input last error turns)
    (halong : tree.cursor.Along input last error tokens)
    (hturns : 2 * tokens.length + 1 ≤ turns + 1) (hdeep : m.isTooDeep stack = false)
    (hdepth : tree.depth = m.depth + m.nesting stack) :
    Mirrors m (.closed last error) (.operand stack) stack (fun _ => True) tree tokens
      ((operandIn m.limit (turns + 1)).run tree) := by
  rw [operandIn, run_bind_ok (run_current tree)]
  cases hlevel : tree.cursor.current.kind.prefixLevel? with
  | some level =>
    have hstep : m.step tree.cursor.current (.operand stack) =
        .shift (.operand (.operandOf tree.cursor.current level :: stack)) := by
      simp only [step, startOperand, hdeep, hlevel, Bool.false_eq_true, if_false]
    refine .next halong hstep fun hnext hlength => ?_
    refine .bind (ih.expression hnext (by omega) rfl (nesting_opened hdepth _)) hnext
      fun {e _ _} _ hrest hstops => ?_
    refine .here (.unary tree.cursor.current e) (hrest.run_operator_congr ?_) trivial
    rw [settle.eq_def]
    simp only [Frame.floor, hstops]
  | none =>
    dsimp only
    split
    · next hkind =>
      refine literal_mirrors halong hdeep (by simp [hkind]) ?_
      simp [Phrase.literalTree, hkind, Expr.node]
    · next hkind =>
      refine literal_mirrors halong hdeep (by simp [hkind]) ?_
      simp [Phrase.literalTree, hkind, Expr.node]
    · next hkind =>
      refine literal_mirrors halong hdeep (by simp [hkind]) ?_
      simp [Phrase.literalTree, hkind, Expr.node]
    · next hkind =>
      have hstep : m.step tree.cursor.current (.operand stack) =
          .shift (.operand (.group :: stack)) := by
        simp [step, startOperand, hdeep, TokenKind.prefixLevel?, hkind]
      refine .next halong hstep fun hnext hlength => ?_
      refine .bind (ih.expression hnext (by omega) rfl (nesting_opened hdepth _)) hnext
        fun _ hrest hstops => ?_
      exact closing_mirrors hrest hstops
    · have hstep : m.step tree.cursor.current (.operand stack) =
          .reject (.unexpected .input none) := by
        simp [step, startOperand, hdeep, hlevel]
      rw [run_bind_error (run_unexpected _ _ _ _)]
      exact .rejected halong hstep (halong.about_current _)
        (ParseError.isTooDeep_about_unexpected _ _ _ _)

/-- Behind an operator that takes a string literal: the literal, and what follows. -/
theorem pattern_mirrors {left : Expr} {op : Token} {f : Node → Descent Node}
    {stops : TokenKind → Prop} (halong : tree.cursor.Along input last error tokens)
    (hf : ∀ {text : Bytes}, (tree.ahead 1).cursor.Along input last error tokens.tail →
      tokens.tail.length < tokens.length →
      Mirrors m (.closed last error) (.operator (.binary op left (.string text) false) stack) stack
        stops (tree.ahead 1) tokens.tail ((f (.string text)).run (tree.ahead 1))) :
    Mirrors m (.closed last error) (.pattern left op stack) stack stops tree tokens
      (Descent.run (do
        let pattern ← expect .string (.rightOf op.text)
        let _ ← next
        let right ← pure (Node.string pattern.text)
        f right) tree) := by
  by_cases hkind : tree.cursor.current.kind = .string
  · rw [run_bind_ok (run_expect_ok hkind _)]
    have hstep : m.step tree.cursor.current (.pattern left op stack) =
        .shift (.operator (.binary op left (.string tree.cursor.current.text) false) stack) := by
      simp [step, takePattern, hkind]
    exact .next halong hstep hf
  · rw [run_bind_error (run_expect_error hkind _)]
    have hstep : m.step tree.cursor.current (.pattern left op stack) =
        .reject (.unexpected (.rightOf op.text) (some .string)) := by
      simp [step, takePattern]
    exact .rejected halong hstep (halong.about_current _)
      (ParseError.isTooDeep_about_unexpected _ _ _ _)

/-- The infix operators behind a left operand. -/
theorem Follows.continued_succ (ih : Follows m input last error turns) {left : Expr}
    (halong : tree.cursor.Along input last error tokens)
    (hturns : 2 * tokens.length + 1 ≤ turns + 1) (hfloor : m.OnFloor floor stack)
    (hdepth : tree.depth = m.depth + m.nesting stack) :
    Mirrors m (.closed last error) (.operator left stack) stack (infixAbove? · floor = none) tree
      tokens ((continuedIn m.limit floor (turns + 1) left.node).run tree) := by
  rw [continuedIn, run_bind_ok (run_current tree)]
  cases habove : infixAbove? tree.cursor.current.kind floor with
  | none =>
    have hdone : Mirrors m (.closed last error) (.operator left stack) stack
        (infixAbove? · floor = none) tree tokens (some (.ok left.node, tree)) :=
      .here left rfl habove
    cases hop : tree.cursor.current.kind.infixOp? with
    | none => exact hdone
    | some op =>
      simp only [if_pos (infixAbove?_eq_none.1 habove op hop)]
      exact hdone
  | some op =>
    obtain ⟨hop, hlt⟩ := infixAbove?_eq_some.1 habove
    have hsettle : m.settle tree.cursor.current left stack =
        takeInfix op tree.cursor.current left stack := hfloor.settle habove
    have hturn {tree' : Tree} {rest : List Token} (right : Expr)
        (hrest : rest.length < tokens.length) (hahead : tree'.cursor.Along input last error rest)
        (hlevel : tree'.depth = tree.depth) :
        Mirrors m (.closed last error)
          (.operator (.binary tree.cursor.current left right false) stack) stack
          (infixAbove? · floor = none) tree' rest
          ((continuedIn m.limit floor turns
            (.binary tree.cursor.current left.node right.node false)).run tree') :=
      ih.continued hahead (by omega) hfloor (hlevel.trans hdepth)
    simp only [hop, if_neg (Int.not_le.2 hlt)]
    cases hreserved : op.reserved with
    | true =>
      have hstep : m.step tree.cursor.current (.operator left stack) = .reject .reserved := by
        rw [step, hsettle, takeInfix, if_pos hreserved]
      rw [if_pos rfl, run_bind_error (run_complain _ _ _)]
      exact .rejected halong hstep rfl rfl
    | false =>
      simp only [Bool.false_eq_true, if_false]
      cases hstring : op.stringArg with
      | true =>
        have hstep : m.step tree.cursor.current (.operator left stack) =
            .shift (.pattern left tree.cursor.current stack) := by
          rw [step, hsettle, takeInfix, hreserved, hstring]
          rfl
        refine .next halong hstep fun hnext hlength => ?_
        refine pattern_mirrors hnext fun {text} hnext' hlength' => ?_
        exact hturn (.string text) (hlength'.trans hlength) hnext' rfl
      | false =>
        have hstep : m.step tree.cursor.current (.operator left stack) =
            .shift (.operand (.rightOf left tree.cursor.current op.level :: stack)) := by
          rw [step, hsettle, takeInfix, hreserved, hstring]
          rfl
        refine .next halong hstep fun hnext hlength => ?_
        refine .bind (ih.expression hnext (by omega) rfl (nesting_opened hdepth _)) hnext
          fun {e count rest} hsuffix hrest hstops => ?_
        refine (hturn e (hsuffix.length_le.trans_lt hlength) hrest rfl).congr
          (hrest.run_operator_congr ?_)
        rw [settle.eq_def]
        simp only [Frame.floor, hstops]

/-- A level, and in it an operand and the infix operators behind it. -/
theorem Follows.expression_succ (ih : Follows m input last error turns)
    (halong : tree.cursor.Along input last error tokens)
    (hturns : 2 * tokens.length + 2 ≤ turns + 1) (hfloor : m.OnFloor floor stack)
    (hdepth : tree.depth + 1 = m.depth + m.nesting stack) :
    Mirrors m (.closed last error) (.operand stack) stack (infixAbove? · floor = none) tree tokens
      ((expressionIn m.limit floor (turns + 1)).run tree) := by
  by_cases hdeep : m.isTooDeep stack = true
  · have hstep : m.step tree.cursor.current (.operand stack) = .reject (.tooDeep m.limit) := by
      rw [step, startOperand, if_pos hdeep]
    rw [expressionIn, run_bind_error (run_enter_error ((isTooDeep_iff hfloor hdepth).1 hdeep))]
    exact .refused halong hstep
  · have hlimit := mt (isTooDeep_iff hfloor hdepth).2 hdeep
    have hopened : tree.opened.depth = m.depth + m.nesting stack := hdepth
    have halong' : tree.opened.cursor.Along input last error tokens := halong
    have hfirst := ih.operand halong' (by omega) (Bool.not_eq_true _ ▸ hdeep) hopened
    rw [run_expressionIn (Int.not_lt.1 hlimit)]
    refine .closed (.bind hfirst halong' fun {e count rest} hsuffix hrest _ => ?_)
    have hlength := hsuffix.length_le
    exact ih.continued hrest (by omega) hfloor hopened

/-- **All calls follow the machine.** The induction is on the turns, as the recursion is; the tokens
left go down with them. -/
theorem follows (m : Machine) (input : Bytes) (last : Token) (error : Option LexError)
    (turns : Nat) : Follows m input last error turns := by
  induction turns with
  | zero => exact ⟨fun _ h => by omega, fun _ h => by omega, fun _ h => by omega⟩
  | succ turns ih => exact ⟨ih.expression_succ, ih.operand_succ, ih.continued_succ⟩

end Calls

end Descent

/-! ## Parsers -/

/-- The parser as a tree. -/
def Parser.tree (p : Parser) : Tree :=
  ⟨p.cursor, p.depth, match p.root with | some e => e.node | none => .nil⟩

/-- What may follow where a goal is reached. -/
def Goal.Stops : Goal → TokenKind → Prop
  | .expression floor, kind => Machine.infixAbove? kind floor = none
  | .operand, _ => True

theorem Machine.settle_nil {m : Machine} {t : Token} {e : Expr} (h : m.goal.Stops t.kind) :
    m.settle t e [] = .done e := by
  cases hgoal : m.goal with
  | operand => simp only [settle, hgoal]
  | expression floor =>
    rw [hgoal] at h
    have hnone : infixAbove? t.kind floor = none := h
    simp only [settle, hgoal, hnone]

namespace Descent

open Machine

/-- The call that reads what a run is to read. -/
def readIn (limit : Int) (turns : Nat) : Goal → Descent Node
  | .expression floor => expressionIn limit floor turns
  | .operand => operandIn limit turns

/-- A call from the outside follows a run with an empty stack. -/
theorem readIn_mirrors {p : Parser} {tokens : List Token} {input : Bytes} {last : Token}
    {error : Option LexError} {turns : Nat} (h : p.cursor.Along input last error tokens)
    (hturns : 2 * tokens.length + 2 ≤ turns) (limit : Int) (goal : Goal) :
    Mirrors ⟨goal, p.depth, limit⟩ (.closed last error) (.operand []) [] goal.Stops p.tree tokens
      ((readIn limit turns goal).run p.tree) := by
  cases goal with
  | expression floor => exact (follows _ _ _ _ turns).expression h hturns rfl rfl
  | operand =>
    exact (follows _ _ _ _ turns).operand h (by omega) rfl (Int.add_zero _).symm

/-- The call from the outside, with the turns that the tokens left can take. -/
def read (limit : Int) (goal : Goal) : Descent Node := do
  readIn limit (← turns) goal

end Descent

namespace Parser

/-- The parser with its cursor moved on. -/
def ahead (p : Parser) (count : Nat) : Parser :=
  { p with cursor := p.cursor.advance count }

theorem tree_failed (p : Parser) {e : ParseError} (h : ∀ fault, e ≠ .broken fault) :
    (p.failed e).tree = p.tree.failed e := by
  cases e with
  | broken fault => exact absurd rfl (h fault)
  | lexical e => rfl
  | grammatical e =>
    simp only [failed, Tree.failed, tree]
    cases (ParseError.grammatical e).isTooDeep <;> rfl

variable {input : Bytes} {last : Token} {error : Option LexError} {p : Parser}
  {tokens : List Token}

theorem run_ne_broken (h : p.cursor.Along input last error tokens) (limit : Int) (goal : Goal)
    (fault : Fault) : (p.run limit goal).1 ≠ .error (.broken fault) := by
  have hrun : (Machine.run ⟨goal, p.depth, limit⟩ (.closed last error) (.operand []) tokens).1 ≠
    .error (.broken fault) := Machine.run_ne_broken
  simp only [Parser.run, h.stands.upcoming]
  split
  · intro h
    cases h
  · next e he => rwa [he] at hrun

/-- **A call is a run of the machine**, whatever the turns are, if only they are enough; and an
operand is given where nothing continues it. -/
theorem descends {turns : Nat} (h : p.cursor.Along input last error tokens)
    (hturns : 2 * tokens.length + 2 ≤ turns) (limit : Int) (goal : Goal) :
    (Descent.readIn limit turns goal).run p.tree =
      some ((p.run limit goal).1.map Expr.node, (p.run limit goal).2.tree) ∧
    ∀ e, (p.run limit goal).1 = .ok e → goal.Stops (p.run limit goal).2.cursor.current.kind := by
  have hmirrors := Descent.readIn_mirrors h hturns limit goal
  simp only [Parser.run, h.stands.upcoming]
  generalize (Descent.readIn limit turns goal).run p.tree = out at hmirrors ⊢
  cases hmirrors with
  | @ok e consumed rest htokens hrun hstops =>
    subst htokens
    have hstep : Machine.step ⟨goal, p.depth, limit⟩ (p.ahead consumed.length).cursor.current
        (.operator e []) = .done e := Machine.settle_nil hstops
    have hlength : (consumed ++ rest).length - rest.length = consumed.length := by simp
    simp only [hrun, h.advance.1.run_done hstep, hlength]
    exact ⟨rfl, fun _ _ => hstops⟩
  | @error e consumed rest htokens hrun =>
    subst htokens
    have hbroken : ∀ fault, e ≠ .broken fault := by
      rintro fault rfl
      exact Machine.run_ne_broken (congrArg Prod.fst hrun)
    have hlength : (consumed ++ rest).length - rest.length = consumed.length := by simp
    simp only [hrun, hlength, tree_failed _ hbroken]
    refine ⟨rfl, ?_⟩
    intro e' he'
    cases he'

/-- From the outside, the turns are enough. -/
theorem run_read (h : p.cursor.Along input last error tokens) (limit : Int) (goal : Goal) :
    (Descent.read limit goal).run p.tree =
      (Descent.readIn limit (2 * tokens.length + 2) goal).run p.tree := by
  have htokens : p.cursor.upcoming.1 = tokens := congrArg Prod.fst h.stands.upcoming
  have hturns : Descent.turns.run p.tree = some (.ok (2 * tokens.length + 2), p.tree) := by
    rw [← htokens]
    rfl
  exact Descent.run_bind_ok hturns

/-- The error of a call that gave one. -/
def error? {α : Type} : Except ParseError α → Option ParseError
  | .ok _ => none
  | .error e => some e

/-- **Building gives the error of the machine's parser, if any, and leaves the same root.** -/
theorem builds (h : p.cursor.Along input last error tokens) (limit : Int) :
    (Descent.build limit).run p.tree =
      some (.ok (error? (p.build limit).1), (p.build limit).2.tree) := by
  have hread : (Descent.expression limit 0).run p.tree =
      some ((p.expression limit 0).1.map Expr.node, (p.expression limit 0).2.tree) :=
    (run_read h limit (.expression 0)).trans (descends h le_rfl limit (.expression 0)).1
  have hbroken := run_ne_broken h limit (.expression 0)
  unfold Descent.build Parser.build
  unfold Parser.expression at hread ⊢
  generalize p.run limit (.expression 0) = out at hread hbroken ⊢
  obtain ⟨result, p'⟩ := out
  cases result with
  | error e =>
    refine Descent.run_recover_error (Descent.run_bind_error hread) fun fault he => ?_
    exact hbroken fault (congrArg Except.error he)
  | ok e =>
    -- The root is set before the end of the text is checked.
    have hwhole : (Descent.whole limit).run p.tree =
        (Descent.expect .eof .input >>= fun _ => pure ()).run { p' with root := some e }.tree := by
      unfold Descent.whole
      rw [Descent.run_bind_ok hread, Descent.run_bind_ok rfl]
      rfl
    by_cases heof : p'.cursor.current.kind = .eof
    · simp only [if_pos heof]
      refine Descent.run_recover_ok (hwhole.trans ?_)
      exact Descent.run_bind_ok (Descent.run_expect_ok heof _)
    · simp only [if_neg heof]
      refine Descent.run_recover_error (hwhole.trans ?_) (ParseError.about_ne_broken _ _ _)
      rw [Descent.run_bind_error (Descent.run_expect_error heof _)]
      rw [tree_failed _ (ParseError.about_ne_broken _ _ _),
        Tree.failed_of_not_tooDeep _ (ParseError.isTooDeep_about_unexpected _ _ _ _)]
      rfl

/-- The parser and the tree of a text both begin on its first token. -/
theorem exists_start (input : Bytes) : ∃ (start : Parser) (last : Token) (error : Option LexError)
    (tokens : List Token), ofLexer (.ofText filterRules input) = .ok start ∧
      Tree.ofLexer (.ofText filterRules input) = .ok start.tree ∧ start.depth = 0 ∧
      start.cursor.Along input last error tokens := by
  obtain ⟨tokens, last, error, h⟩ := exists_lexes_closed input
  obtain ⟨t, l, hnext, hon⟩ := Cursor.On.ofNextToken [] h le_rfl
  refine ⟨⟨⟨[], t, none, l⟩, 0, none⟩, last, error, tokens, ?_, ?_, rfl, .plain hon rfl, h⟩
  · simp only [ofLexer, Cursor.ofLexer, Lexer.ofText_filterRules, hnext]
  · simp only [Tree.ofLexer, Cursor.ofLexer, Lexer.ofText_filterRules, hnext]
    rfl

/-- A parser that has built an expression keeps it. -/
theorem root_of_build {limit : Int} {e : Expr} (h : (p.build limit).1 = .ok e) :
    (p.build limit).2.root = some e := by
  simp only [Parser.build] at h ⊢
  split at h
  · cases h
  · split at h
    · next heof =>
      cases h
      simp only [if_pos heof]
    · cases h

end Parser

/-- **Recursive descent parses.** On every text it comes to an end with the error of `parse`, or
with the expression of `parse` as the root. -/
theorem exists_descent (limit : Int) (input : Bytes) : ∃ start tree,
    Tree.ofLexer (.ofText filterRules input) = .ok start ∧
    (Descent.build limit).run start = some (.ok (Parser.error? (parse limit input)), tree) ∧
    ∀ e, parse limit input = .ok e → tree.root = e.node := by
  obtain ⟨start, last, error, tokens, hparser, htree, -, halong⟩ := Parser.exists_start input
  have hparse : parse limit input = (start.build limit).1 := by
    simp only [parse, parseWith, hparser]
  refine ⟨start.tree, (start.build limit).2.tree, htree, hparse ▸ Parser.builds halong limit, ?_⟩
  intro e he
  simp only [Parser.tree, Parser.root_of_build (hparse.symm.trans he)]

end FilterQuery
