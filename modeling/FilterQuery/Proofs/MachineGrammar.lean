import FilterQuery.Parser.Machine
import FilterQuery.Proofs.Grammar

/-!
# The parsing machine reads the grammar

A run of the machine and a derivation of the grammar are two views of the same text.

**A phrase is read as one operand** (`run_phrase`). Started on the tokens of a phrase, the machine
arrives behind them as if it had shifted one complete operand with the tree of the phrase. This
needs two things of the surroundings: the stack below must let the phrase's operators in, and what
follows must not continue the phrase. Frames that are still open behind the last token are settled
by the token that follows, so the two runs meet one token later.

**What has been read is a derivation** (`run_sound`). The stack of the machine stands for the
tokens it has passed: each frame for the phrase and the operator it holds (`Reads`). One step keeps
this (`step_sound`), hence a whole run does.

**Depth.** On both sides the machine opens exactly as many levels as the phrase is nested.
-/

namespace FilterQuery

namespace Machine

/-! ## Levels and depth -/

/-- An infix operator of the level continues an operand on top of the stack. -/
def Admits (m : Machine) : List Frame → Nat → Prop
  | [], level =>
    match m.goal with
    | .expression floor => floor < level
    | .operand => False
  | frame :: _, level => frame.floor < level

/-- A phrase of the stratum may stand as an operand on top of the stack. -/
def Fits (m : Machine) (stack : List Frame) (s : Stratum) : Prop :=
  s = .operand ∨ m.Admits stack s.level

/-- A run may open that many levels of nesting. -/
def Allows (m : Machine) (levels : Nat) : Prop :=
  levels = 0 ∨ ((m.depth + levels : Nat) : Int) ≤ m.limit

variable {m : Machine} {stack : List Frame}

theorem Admits.mono {level level' : Nat} (h : m.Admits stack level) (hle : level ≤ level') :
    m.Admits stack level' := by
  cases stack with
  | cons frame stack => exact Nat.lt_of_lt_of_le h hle
  | nil =>
    simp only [Admits] at h ⊢
    cases hgoal : m.goal with
    | operand =>
      rw [hgoal] at h
      exact h
    | expression floor =>
      rw [hgoal] at h
      show floor < (level' : Int)
      have : floor < (level : Int) := h
      omega

theorem Fits.mono {s s' : Stratum} (h : m.Fits stack s) (hle : s.level ≤ s'.level) :
    m.Fits stack s' := by
  rcases h with rfl | h
  · left
    exact Stratum.eq_operand (Nat.le_trans (by decide) hle)
  · exact .inr (h.mono hle)

theorem Allows.mono {levels levels' : Nat} (h : m.Allows levels') (hle : levels ≤ levels') :
    m.Allows levels := by
  rcases h with h | h
  · exact .inl (by omega)
  · exact .inr (by omega)

theorem Allows.max {a b : Nat} (ha : m.Allows a) (hb : m.Allows b) : m.Allows (max a b) := by
  rcases Nat.le_total a b with hle | hle
  · rwa [Nat.max_eq_right hle]
  · rwa [Nat.max_eq_left hle]

theorem isTooDeep_eq_false : m.isTooDeep stack = false ↔ m.Allows (m.nesting stack) := by
  simp only [isTooDeep, Allows, Bool.and_eq_false_iff, decide_eq_false_iff_not]
  omega

theorem nesting_cons (m : Machine) (frame : Frame) (stack : List Frame) :
    m.nesting (frame :: stack) = m.nesting stack + 1 := by
  cases hgoal : m.goal <;> simp [nesting, hgoal]

theorem infixAbove?_eq_none {kind : TokenKind} {floor : Int} :
    infixAbove? kind floor = none ↔ ∀ op, kind.infixOp? = some op → (op.level : Int) ≤ floor := by
  cases h : kind.infixOp? <;> simp [infixAbove?, h]

theorem infixAbove?_eq_some {kind : TokenKind} {floor : Int} {op : InfixOp} :
    infixAbove? kind floor = some op ↔ kind.infixOp? = some op ∧ floor < op.level := by
  cases h : kind.infixOp? with
  | none => simp [infixAbove?, h]
  | some op' =>
    simp only [infixAbove?, h]
    split <;> grind

/-! ## One token behind an operand -/

/-- An operator that the stack lets in is taken. -/
theorem settle_operator {t : Token} {op : InfixOp} {e : Expr} (h : t.kind.infixOp? = some op)
    (hadmits : m.Admits stack op.level) : m.settle t e stack = takeInfix op t e stack := by
  cases stack with
  | nil =>
    simp only [Admits] at hadmits
    cases hgoal : m.goal with
    | operand =>
      rw [hgoal] at hadmits
      cases hadmits
    | expression floor =>
      rw [hgoal] at hadmits
      simp only [settle, hgoal, infixAbove?_eq_some.2 ⟨h, hadmits⟩]
  | cons frame stack =>
    have hlt : ((frame.floor : Nat) : Int) < op.level := Int.ofNat_lt.2 hadmits
    rw [settle.eq_def]
    simp only [infixAbove?_eq_some.2 ⟨h, hlt⟩]

/-- The operand of a prefix operator is complete behind its tokens. -/
theorem settle_operandOf {t op : Token} {level : Nat} {e : Expr} (h : 6 ≤ level) :
    m.settle t e (.operandOf op level :: stack) = m.settle t (.unary op e) stack := by
  have hnone : infixAbove? t.kind ((Frame.operandOf op level).floor : Int) = none := by
    rw [infixAbove?_eq_none]
    intro entry hentry
    have := infixOp?_level_le hentry
    show (entry.level : Int) ≤ (level : Int)
    omega
  rw [settle, hnone]

/-- The right operand of an infix operator is complete in front of a token that is not above it. -/
theorem settle_rightOf {t op : Token} {left e : Expr} {level : Nat}
    (h : ∀ entry, t.kind.infixOp? = some entry → entry.level ≤ level) :
    m.settle t e (.rightOf left op level :: stack) =
      m.settle t (.binary op left e false) stack := by
  have hnone : infixAbove? t.kind ((Frame.rightOf left op level).floor : Int) = none := by
    rw [infixAbove?_eq_none]
    intro entry hentry
    exact Int.ofNat_le.2 (h entry hentry)
  rw [settle, hnone]

theorem settle_group {t : Token} {e : Expr} (h : t.kind = .rightParen) :
    m.settle t e (.group :: stack) = .shift (.operator e.grouped stack) := by
  simp [settle, infixAbove?, h, TokenKind.infixOp?]

/-! ## A phrase is read as one operand -/

/-- The token that follows, the closing one included. -/
def following : List Token → Ending → Option Token
  | t :: _, _ => some t
  | [], .closed last _ => some last
  | [], .broken _ => none

/-- Nothing that follows continues a phrase of the stratum from the outside. -/
def Stops (s : Stratum) (rest : List Token) (ending : Ending) : Prop :=
  ∀ t ∈ following rest ending, ∀ op, t.kind.infixOp? = some op → op.level ≤ s.level

theorem Stops.mono {s s' : Stratum} {rest : List Token} {ending : Ending}
    (h : Stops s rest ending) (hle : s.level ≤ s'.level) : Stops s' rest ending :=
  fun t ht op hop => Nat.le_trans (h t ht op hop) hle

theorem stops_of_none {s : Stratum} {t : Token} {rest : List Token} {ending : Ending}
    (h : t.kind.infixOp? = none) : Stops s (t :: rest) ending := by
  intro t' ht' op hop
  cases ht'
  rw [h] at hop
  cases hop

theorem stops_of_operator {s : Stratum} {t : Token} {rest : List Token} {ending : Ending}
    {entry : InfixOp} (h : t.kind.infixOp? = some entry) (hle : entry.level ≤ s.level) :
    Stops s (t :: rest) ending := by
  intro t' ht' op hop
  cases ht'
  rw [h] at hop
  cases hop
  exact hle

/-- Runs that agree on the token that follows agree. -/
theorem run_operator_congr {ending : Ending} {rest : List Token} {e e' : Expr}
    {stack' : List Frame}
    (h : ∀ t ∈ following rest ending, m.settle t e stack = m.settle t e' stack') :
    run m ending (.operator e stack) rest = run m ending (.operator e' stack') rest := by
  cases rest with
  | cons t rest =>
    have ht := h t rfl
    simp only [run, step, ht]
  | nil =>
    cases ending with
    | broken fault => rfl
    | closed last error =>
      have hlast := h last rfl
      simp only [run, close, step, hlast]

end Machine

theorem Phrase.treeIn_true (p : Phrase) (paren : Bool) :
    p.treeIn true = (p.treeIn paren).grouped := by
  cases p with
  | group opening inner closing => exact Phrase.treeIn_true inner true
  | literal t =>
    simp only [treeIn, literalTree]
    cases t.kind <;> rfl
  | _ => rfl

namespace Machine

variable {m : Machine}

theorem startOperand_literal {stack : List Frame} {t : Token} (hdeep : m.isTooDeep stack = false)
    (h : t.kind ∈ [TokenKind.number, .string, .identity]) :
    m.startOperand stack t = .shift (.operator (Phrase.literalTree t) stack) := by
  simp only [List.mem_cons, List.not_mem_nil, or_false] at h
  rcases h with h | h | h <;>
    simp [startOperand, hdeep, h, TokenKind.prefixLevel?, Phrase.literalTree]

theorem prefixLevel?_of_mem {kind : TokenKind} (h : kind ∈ [TokenKind.not, .minus]) :
    ∃ level, kind.prefixLevel? = some level ∧ 6 ≤ level := by
  simp only [List.mem_cons, List.not_mem_nil, or_false] at h
  rcases h with rfl | rfl
  · exact ⟨7, rfl, by decide⟩
  · exact ⟨8, rfl, by decide⟩

/-- **A phrase is read as one operand.** -/
theorem run_phrase {s : Stratum} {p : Phrase} (h : Derives s p) {ending : Ending}
    {stack : List Frame} {rest : List Token} (hfits : m.Fits stack s)
    (hallows : m.Allows (m.nesting stack + p.inside)) (hstops : Stops s rest ending) :
    run m ending (.operand stack) (p.tokens ++ rest) =
      run m ending (.operator p.tree stack) rest := by
  induction h generalizing stack rest with
  | @literal t ht =>
    have hdeep := isTooDeep_eq_false.2 (hallows.mono (Nat.le_add_right ..))
    simp only [Phrase.tokens, List.cons_append, List.nil_append, run, step,
      startOperand_literal hdeep ht]
    rfl
  | @group opening closing p hopening _ hclosing ih =>
    have hdeep := isTooDeep_eq_false.2 (hallows.mono (Nat.le_add_right ..))
    have hopen : TokenKind.rightParen.infixOp? = none := rfl
    have hstart : m.startOperand stack opening = .shift (.operand (.group :: stack)) := by
      simp [startOperand, hdeep, hopening, TokenKind.prefixLevel?]
    have hfits' : m.Fits (.group :: stack) .disjunction := .inr (show 0 < 1 by decide)
    have hallows' : m.Allows (m.nesting (.group :: stack) + p.inside) := by
      rw [nesting_cons, Nat.add_assoc]
      exact hallows
    calc run m ending (.operand stack) ((Phrase.group opening p closing).tokens ++ rest)
        = run m ending (.operand (.group :: stack)) (p.tokens ++ closing :: rest) := by
          simp [Phrase.tokens, run, step, hstart]
      _ = run m ending (.operator p.tree (.group :: stack)) (closing :: rest) :=
          ih hfits' hallows' (stops_of_none (hclosing ▸ hopen))
      _ = run m ending (.operator p.tree.grouped stack) rest := by
          simp only [run, step, settle_group hclosing]
      _ = run m ending (.operator (Phrase.group opening p closing).tree stack) rest := by
          rw [Phrase.tree, ← Phrase.treeIn_true]
          rfl
  | @applied op p hop _ ih =>
    have hdeep := isTooDeep_eq_false.2 (hallows.mono (Nat.le_add_right ..))
    obtain ⟨level, hlevel, hle⟩ := prefixLevel?_of_mem hop
    have hstart : m.startOperand stack op = .shift (.operand (.operandOf op level :: stack)) := by
      simp [startOperand, hdeep, hlevel]
    have hallows' : m.Allows (m.nesting (.operandOf op level :: stack) + p.inside) := by
      rw [nesting_cons, Nat.add_assoc]
      exact hallows
    calc run m ending (.operand stack) ((Phrase.applied op p).tokens ++ rest)
        = run m ending (.operand (.operandOf op level :: stack)) (p.tokens ++ rest) := by
          simp [Phrase.tokens, run, step, hstart]
      _ = run m ending (.operator p.tree (.operandOf op level :: stack)) rest :=
          ih (.inl rfl) hallows' hstops
      _ = run m ending (.operator (Phrase.applied op p).tree stack) rest :=
          run_operator_congr fun t _ => settle_operandOf hle
  | @matched p op pattern _ hop hpattern ih =>
    have hentry := infixOp?_of_pattern hop
    have hadmits : m.Admits stack Stratum.matching.level := by
      rcases hfits with hfits | hfits
      · cases hfits
      · exact hfits
    calc run m ending (.operand stack) ((Phrase.matched p op pattern).tokens ++ rest)
        = run m ending (.operand stack) (p.tokens ++ op :: pattern :: rest) := by
          simp [Phrase.tokens]
      _ = run m ending (.operator p.tree stack) (op :: pattern :: rest) :=
          ih hfits hallows (stops_of_operator hentry (Nat.le_refl _))
      _ = run m ending (.pattern p.tree op stack) (pattern :: rest) := by
          simp [run, step, settle_operator hentry hadmits, takeInfix]
      _ = run m ending (.operator (Phrase.matched p op pattern).tree stack) rest := by
          simp only [run, step, takePattern, hpattern]
          rfl
  | @joined s p q op _ hop _ ihp ihq =>
    have hentry := infixOp?_of_mem hop
    have hlt := Stratum.level_lt_tighter hop
    have hadmits : m.Admits stack s.level := by
      rcases hfits with rfl | hfits
      · cases hop
      · exact hfits
    have hfits' : m.Fits (.rightOf p.tree op s.level :: stack) s.tighter := .inr hlt
    have hleft : m.Allows (m.nesting stack + p.inside) :=
      hallows.mono (Nat.add_le_add_left (Nat.le_max_left ..) _)
    have hright : m.Allows (m.nesting (.rightOf p.tree op s.level :: stack) + q.inside) := by
      rw [nesting_cons, Nat.add_assoc]
      exact hallows.mono (Nat.add_le_add_left (Nat.le_max_right ..) _)
    calc run m ending (.operand stack) ((Phrase.joined p op q).tokens ++ rest)
        = run m ending (.operand stack) (p.tokens ++ op :: (q.tokens ++ rest)) := by
          simp [Phrase.tokens]
      _ = run m ending (.operator p.tree stack) (op :: (q.tokens ++ rest)) :=
          ihp hfits hleft (stops_of_operator hentry (Nat.le_refl _))
      _ = run m ending (.operand (.rightOf p.tree op s.level :: stack)) (q.tokens ++ rest) := by
          simp [run, step, settle_operator hentry hadmits, takeInfix]
      _ = run m ending (.operator q.tree (.rightOf p.tree op s.level :: stack)) rest :=
          ihq hfits' hright (hstops.mono (Nat.le_of_lt hlt))
      _ = run m ending (.operator (Phrase.joined p op q).tree stack) rest :=
          run_operator_congr fun t ht => settle_rightOf (hstops t ht)
  | @tighter s p _ ih =>
    have hle := s.level_le_tighter
    exact ih (hfits.mono hle) hallows (hstops.mono hle)

/-! ## What has been read is a derivation -/

/-- The stack stands for the tokens that have been passed. -/
inductive Reads (m : Machine) : List Frame → List Token → Prop
  | nil : Reads m [] []
  | group {stack : List Frame} {passed : List Token} {t : Token} : Reads m stack passed →
      t.kind = .leftParen → Reads m (.group :: stack) (passed ++ [t])
  | operandOf {stack : List Frame} {passed : List Token} {op : Token} {level : Nat} :
      Reads m stack passed → op.kind.prefixLevel? = some level →
      Reads m (.operandOf op level :: stack) (passed ++ [op])
  | rightOf {stack : List Frame} {passed : List Token} {s : Stratum} {p : Phrase} {op : Token} :
      Reads m stack passed → Derives s p → op.kind ∈ s.operators → m.Admits stack s.level →
      m.Allows (m.nesting stack + p.inside) →
      Reads m (.rightOf p.tree op s.level :: stack) (passed ++ (p.tokens ++ [op]))

/-- A phrase of the stratum has been read as an operand on top of the stack. -/
structure Holds (m : Machine) (stack : List Frame) (s : Stratum) (p : Phrase)
    (passed : List Token) : Prop where
  derives : Derives s p
  fits : m.Fits stack s
  allows : m.Allows (m.nesting stack + p.inside)
  reads : ∃ before, Reads m stack before ∧ passed = before ++ p.tokens

/-- What the machine waits for fits the tokens that it has passed. -/
def Follows (m : Machine) : State → List Token → Prop
  | .operand stack, passed => Reads m stack passed
  | .pattern left op stack, passed => ∃ p before, m.Holds stack .matching p before ∧
      left = p.tree ∧ op.kind ∈ patternOperators ∧ passed = before ++ [op]
  | .operator e stack, passed => ∃ s p, m.Holds stack s p passed ∧ e = p.tree ∧ 6 ≤ s.level

/-- What becomes of the tokens passed when the machine has looked at one more. -/
def Answers (m : Machine) (passed : List Token) (t : Token) : Move → Prop
  | .shift s => m.Follows s (passed ++ [t])
  | .done e => ∃ s p, m.Holds [] s p passed ∧ e = p.tree
  | .reject _ => True

theorem mem_operators_of_infixOp? {kind : TokenKind} {op : InfixOp}
    (h : kind.infixOp? = some op) (hreserved : op.reserved = false) :
    (op.stringArg = true ∧ op.level = Stratum.matching.level ∧ kind ∈ patternOperators) ∨
      ∃ s : Stratum, op.stringArg = false ∧ op.level = s.level ∧ kind ∈ s.operators := by
  cases kind <;> simp only [TokenKind.infixOp?, Option.some.injEq, reduceCtorEq] at h <;> subst h
  case isIn => cases hreserved
  case or => exact .inr ⟨.disjunction, by decide⟩
  case and => exact .inr ⟨.conjunction, by decide⟩
  case equal | notEqual => exact .inr ⟨.equality, by decide⟩
  case less | lessEqual | greater | greaterEqual => exact .inr ⟨.relation, by decide⟩
  case regexMatch | regexNotMatch => exact .inl (by decide)

/-- Taking an infix operator that the stack lets in keeps what has been read. -/
theorem takeInfix_sound {stack : List Frame} {s : Stratum} {p : Phrase} {passed : List Token}
    {t : Token} {op : InfixOp} (hp : m.Holds stack s p passed) (hop : t.kind.infixOp? = some op)
    (hadmits : m.Admits stack op.level) (hle : op.level ≤ s.level) :
    m.Answers passed t (takeInfix op t p.tree stack) := by
  simp only [takeInfix]
  cases hreserved : op.reserved with
  | true => trivial
  | false =>
    obtain ⟨before, hreads, rfl⟩ := hp.reads
    rcases mem_operators_of_infixOp? hop hreserved with
      ⟨harg, hlevel, hmem⟩ | ⟨s', harg, hlevel, hmem⟩
    · rw [hlevel] at hadmits hle
      simp only [harg]
      exact ⟨p, _, ⟨hp.derives.mono hle, .inr hadmits, hp.allows, before, hreads, rfl⟩, rfl, hmem,
        rfl⟩
    · rw [hlevel] at hadmits hle
      simp only [harg, hlevel]
      show Reads m _ _
      rw [List.append_assoc]
      exact .rightOf hreads (hp.derives.mono hle) hmem hadmits hp.allows

theorem prefixLevel?_eq_some {kind : TokenKind} {level : Nat}
    (h : kind.prefixLevel? = some level) : kind ∈ [TokenKind.not, .minus] ∧ 7 ≤ level := by
  cases kind <;> simp only [TokenKind.prefixLevel?, Option.some.injEq, reduceCtorEq] at h <;>
    subst h <;> decide

/-- Only an operand fits behind a prefix operator. -/
theorem Fits.eq_operand {stack : List Frame} {op : Token} {level : Nat} {s : Stratum}
    (h : m.Fits (.operandOf op level :: stack) s) (hlevel : 7 ≤ level) : s = .operand := by
  rcases h with h | h
  · exact h
  · exact Stratum.eq_operand (Nat.le_of_lt (Nat.lt_of_le_of_lt hlevel h))

/-- Only what is tighter fits on the right of an infix operator. -/
theorem Fits.level_lt {stack : List Frame} {left : Expr} {op : Token} {s s' : Stratum}
    (h : m.Fits (.rightOf left op s'.level :: stack) s) (hop : op.kind ∈ s'.operators) :
    s'.level < s.level := by
  rcases h with rfl | h
  · exact Nat.lt_of_lt_of_le (Stratum.level_lt_tighter hop) (Stratum.level_le_operand _)
  · exact h

/-- A phrase in a frame that the next token does not continue joins the frame. -/
theorem join_sound {frame : Frame} {stack : List Frame} {s : Stratum} {p : Phrase}
    {passed : List Token} {t : Token} (hp : m.Holds (frame :: stack) s p passed)
    (hnone : infixAbove? t.kind (frame.floor : Int) = none)
    (ih : ∀ {s : Stratum} {p : Phrase}, m.Holds stack s p passed →
      (∀ op, t.kind.infixOp? = some op → op.level ≤ s.level) →
      m.Answers passed t (m.settle t p.tree stack)) :
    m.Answers passed t (m.settle t p.tree (frame :: stack)) := by
  rw [infixAbove?_eq_none] at hnone
  obtain ⟨before, hreads, rfl⟩ := hp.reads
  have hallows := hp.allows
  rw [nesting_cons, Nat.add_assoc] at hallows
  cases hreads with
  | @group _ before opening hreads hopening =>
    rw [settle.eq_def]
    simp only [infixAbove?_eq_none.2 hnone]
    by_cases hclosing : t.kind = .rightParen
    · simp only [hclosing]
      refine ⟨.operand, .group opening p t, ⟨?_, .inl rfl, hallows, before, hreads, ?_⟩, ?_, ?_⟩
      · exact .group hopening (hp.derives.mono s.disjunction_level_le) hclosing
      · simp [Phrase.tokens]
      · rw [Phrase.tree, ← Phrase.treeIn_true]
        rfl
      · decide
    · split
      · exact absurd ‹_› hclosing
      · trivial
  | @operandOf _ before op level hreads hop =>
    obtain ⟨hkind, hlevel⟩ := prefixLevel?_eq_some hop
    obtain rfl := hp.fits.eq_operand hlevel
    rw [settle_operandOf (by omega)]
    refine ih (s := .operand) (p := .applied op p)
      ⟨.applied hkind hp.derives, .inl rfl, hallows, before, hreads, ?_⟩ fun entry hentry => ?_
    · simp [Phrase.tokens]
    · exact Nat.le_trans (infixOp?_level_le hentry) (by decide)
  | @rightOf _ before s' q op hreads hq hop hadmits hleft =>
    have hlt := hp.fits.level_lt hop
    have hnext : ∀ entry, t.kind.infixOp? = some entry → entry.level ≤ s'.level :=
      fun entry hentry => Int.ofNat_le.1 (hnone entry hentry)
    rw [settle_rightOf hnext]
    refine ih (s := s') (p := .joined q op p) ⟨?_, .inr hadmits, ?_, before, hreads, ?_⟩ hnext
    · exact .joined hq hop (hp.derives.mono (Stratum.tighter_level_le hlt).2)
    · rw [Phrase.inside, ← Nat.add_max_add_left]
      exact hleft.max hallows
    · simp [Phrase.tokens]

/-- **Looking behind a complete operand** keeps what has been read. -/
theorem settle_sound {stack : List Frame} {s : Stratum} {p : Phrase} {passed : List Token}
    {t : Token} (hp : m.Holds stack s p passed)
    (hle : ∀ op, t.kind.infixOp? = some op → op.level ≤ s.level) :
    m.Answers passed t (m.settle t p.tree stack) := by
  induction stack generalizing s p with
  | nil =>
    cases hgoal : m.goal with
    | operand =>
      simp only [settle, hgoal]
      exact ⟨s, p, hp, rfl⟩
    | expression floor =>
      cases habove : infixAbove? t.kind floor with
      | none =>
        simp only [settle, hgoal, habove]
        exact ⟨s, p, hp, rfl⟩
      | some op =>
        obtain ⟨hop, hlt⟩ := infixAbove?_eq_some.1 habove
        have hadmits : m.Admits [] op.level := by
          simp only [Admits, hgoal]
          exact hlt
        rw [settle_operator hop hadmits]
        exact takeInfix_sound hp hop hadmits (hle op hop)
  | cons frame stack ih =>
    cases habove : infixAbove? t.kind (frame.floor : Int) with
    | none => exact join_sound hp habove ih
    | some op =>
      obtain ⟨hop, hlt⟩ := infixAbove?_eq_some.1 habove
      have hadmits : m.Admits (frame :: stack) op.level := Int.ofNat_lt.1 hlt
      rw [settle_operator hop hadmits]
      exact takeInfix_sound hp hop hadmits (hle op hop)

theorem startOperand_sound {stack : List Frame} {passed : List Token} {t : Token}
    (h : Reads m stack passed) : m.Answers passed t (m.startOperand stack t) := by
  simp only [startOperand]
  cases hdeep : m.isTooDeep stack with
  | true => trivial
  | false =>
    have hallows := isTooDeep_eq_false.1 hdeep
    cases hpre : t.kind.prefixLevel? with
    | some level => exact .operandOf h hpre
    | none =>
      cases hkind : t.kind
      case number | string | identity =>
        have hderives : Derives .operand (.literal t) := .literal (by simp [hkind])
        refine ⟨.operand, .literal t, ⟨hderives, .inl rfl, hallows, passed, h, rfl⟩, ?_, by decide⟩
        simp [Phrase.tree, Phrase.treeIn, Phrase.literalTree, hkind]
      case leftParen => exact .group h hkind
      all_goals trivial

/-- **One step keeps what has been read.** -/
theorem step_sound {state : State} {passed : List Token} {t : Token}
    (h : m.Follows state passed) : m.Answers passed t (m.step t state) := by
  cases state with
  | operand stack => exact startOperand_sound h
  | pattern left op stack =>
    obtain ⟨p, before, hp, rfl, hop, rfl⟩ := h
    simp only [step, takePattern]
    split
    · next hkind =>
      obtain ⟨first, hreads, rfl⟩ := hp.reads
      refine ⟨.matching, .matched p op t, ⟨.matched hp.derives hop hkind, hp.fits, hp.allows, first,
        hreads, ?_⟩, rfl, by decide⟩
      simp [Phrase.tokens]
    · trivial
  | operator e stack =>
    obtain ⟨s, p, hp, rfl, hlevel⟩ := h
    exact settle_sound hp fun op hop => Nat.le_trans (infixOp?_level_le hop) hlevel

/-- **A run that succeeds has read a phrase.** -/
theorem run_sound {ending : Ending} {state : State} {passed tokens rest : List Token} {e : Expr}
    (h : m.Follows state passed) (hrun : run m ending state tokens = (.ok e, rest)) :
    ∃ consumed s p, tokens = consumed ++ rest ∧ m.Holds [] s p (passed ++ consumed) ∧
      e = p.tree := by
  induction tokens generalizing state passed with
  | nil =>
    simp only [run] at hrun
    cases ending with
    | broken fault => cases hrun
    | closed last error =>
      have hans := step_sound (t := last) h
      simp only [close] at hrun
      cases hstep : m.step last state with
      | shift state' =>
        rw [hstep] at hrun
        cases hrun
      | reject complaint =>
        rw [hstep] at hrun
        cases hrun
      | done e' =>
        rw [hstep] at hrun hans
        cases hrun
        obtain ⟨s, p, hp, he⟩ := hans
        exact ⟨[], s, p, rfl, by simpa using hp, he⟩
  | cons t tokens ih =>
    have hans := step_sound (t := t) h
    simp only [run] at hrun
    cases hstep : m.step t state with
    | shift state' =>
      rw [hstep] at hrun hans
      obtain ⟨consumed, s, p, rfl, hp, he⟩ := ih hans hrun
      exact ⟨t :: consumed, s, p, rfl, by simpa using hp, he⟩
    | reject complaint =>
      rw [hstep] at hrun
      cases hrun
    | done e' =>
      rw [hstep] at hrun hans
      cases hrun
      obtain ⟨s, p, hp, he⟩ := hans
      exact ⟨[], s, p, rfl, by simpa using hp, he⟩

end Machine

end FilterQuery
