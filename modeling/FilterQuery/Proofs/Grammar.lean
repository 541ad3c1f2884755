import FilterQuery.Expr
import FilterQuery.Expr.Operator
import Mathlib.Data.Nat.Basic

/-!
# The grammar of filter expressions

The operator table as a stratified grammar over tokens, loosest stratum first:

    disjunction  →  disjunction or conjunction               |  conjunction
    conjunction  →  conjunction and equality                 |  equality
    equality     →  equality (== | !=) relation              |  relation
    relation     →  relation (< | <= | > | >=) matching      |  matching
    matching     →  matching (~= | ~!=) string               |  operand
    operand      →  (not | -) operand  |  ( disjunction )  |  number  |  string  |  identity

Every binary stratum is left recursive, so its operators associate to the left. No production
mentions `in`. A sentence is a disjunction and the end of the text.

**Derivations.** A `Phrase` is a derivation tree with its tokens in place, parentheses included.
`Derives s p` says that `p` is built by the productions of stratum `s`. From a phrase come its
`tokens`, the `tree` that it stands for and its `nesting`.

**One derivation.** `Sentence.unique`: a list of tokens is a sentence in at most one way. The proof
looks at a phrase as an operand followed by a chain of links, each an operator with what stands on
its right; the strata of the links never rise along the chain.
-/

namespace FilterQuery

/-! ## Strata -/

/-- The nonterminals of the grammar. -/
inductive Stratum where
  | disjunction
  | conjunction
  | equality
  | relation
  | matching
  | operand
deriving Repr, DecidableEq

namespace Stratum

/-- The next tighter stratum; nothing is tighter than an operand. -/
def tighter : Stratum → Stratum
  | disjunction => conjunction
  | conjunction => equality
  | equality => relation
  | relation => matching
  | matching => operand
  | operand => operand

/-- The operators that join a phrase of the stratum with a tighter one on its right. -/
def operators : Stratum → List TokenKind
  | disjunction => [.or]
  | conjunction => [.and]
  | equality => [.equal, .notEqual]
  | relation => [.less, .lessEqual, .greater, .greaterEqual]
  | matching => []
  | operand => []

/-- The level that the operators of the stratum have in the operator table. Operands stand above
all operators. -/
def level : Stratum → Nat
  | disjunction => 1
  | conjunction => 2
  | equality => 4
  | relation => 5
  | matching => 6
  | operand => 9

end Stratum

/-- The operators with a string literal on their right. -/
def patternOperators : List TokenKind := [.regexMatch, .regexNotMatch]

/-! ## Derivation trees -/

/-- A derivation tree. -/
inductive Phrase where
  | literal (t : Token)
  | group (opening : Token) (inner : Phrase) (closing : Token)
  /-- A prefix operator and its operand. -/
  | applied (op : Token) (arg : Phrase)
  /-- An infix operator between two phrases. -/
  | joined (left : Phrase) (op : Token) (right : Phrase)
  /-- An infix operator between a phrase and a string literal. -/
  | matched (left : Phrase) (op pattern : Token)
deriving Repr, DecidableEq

namespace Phrase

/-- The tokens of a phrase, in order. -/
def tokens : Phrase → List Token
  | literal t => [t]
  | group opening inner closing => opening :: inner.tokens ++ [closing]
  | applied op arg => op :: arg.tokens
  | joined left op right => left.tokens ++ op :: right.tokens
  | matched left op pattern => left.tokens ++ [op, pattern]

/-- The expression that a literal stands for. -/
def literalTree (t : Token) : Expr :=
  match t.kind with
  | .number => .number t.text
  | .string => .string t.text
  | _ => .identity t.text

/-- The expression that a phrase stands for, if it stands in parentheses or not. Parentheses leave
a mark on a binary expression that stands in them directly, and no other trace. -/
def treeIn (paren : Bool) : Phrase → Expr
  | literal t => literalTree t
  | group _ inner _ => inner.treeIn true
  | applied op arg => .unary op (arg.treeIn false)
  | joined left op right => .binary op (left.treeIn false) (right.treeIn false) paren
  | matched left op pattern => .binary op (left.treeIn false) (.string pattern.text) paren

/-- The expression that a phrase stands for. -/
def tree (p : Phrase) : Expr :=
  p.treeIn false

/-- The largest nesting of a prefix operand, of the inside of parentheses and of a right operand
other than a pattern, anywhere in the phrase; zero if there is none. The left operands of a run of
operators add nothing. -/
def inside : Phrase → Nat
  | literal _ => 0
  | group _ inner _ => 1 + inner.inside
  | applied _ arg => 1 + arg.inside
  | joined left _ right => max left.inside (1 + right.inside)
  | matched left _ _ => left.inside

/-- How deep a phrase is nested. -/
def nesting (p : Phrase) : Nat :=
  1 + p.inside

end Phrase

/-- The productions of the grammar. -/
inductive Derives : Stratum → Phrase → Prop
  | literal {t : Token} : t.kind ∈ [TokenKind.number, .string, .identity] →
      Derives .operand (.literal t)
  | group {opening closing : Token} {p : Phrase} : opening.kind = .leftParen →
      Derives .disjunction p → closing.kind = .rightParen →
      Derives .operand (.group opening p closing)
  | applied {op : Token} {p : Phrase} : op.kind ∈ [TokenKind.not, .minus] →
      Derives .operand p → Derives .operand (.applied op p)
  | matched {p : Phrase} {op pattern : Token} : Derives .matching p →
      op.kind ∈ patternOperators → pattern.kind = .string →
      Derives .matching (.matched p op pattern)
  | joined {s : Stratum} {p q : Phrase} {op : Token} : Derives s p → op.kind ∈ s.operators →
      Derives s.tighter q → Derives s (.joined p op q)
  | tighter {s : Stratum} {p : Phrase} : Derives s.tighter p → Derives s p

/-- The tokens are those of a disjunction and the end of the text. -/
def Sentence (p : Phrase) (tokens : List Token) : Prop :=
  Derives .disjunction p ∧ ∃ last : Token, last.kind = .eof ∧ tokens = p.tokens ++ [last]

/-! ## Levels -/

theorem infixOp?_of_mem {s : Stratum} {kind : TokenKind} (h : kind ∈ s.operators) :
    kind.infixOp? = some { level := s.level } := by
  cases s <;> simp only [Stratum.operators, List.mem_cons, List.not_mem_nil, or_false] at h <;>
    rcases h with rfl | rfl | rfl | rfl <;> rfl

theorem infixOp?_of_pattern {kind : TokenKind} (h : kind ∈ patternOperators) :
    kind.infixOp? = some { level := Stratum.matching.level, stringArg := true } := by
  simp only [patternOperators, List.mem_cons, List.not_mem_nil, or_false] at h
  rcases h with rfl | rfl <;> rfl

theorem not_pattern_of_mem {s : Stratum} {kind : TokenKind} (h : kind ∈ s.operators) :
    kind ∉ patternOperators := by
  intro hpat
  have heq := (infixOp?_of_mem h).symm.trans (infixOp?_of_pattern hpat)
  exact Bool.false_ne_true (congrArg InfixOp.stringArg (Option.some.inj heq))

theorem infixOp?_level_le {kind : TokenKind} {op : InfixOp} (h : kind.infixOp? = some op) :
    op.level ≤ 6 := by
  cases kind <;> simp only [TokenKind.infixOp?, Option.some.injEq, reduceCtorEq] at h <;>
    subst h <;> decide

theorem Stratum.disjunction_level_le (s : Stratum) : Stratum.disjunction.level ≤ s.level := by
  cases s <;> decide

theorem Stratum.level_le_operand (s : Stratum) : s.level ≤ Stratum.operand.level := by
  cases s <;> decide

theorem Stratum.eq_operand {s : Stratum} (h : 7 ≤ s.level) : s = .operand := by
  cases s <;> revert h <;> decide

theorem Stratum.level_le_tighter (s : Stratum) : s.level ≤ s.tighter.level := by
  cases s <;> decide

theorem Stratum.tighter_level_le {s s' : Stratum} (h : s'.level < s.level) :
    s'.level < s'.tighter.level ∧ s'.tighter.level ≤ s.level := by
  cases s' <;> cases s <;> revert h <;> decide

theorem Stratum.level_injective {s s' : Stratum} (h : s.level = s'.level) : s = s' := by
  cases s <;> cases s' <;> revert h <;> decide

/-- Phrases of a stratum are phrases of every looser one. -/
theorem Derives.mono {s s' : Stratum} {p : Phrase} (h : Derives s p) (hle : s'.level ≤ s.level) :
    Derives s' p := by
  induction hn : s.level - s'.level using Nat.strong_induction_on generalizing s' with
  | _ n ih =>
    rcases Nat.lt_or_eq_of_le hle with hlt | heq
    · obtain ⟨hup, hle'⟩ := Stratum.tighter_level_le hlt
      exact .tighter (ih (s.level - s'.tighter.level) (by omega) hle' rfl)
    · rw [Stratum.level_injective heq]
      exact h

/-- An operand is a literal, a group or an application of a prefix operator. -/
theorem Derives.operand_cases {p : Phrase} (h : Derives .operand p) :
    (∃ t, p = .literal t ∧ t.kind ∈ [TokenKind.number, .string, .identity]) ∨
      (∃ opening inner closing, p = .group opening inner closing ∧ opening.kind = .leftParen ∧
        Derives .disjunction inner ∧ closing.kind = .rightParen) ∨
      (∃ op arg, p = .applied op arg ∧ op.kind ∈ [TokenKind.not, .minus] ∧
        Derives .operand arg) := by
  generalize hs : Stratum.operand = s at h
  induction h with
  | literal ht => exact .inl ⟨_, rfl, ht⟩
  | group ho hp hc => exact .inr (.inl ⟨_, _, _, rfl, ho, hp, hc⟩)
  | applied hop hp => exact .inr (.inr ⟨_, _, rfl, hop, hp⟩)
  | matched => cases hs
  | joined _ hop =>
    subst hs
    cases hop
  | tighter _ ih =>
    subst hs
    exact ih rfl

/-! ## Chains -/

/-- An infix operator with what stands on its right. -/
inductive Link where
  | operand (op : Token) (right : Phrase)
  | pattern (op text : Token)

namespace Link

def tokens : Link → List Token
  | operand op right => op :: right.tokens
  | pattern op text => [op, text]

/-- A phrase with one more link. -/
def attach (p : Phrase) : Link → Phrase
  | operand op right => .joined p op right
  | pattern op text => .matched p op text

/-- The link belongs to a stratum. -/
inductive At : Stratum → Link → Prop
  | operand {s : Stratum} {op : Token} {right : Phrase} : op.kind ∈ s.operators →
      Derives s.tighter right → At s (.operand op right)
  | pattern {op text : Token} : op.kind ∈ patternOperators → text.kind = .string →
      At .matching (.pattern op text)

end Link

/-- Links whose strata never rise, between a loosest and a tightest one. -/
inductive Chain (loosest : Stratum) : Stratum → List Link → Prop
  | nil {tightest : Stratum} : Chain loosest tightest []
  | cons {s tightest : Stratum} {k : Link} {ks : List Link} : loosest.level ≤ s.level →
      s.level ≤ tightest.level → Link.At s k → Chain loosest s ks → Chain loosest tightest (k :: ks)

namespace Chain

theorem mono {s s' tightest : Stratum} {ks : List Link} (h : Chain s tightest ks)
    (hle : s'.level ≤ s.level) : Chain s' tightest ks := by
  induction h with
  | nil => exact .nil
  | cons hlo hhi hk _ ih => exact .cons (Nat.le_trans hle hlo) hhi hk ih

/-- A link of the loosest stratum can be added at the end. -/
theorem snoc {s tightest : Stratum} {ks : List Link} {k : Link} (h : Chain s tightest ks)
    (hle : s.level ≤ tightest.level) (hk : Link.At s k) : Chain s tightest (ks ++ [k]) := by
  induction h with
  | nil => exact .cons le_rfl hle hk .nil
  | cons hlo hhi hk' _ ih => exact .cons hlo hhi hk' (ih hlo)

end Chain

/-- **A phrase is an operand and a chain of links.** -/
theorem Derives.exists_chain {s : Stratum} {p : Phrase} (h : Derives s p) :
    ∃ a ks, Derives .operand a ∧ Chain s .operand ks ∧ p = ks.foldl Link.attach a := by
  induction h with
  | literal ht => exact ⟨_, [], .literal ht, .nil, rfl⟩
  | group ho hp hc _ => exact ⟨_, [], .group ho hp hc, .nil, rfl⟩
  | applied hop hp _ => exact ⟨_, [], .applied hop hp, .nil, rfl⟩
  | @matched p op pattern hp hop hpat ih =>
    obtain ⟨a, ks, ha, hks, rfl⟩ := ih
    exact ⟨a, ks ++ [.pattern op pattern], ha, hks.snoc (by decide) (.pattern hop hpat),
      by simp; rfl⟩
  | @joined s p q op hp hop hq ihp _ =>
    obtain ⟨a, ks, ha, hks, rfl⟩ := ihp
    exact ⟨a, ks ++ [.operand op q], ha, hks.snoc (by cases s <;> decide) (.operand hop hq),
      by simp; rfl⟩
  | @tighter s p _ ih =>
    obtain ⟨a, ks, ha, hks, rfl⟩ := ih
    exact ⟨a, ks, ha, hks.mono s.level_le_tighter, rfl⟩

theorem tokens_foldl_attach (a : Phrase) (ks : List Link) :
    (ks.foldl Link.attach a).tokens = a.tokens ++ ks.flatMap Link.tokens := by
  induction ks generalizing a with
  | nil => simp
  | cons k ks ih =>
    rw [List.foldl_cons, ih]
    cases k <;> simp [Link.attach, Phrase.tokens, Link.tokens]

/-! ## One derivation -/

/-- No operator of the stratum, or of a tighter one, comes first. -/
def Ends (s : Stratum) (rest : List Token) : Prop :=
  ∀ t ∈ rest.head?, ∀ op, t.kind.infixOp? = some op → op.level < s.level

theorem ends_operand (rest : List Token) : Ends .operand rest := by
  intro t _ op hop
  have := infixOp?_level_le hop
  show op.level < 9
  omega

theorem ends_of_none {s : Stratum} {t : Token} {rest : List Token}
    (h : t.kind.infixOp? = none) : Ends s (t :: rest) := by
  intro t' ht' op hop
  cases ht'
  rw [h] at hop
  cases hop

theorem Link.infixOp?_op {s : Stratum} {k : Link} (h : Link.At s k) :
    ∃ op rest, k.tokens = op :: rest ∧ ∃ entry, op.kind.infixOp? = some entry ∧
      entry.level = s.level := by
  cases h with
  | operand hop _ => exact ⟨_, _, rfl, _, infixOp?_of_mem hop, rfl⟩
  | pattern hop _ => exact ⟨_, _, rfl, _, infixOp?_of_pattern hop, rfl⟩

theorem Stratum.level_lt_tighter {s : Stratum} {kind : TokenKind} (h : kind ∈ s.operators) :
    s.level < s.tighter.level := by
  cases s with
  | matching | operand => cases h
  | _ => decide

/-- What follows the right operand of a link does not continue that operand. -/
theorem Chain.ends_right {loosest s : Stratum} {kind : TokenKind} {ks : List Link}
    {rest : List Token} (h : Chain loosest s ks) (hrest : Ends loosest rest)
    (hle : loosest.level ≤ s.level) (hkind : kind ∈ s.operators) :
    Ends s.tighter (ks.flatMap Link.tokens ++ rest) := by
  have hlt := Stratum.level_lt_tighter hkind
  intro t ht op hop
  cases h with
  | nil =>
    have := hrest t ht op hop
    omega
  | cons _ hhi hk _ =>
    obtain ⟨op', more, htokens, entry, hentry, hlevel⟩ := Link.infixOp?_op hk
    simp only [List.flatMap_cons, htokens, List.cons_append, List.head?_cons] at ht
    cases ht
    rw [hentry] at hop
    cases hop
    omega

/-- The claim of `Derives.cancel` for phrases of fewer tokens. -/
def CancelsBelow (n : Nat) : Prop :=
  ∀ {s : Stratum} {p q : Phrase} {rest rest' : List Token}, p.tokens.length < n → Derives s p →
    Derives s q → p.tokens ++ rest = q.tokens ++ rest' → Ends s rest → Ends s rest' →
    p = q ∧ rest = rest'

theorem operand_cancel {n : Nat} (ih : CancelsBelow n) {a b : Phrase} {rest rest' : List Token}
    (hn : a.tokens.length ≤ n) (ha : Derives .operand a) (hb : Derives .operand b)
    (h : a.tokens ++ rest = b.tokens ++ rest') : a = b ∧ rest = rest' := by
  rcases ha.operand_cases with ⟨t, rfl, ht⟩ | ⟨o, inner, c, rfl, ho, hinner, hc⟩ |
      ⟨op, arg, rfl, hop, harg⟩ <;>
    rcases hb.operand_cases with ⟨t', rfl, ht'⟩ | ⟨o', inner', c', rfl, ho', hinner', hc'⟩ |
      ⟨op', arg', rfl, hop', harg'⟩ <;>
    simp only [Phrase.tokens, List.cons_append, List.nil_append, List.append_assoc,
      List.cons.injEq] at h <;> obtain ⟨rfl, h⟩ := h
  · exact ⟨rfl, h⟩
  · simp [ho'] at ht
  · simp only [List.mem_cons] at ht hop'
    grind
  · simp [ho] at ht'
  · have hopen : TokenKind.rightParen.infixOp? = none := rfl
    obtain ⟨rfl, htail⟩ := ih (by simp [Phrase.tokens] at hn; omega) hinner hinner' h
      (ends_of_none (hc ▸ hopen)) (ends_of_none (hc' ▸ hopen))
    simpa using htail
  · simp [ho] at hop'
  · simp only [List.mem_cons] at ht' hop
    grind
  · simp [ho'] at hop
  · obtain ⟨rfl, htail⟩ := ih (by simp [Phrase.tokens] at hn; omega) harg harg' h
      (ends_operand _) (ends_operand _)
    exact ⟨rfl, htail⟩

/-- Two chains of one stratum in front of texts that they cannot take in are the same chain. -/
theorem chain_cancel {n : Nat} (ih : CancelsBelow n) {loosest tightest tightest' : Stratum}
    {ks ks' : List Link} {rest rest' : List Token} (hks : Chain loosest tightest ks)
    (hks' : Chain loosest tightest' ks') (hn : (ks.flatMap Link.tokens).length ≤ n)
    (h : ks.flatMap Link.tokens ++ rest = ks'.flatMap Link.tokens ++ rest')
    (hrest : Ends loosest rest) (hrest' : Ends loosest rest') : ks = ks' ∧ rest = rest' := by
  induction hks generalizing ks' tightest' with
  | nil =>
    cases hks' with
    | nil => exact ⟨rfl, h⟩
    | cons hlo _ hk _ =>
      obtain ⟨op, more, htokens, entry, hentry, hlevel⟩ := Link.infixOp?_op hk
      simp only [List.flatMap_nil, List.nil_append, List.flatMap_cons, htokens,
        List.cons_append] at h
      have := hrest op (by rw [h]; rfl) entry hentry
      omega
  | @cons s tightest k ks hlo _ hk hks ihks =>
    cases hks' with
    | nil =>
      obtain ⟨op, more, htokens, entry, hentry, hlevel⟩ := Link.infixOp?_op hk
      simp only [List.flatMap_nil, List.nil_append, List.flatMap_cons, htokens,
        List.cons_append] at h
      have := hrest' op (by rw [← h]; rfl) entry hentry
      omega
    | @cons s' _ k' ks' hlo' _ hk' hks' =>
      simp only [List.flatMap_cons, List.append_assoc, List.length_append] at h hn
      cases hk with
      | @operand _ op right hop hright =>
        cases hk' with
        | @operand _ op' right' hop' hright' =>
          simp only [Link.tokens, List.cons_append, List.cons.injEq, List.length_cons] at h hn
          obtain ⟨rfl, h⟩ := h
          have hlevel := (infixOp?_of_mem hop).symm.trans (infixOp?_of_mem hop')
          obtain rfl : s = s' := Stratum.level_injective (congrArg InfixOp.level
            (Option.some.inj hlevel))
          obtain ⟨rfl, htail⟩ := ih (by omega) hright hright' h
            (hks.ends_right hrest hlo hop) (hks'.ends_right hrest' hlo' hop')
          obtain ⟨rfl, rfl⟩ := ihks hks' (by omega) htail
          exact ⟨rfl, rfl⟩
        | @pattern op' text hop' htext =>
          simp only [Link.tokens, List.cons_append, List.cons.injEq] at h
          obtain ⟨rfl, -⟩ := h
          exact absurd hop' (not_pattern_of_mem hop)
      | @pattern op text hop htext =>
        cases hk' with
        | @operand _ op' right' hop' hright' =>
          simp only [Link.tokens, List.cons_append, List.cons.injEq] at h
          obtain ⟨rfl, -⟩ := h
          exact absurd hop (not_pattern_of_mem hop')
        | @pattern op' text' hop' htext' =>
          simp only [Link.tokens, List.cons_append, List.nil_append, List.cons.injEq,
            List.length_cons] at h hn
          obtain ⟨rfl, rfl, htail⟩ := h
          obtain ⟨rfl, rfl⟩ := ihks hks' (by omega) htail
          exact ⟨rfl, rfl⟩

/-- **The tokens of a phrase determine it**, in front of texts that it cannot take in. -/
theorem Derives.cancel {s : Stratum} {p q : Phrase} {rest rest' : List Token} (hp : Derives s p)
    (hq : Derives s q) (h : p.tokens ++ rest = q.tokens ++ rest') (hrest : Ends s rest)
    (hrest' : Ends s rest') : p = q ∧ rest = rest' := by
  induction hn : p.tokens.length using Nat.strong_induction_on
    generalizing s p q rest rest' with
  | _ n ih =>
    have hbelow : CancelsBelow n := fun hlt hp hq h hrest hrest' =>
      ih _ hlt hp hq h hrest hrest' rfl
    obtain ⟨a, ks, ha, hks, rfl⟩ := hp.exists_chain
    obtain ⟨b, ks', hb, hks', rfl⟩ := hq.exists_chain
    rw [tokens_foldl_attach, tokens_foldl_attach, List.append_assoc, List.append_assoc] at h
    rw [tokens_foldl_attach, List.length_append] at hn
    obtain ⟨rfl, hlinks⟩ := operand_cancel hbelow (by omega) ha hb h
    obtain ⟨rfl, rfl⟩ := chain_cancel hbelow hks hks' (by omega) hlinks hrest hrest'
    exact ⟨rfl, rfl⟩

/-- **A sentence has one derivation.** -/
theorem Sentence.unique {p q : Phrase} {tokens : List Token} (hp : Sentence p tokens)
    (hq : Sentence q tokens) : p = q := by
  obtain ⟨hp, last, hlast, rfl⟩ := hp
  obtain ⟨hq, last', hlast', h⟩ := hq
  have hopen : TokenKind.eof.infixOp? = none := rfl
  exact (hp.cancel hq h (ends_of_none (hlast ▸ hopen))
    (ends_of_none (hlast' ▸ hopen))).1

end FilterQuery
