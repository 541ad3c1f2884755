import FilterQuery.Proofs.Printing
import FilterQuery.Proofs.Shapes

/-!
# How the two limits on depth relate

A parse counts how deep a text is nested; making a filter counts how deep connectives stand in each
other. Neither counts the left operands of a run, but a run of `and` inside a run of `or` is one
level for the parser and two for the filter.

**Theorem (`visits_le_twice_limit`).** What parses within a limit is never visited deeper than twice
that limit, so no filter fails on depth if its limit is twice the parser's. The factor two is
needed: `tower` gives texts for which both counts are known exactly.

**Visits.** `Visits` has the expressions that come up while the filter of an expression is made,
each with its depth. A filter fails on depth just when something is visited below the limit
(`exists_tooDeep_iff`).

**The bound.** Parentheses, prefix operators and right operands are one level each for the parser.
What a phrase can add to that on its own is its `looseness`: two levels for a run of `or`, one for a
run of `and`.
-/

namespace FilterQuery

/-! ## Visits below the limit -/

/-- What fails on depth has visited something below the limit. -/
theorem Expr.exists_visits_of_tooDeep {limit limit' : Int} {depth : Nat} {e : Expr} {doc : Bytes}
    (h : e.filterAt limit depth = .error ⟨doc, .tooDeep limit'⟩) :
    ∃ n v, Visits limit depth e n v ∧ limit < n := by
  obtain ⟨n, v, cause, hv, hfaulty, heq⟩ := exists_faulty h
  obtain ⟨rfl, rfl⟩ := Malformed.mk.inj heq
  refine ⟨n, v, hv, ?_⟩
  cases hfaulty with
  | tooDeep _ hlt => exact hlt
  | comparison _ _ hbad =>
    cases hbad with
    | right _ _ hcause =>
      simp only [rightComplaint?] at hcause
      split at hcause <;> cases hcause

/-- A visit below the limit is where the filter fails. -/
theorem Visits.exists_tooDeep {limit : Int} {depth n : Nat} {e v : Expr}
    (h : Visits limit depth e n v) (hlt : limit < n) :
    ∃ doc, e.filterAt limit depth = .error ⟨doc, .tooDeep limit⟩ :=
  ⟨v.render, h.filterAt_eq_error (Faulty.tooDeep v hlt).filterAt_eq_error⟩

/-- **A filter fails on depth just when something is visited below the limit.** -/
theorem exists_tooDeep_iff {limit : Int} {depth : Nat} {e : Expr} :
    (∃ doc, e.filterAt limit depth = .error ⟨doc, .tooDeep limit⟩) ↔
      ∃ n v, Visits limit depth e n v ∧ limit < n :=
  ⟨fun ⟨_, h⟩ => e.exists_visits_of_tooDeep h, fun ⟨_, _, hv, hlt⟩ => hv.exists_tooDeep hlt⟩

/-! ## Parsed expressions are not visited too deep -/

/-- The levels that a run of the operator adds to those that a parse counts. -/
def TokenKind.weight : TokenKind → Nat
  | .or => 2
  | .and => 1
  | _ => 0

/-- The levels that the operators outside all parentheses add to those that a parse counts. -/
def Phrase.looseness : Phrase → Nat
  | joined _ op _ => op.kind.weight
  | _ => 0

/-- The looseness that phrases of a stratum may have. -/
def Stratum.looseness : Stratum → Nat
  | disjunction => 2
  | conjunction => 1
  | _ => 0

theorem TokenKind.eq_of_weight_eq {kind kind' : TokenKind} (h : kind.weight = kind'.weight)
    (hpos : 0 < kind'.weight) : kind = kind' := by
  have hcases : ∀ k : TokenKind, (k = .or ∧ k.weight = 2) ∨ (k = .and ∧ k.weight = 1) ∨
      k.weight = 0 := by
    intro k
    cases k <;> simp [weight]
  rcases hcases kind with ⟨rfl, hk⟩ | ⟨rfl, hk⟩ | hk <;>
    rcases hcases kind' with ⟨rfl, hk'⟩ | ⟨rfl, hk'⟩ | hk' <;> first | rfl | omega

theorem TokenKind.weight_of_connective {kind : TokenKind} {occur : Occur}
    (h : connective? kind = some occur) : 0 < kind.weight := by
  cases kind with
  | and | or => decide
  | _ => cases h

theorem connective?_of_pattern {kind : TokenKind} (h : kind ∈ patternOperators) :
    connective? kind = none := by
  revert kind
  decide

theorem weight_of_mem {s : Stratum} {kind : TokenKind} (h : kind ∈ s.operators) :
    kind.weight = s.looseness ∧ s.tighter.looseness ≤ 1 := by
  cases s <;> simp only [Stratum.operators, List.mem_cons, List.not_mem_nil, or_false] at h <;>
    rcases h with rfl | rfl | rfl | rfl <;> decide

theorem Derives.looseness_le {s : Stratum} {q : Phrase} (h : Derives s q) :
    q.looseness ≤ s.looseness := by
  induction h with
  | literal | group | applied | matched => exact Nat.zero_le _
  | joined _ hop _ _ _ => exact (weight_of_mem hop).1.le
  | @tighter s p _ ih =>
    have hmono : s.tighter.looseness ≤ s.looseness := by cases s <;> decide
    exact ih.trans hmono

/-- The left operand of a run either continues the run, on the same level, or is less loose. -/
theorem leftDepth_add_looseness {left : Phrase} {kind : TokenKind} (depth : Nat)
    (hpos : 0 < kind.weight) (h : left.looseness ≤ kind.weight) :
    (if (left.treeIn false).continuesRun kind then depth else depth + 1) + left.looseness ≤
      depth + kind.weight := by
  split
  · omega
  · next hrun =>
    have hne : left.looseness ≠ kind.weight := by
      intro heq
      cases left with
      | joined l op r =>
        obtain rfl := TokenKind.eq_of_weight_eq heq hpos
        simp [Phrase.treeIn, Expr.continuesRun] at hrun
      | _ => exact absurd heq.symm hpos.ne'
    omega

/-- **Visits of a derivation.** Each level of the parser costs at most two. -/
theorem Derives.visits_le {s : Stratum} {q : Phrase} (h : Derives s q) {limit : Int} {depth n : Nat}
    {v : Expr} {paren : Bool} (hv : Visits limit depth (q.treeIn paren) n v) :
    n ≤ depth + 2 * q.inside + q.looseness := by
  induction h generalizing depth paren with
  | literal =>
    simp only [Phrase.treeIn, Phrase.literalTree] at hv
    split at hv <;> cases hv <;> omega
  | @group opening closing p _ hp _ ih =>
    have hle := ih hv
    have hloose := hp.looseness_le
    simp only [Stratum.looseness] at hloose
    simp only [Phrase.inside, Phrase.looseness]
    omega
  | @applied op p _ hp ih =>
    have hloose := hp.looseness_le
    rw [Phrase.treeIn] at hv
    cases hv with
    | here => omega
    | negated _ _ hv =>
      have hle := ih hv
      simp only [Stratum.looseness] at hloose
      simp only [Phrase.inside, Phrase.looseness]
      omega
  | matched _ hop _ _ =>
    have hnone := connective?_of_pattern hop
    rw [Phrase.treeIn] at hv
    cases hv with
    | here => omega
    | left _ hoccur _ => rw [hnone] at hoccur; cases hoccur
    | right _ hoccur _ _ => rw [hnone] at hoccur; cases hoccur
  | @joined s p q op hp hop hq ihp ihq =>
    obtain ⟨hweight, htight⟩ := weight_of_mem hop
    have hloosep := hp.looseness_le
    have hlooseq := hq.looseness_le
    rw [Phrase.treeIn] at hv
    simp only [Phrase.inside, Phrase.looseness]
    cases hv with
    | here => omega
    | left _ hoccur hv =>
      have hle := ihp hv
      have hleft := leftDepth_add_looseness depth (TokenKind.weight_of_connective hoccur)
        (hweight ▸ hloosep)
      omega
    | right _ _ _ hv =>
      have hle := ihq hv
      omega
  | tighter _ ih => exact ih hv

/-- A parsed expression is not visited below twice the limit of the parser. -/
theorem Visits.le_of_parse {limit filterLimit : Int} {input : Bytes} {e v : Expr} {n : Nat}
    (hparse : parse limit input = .ok e) (h : Visits filterLimit 0 e n v) :
    (n : Int) ≤ 2 * limit := by
  obtain ⟨q, p, -, hq, hnesting, rfl⟩ := exists_phrase hparse
  have hle := hq.visits_le h
  have hloose := hq.looseness_le
  simp only [Stratum.looseness] at hloose
  simp only [Phrase.nesting] at hnesting
  omega

theorem Visits.of_unplaced {limit : Int} {depth n : Nat} {e v : Expr}
    (h : Visits limit depth e.unplaced n v) : ∃ v', Visits limit depth e n v' := by
  induction e generalizing depth with
  | identity | string | number => exact ⟨v, h⟩
  | unary op arg ih =>
    rw [Expr.unplaced] at h
    cases h with
    | here => exact ⟨_, .here _ _⟩
    | negated hle hnot h =>
      obtain ⟨v', hv⟩ := ih h
      exact ⟨v', .negated hle hnot hv⟩
  | binary op left right paren ihl ihr =>
    rw [Expr.unplaced] at h
    cases h with
    | here => exact ⟨_, .here _ _⟩
    | left hle hoccur h =>
      rw [Expr.continuesRun_unplaced] at h
      obtain ⟨v', hv⟩ := ihl h
      exact ⟨v', .left hle hoccur hv⟩
    | right hle hoccur hleft h =>
      rw [Expr.continuesRun_unplaced, Expr.filterAt_unplaced] at hleft
      obtain ⟨v', hv⟩ := ihr h
      exact ⟨v', .right hle hoccur hleft hv⟩

/-! ## Towers -/

/-- A comparison in parentheses, below a run of `and` below a run of `or`, over and over. -/
def tower : Nat → Bytes
  | 0 => ascii "x == 1"
  | k + 1 => ascii "(" ++ tower k ++ ascii ") and b == 1 or c == 1"

namespace Phrase

/-- The comparison of a field with one. -/
def isOne (field : Bytes) : Phrase :=
  joined (literal (.bare .identity field)) (.bare .equal (ascii "=="))
    (literal (.bare .number (ascii "1")))

/-- The derivation of a tower. -/
def tower : Nat → Phrase
  | 0 => isOne (ascii "x")
  | k + 1 =>
    joined
      (joined (group (.bare .leftParen (ascii "(")) (tower k) (.bare .rightParen (ascii ")")))
        (.bare .and (ascii "and")) (isOne (ascii "b")))
      (.bare .or (ascii "or")) (isOne (ascii "c"))

theorem write_tower (k : Nat) (paren : Bool) (tail : Bytes) :
    ((tower k).treeIn paren).write tail =
      if paren then ascii "(" ++ FilterQuery.tower k ++ ascii ")" ++ tail
      else FilterQuery.tower k ++ tail := by
  induction k generalizing paren tail with
  | zero => cases paren <;> rfl
  | succ k ih =>
    have hinner := ih true
    simp only [if_true] at hinner
    cases paren <;>
      simp [tower, treeIn, isOne, literalTree, Expr.write, hinner, FilterQuery.tower, Token.bare,
        ascii]

theorem derives_isOne (field : Bytes) : Derives .equality (isOne field) := by
  refine .joined (Derives.mono (.literal ?_) (by decide)) (by decide)
    (Derives.mono (.literal ?_) (by decide))
  · simp [Token.bare]
  · simp [Token.bare]

theorem derives_tower (k : Nat) : Derives .disjunction (tower k) := by
  induction k with
  | zero => exact (derives_isOne _).mono (by decide)
  | succ k ih =>
    refine .joined ?_ (by decide) ((derives_isOne _).mono (by decide))
    refine Derives.mono (s := .conjunction) ?_ (by decide)
    refine .joined ?_ (by decide) (derives_isOne _)
    exact Derives.mono (s := .operand) (.group rfl ih rfl) (by decide)

theorem spelled_letter {b : UInt8} (h : isLetter b = true) : Spelled .identity [b] := by
  refine ⟨by simp [isValidIdentity, h], fun word hword rest hrest => ?_⟩
  have hlong : ∀ word ∈ reservedWords, 2 ≤ word.length := by decide
  have hlen := congrArg List.length hrest
  have := hlong word hword
  simp only [List.length_singleton, List.length_append] at hlen
  omega

theorem isSpelled_isOne {b : UInt8} (h : isLetter b = true) : (isOne [b]).IsSpelled := by
  rw [isOne, isSpelled_joined, isSpelled_literal, isSpelled_literal]
  exact ⟨spelled_letter h, ⟨rfl, rfl⟩, .integer (by decide) (List.all_eq_true.1 rfl)⟩

theorem isSpelled_tower (k : Nat) : (tower k).IsSpelled := by
  induction k with
  | zero => exact isSpelled_isOne (by decide)
  | succ k ih =>
    rw [tower, isSpelled_joined, isSpelled_joined, isSpelled_group]
    exact ⟨⟨⟨⟨rfl, rfl⟩, ih, rfl, rfl⟩, ⟨rfl, rfl⟩, isSpelled_isOne (by decide)⟩, ⟨rfl, rfl⟩,
      isSpelled_isOne (by decide)⟩

/-- A parse counts one level for each storey. -/
theorem inside_trimIn_tower (k : Nat) (paren : Bool) :
    ((tower k).trimIn paren).inside = k + 1 + paren.toNat := by
  induction k generalizing paren with
  | zero => cases paren <;> rfl
  | succ k ih =>
    have hinner := ih true
    cases paren <;> simp [tower, isOne, trimIn, trimIn.enclosed, inside, hinner]; omega

theorem unplaced_tower (k : Nat) (paren : Bool) :
    ((tower k).treeIn paren).unplaced = (tower k).treeIn paren := by
  induction k generalizing paren with
  | zero => rfl
  | succ k ih =>
    simp only [tower, treeIn, Expr.unplaced, ih]
    rfl

theorem continuesRun_tower (k : Nat) (kind : TokenKind) :
    ((tower k).treeIn true).continuesRun kind = false := by
  cases k <;> rfl

/-- A storey is two levels high. -/
theorem visits_storey {k n : Nat} {limit : Int} {depth : Nat} {v : Expr}
    (hle : (depth + 1 : Int) ≤ limit) (h : Visits limit (depth + 2) ((tower k).treeIn true) n v)
    (paren : Bool) : Visits limit depth ((tower (k + 1)).treeIn paren) n v := by
  have hrun : Visits limit (depth + 1) (.binary (.bare .and (ascii "and")) ((tower k).treeIn true)
      ((isOne (ascii "b")).treeIn false) false) n v := by
    refine .left (by omega) rfl ?_
    rwa [continuesRun_tower]
  exact .left (by omega) rfl hrun

/-- Every level of a tower is visited, as far as the limit allows. -/
theorem exists_visits_tower {k n : Nat} (hn : n ≤ 2 * k) {limit : Int} (depth : Nat)
    (hlimit : 0 < n → (depth + n : Int) ≤ limit + 1) (paren : Bool) :
    ∃ v, Visits limit depth ((tower k).treeIn paren) (depth + n) v := by
  induction k generalizing n depth paren with
  | zero =>
    obtain rfl : n = 0 := by omega
    exact ⟨_, .here _ _⟩
  | succ k ih =>
    match n with
    | 0 => exact ⟨_, .here _ _⟩
    | 1 => exact ⟨_, .left (by omega) rfl (.here _ _)⟩
    | n + 2 =>
      have hinner : ∃ v, Visits limit (depth + 2) ((tower k).treeIn true) (depth + 2 + n) v :=
        ih (by omega) _ (by omega) true
      obtain ⟨v, hv⟩ := hinner
      rw [show depth + (n + 2) = depth + 2 + n by omega]
      exact ⟨v, visits_storey (by omega) hv paren⟩

theorem filterAt_isOne {field : Bytes} (h : isValidIdentity field = true) {limit : Int}
    {depth : Nat} (hle : (depth : Int) ≤ limit) (paren : Bool) :
    ∃ filter, ((isOne field).treeIn paren).filterAt limit depth = .ok filter := by
  refine ⟨.term field (.number (ascii "1")), Expr.filterAt_binary_eq_ok.2 ⟨hle, .inl ?_⟩⟩
  exact ⟨field, rfl, if_pos h, rfl⟩

theorem filterAt_tower {k : Nat} {limit : Int} (depth : Nat)
    (hlimit : (depth + 2 * k : Int) ≤ limit) (paren : Bool) :
    ∃ filter, ((tower k).treeIn paren).filterAt limit depth = .ok filter := by
  induction k generalizing depth paren with
  | zero => exact filterAt_isOne (by decide) (by omega) paren
  | succ k ih =>
    obtain ⟨inner, hinner⟩ : ∃ filter, ((tower k).treeIn true).filterAt limit (depth + 2) =
        .ok filter := ih _ (by omega) true
    obtain ⟨b, hb⟩ : ∃ filter, ((isOne (ascii "b")).treeIn false).filterAt limit (depth + 2) =
        .ok filter := filterAt_isOne (by decide) (by omega) false
    obtain ⟨c, hc⟩ : ∃ filter, ((isOne (ascii "c")).treeIn false).filterAt limit (depth + 1) =
        .ok filter := filterAt_isOne (by decide) (by omega) false
    have hrun : Expr.filterAt limit (depth + 1) (.binary (.bare .and (ascii "and"))
        ((tower k).treeIn true) ((isOne (ascii "b")).treeIn false) false) =
        .ok (.list .must [inner, b]) := by
      refine Expr.filterAt_binary_eq_ok.2 ⟨by omega, .inr ⟨rfl, .must, inner, b, rfl, ?_, hb, rfl⟩⟩
      rwa [continuesRun_tower]
    exact ⟨_, Expr.filterAt_binary_eq_ok.2
      ⟨by omega, .inr ⟨rfl, .should, _, c, rfl, hrun, hc, rfl⟩⟩⟩

end Phrase

theorem render_tower (k : Nat) : (Phrase.tower k).tree.render = tower k := by
  rw [Expr.render, Phrase.tree, Phrase.write_tower, if_neg (by decide), List.append_nil]

/-- A tower parses within a limit that leaves two levels above its height. -/
theorem exists_parse_tower (k : Nat) (limit : Int) :
    (∃ e, parse limit (tower k) = .ok e) ↔ (k + 2 : Int) ≤ limit := by
  have hiff := ((Phrase.derives_tower k).parse_render_iff (Phrase.isSpelled_tower k) limit).2
  rw [render_tower, Phrase.nesting, Phrase.inside_trimIn_tower] at hiff
  rw [hiff, Bool.toNat_false]
  omega

theorem unplaced_of_parse_tower {k : Nat} {limit : Int} {e : Expr}
    (h : parse limit (tower k) = .ok e) : e.unplaced = (Phrase.tower k).tree := by
  have hplace := ((Phrase.derives_tower k).parse_render_iff (Phrase.isSpelled_tower k) limit).1 e
  rw [render_tower] at hplace
  rw [hplace h, Phrase.tree, Phrase.unplaced_tower]

section Tower

variable {k : Nat} {limit : Int} {e : Expr} (hparse : parse limit (tower k) = .ok e)
include hparse

theorem exists_visits_of_parse_tower {n : Nat} (hn : n ≤ 2 * k) {filterLimit : Int}
    (hlimit : 0 < n → (n : Int) ≤ filterLimit + 1) : ∃ v, Visits filterLimit 0 e n v := by
  obtain ⟨v, hv⟩ := Phrase.exists_visits_tower hn 0 (by simpa using hlimit) false
  rw [← Phrase.tree, ← unplaced_of_parse_tower hparse, Nat.zero_add] at hv
  exact hv.of_unplaced

theorem exists_query_of_parse_tower {filterLimit : Int} (h : 2 * k ≤ filterLimit) :
    ∃ query, generate filterLimit (some e) = .ok query := by
  obtain ⟨filter, hfilter⟩ := Phrase.filterAt_tower 0 (by simpa using h) false
  rw [← Phrase.tree, ← unplaced_of_parse_tower hparse, Expr.filterAt_unplaced] at hfilter
  exact ⟨.ofFilter filter, by rw [generate, hfilter, Except.map]⟩

theorem exists_tooDeep_of_parse_tower {filterLimit : Int} (h : filterLimit < 2 * k) :
    ∃ doc, generate filterLimit (some e) = .error ⟨doc, .tooDeep filterLimit⟩ := by
  -- The first level below the limit is visited, and the levels above it do not fail.
  have hbelow : ∃ v, Visits filterLimit 0 e (filterLimit + 1).toNat v :=
    exists_visits_of_parse_tower hparse (by omega) (by omega)
  obtain ⟨v, hv⟩ := hbelow
  obtain ⟨doc, hdoc⟩ := hv.exists_tooDeep (by omega)
  exact ⟨doc, generate_eq_error.2 hdoc⟩

end Tower

/-- **The two limits on depth.** A filter fails on depth just when something is visited below its
limit. What parses within a limit is not visited below twice that limit, so its filter does not fail
on depth within twice that limit. Towers need the factor two: a tower of height `k` parses from the
limit `k + 2` on, and it is visited at the depth `2 * k`. So if both limits are the same and at
least five, some text that parses and has a filter fails on depth. -/
theorem visits_le_twice_limit :
    (∀ (limit : Int) (e : Expr),
      (∃ doc, generate limit (some e) = .error ⟨doc, .tooDeep limit⟩) ↔
        ∃ n v, Visits limit 0 e n v ∧ limit < n) ∧
    (∀ limit input e, parse limit input = .ok e → ∀ filterLimit,
      (∀ n v, Visits filterLimit 0 e n v → (n : Int) ≤ 2 * limit) ∧
      (2 * limit ≤ filterLimit →
        ∀ doc bound, generate filterLimit (some e) ≠ .error ⟨doc, .tooDeep bound⟩)) ∧
    (∀ k ≥ 1, ∀ limit : Int,
      ((∃ e, parse limit (tower k) = .ok e) ↔ (k + 2 : Int) ≤ limit) ∧
      ∀ e, parse limit (tower k) = .ok e → ∀ filterLimit : Int,
        (2 * k ≤ filterLimit + 1 → ∃ v, Visits filterLimit 0 e (2 * k) v) ∧
        (2 * k ≤ filterLimit → ∃ query, generate filterLimit (some e) = .ok query) ∧
        (filterLimit < 2 * k → ∃ doc,
          generate filterLimit (some e) = .error ⟨doc, .tooDeep filterLimit⟩)) ∧
    ∀ limit : Int, 5 ≤ limit → ∃ k e, parse limit (tower k) = .ok e ∧
      (∃ filterLimit query, generate filterLimit (some e) = .ok query) ∧
      ∃ doc, generate limit (some e) = .error ⟨doc, .tooDeep limit⟩ := by
  refine ⟨fun limit e => ?_,
    fun limit input e hparse filterLimit => ⟨fun n v hv => hv.le_of_parse hparse, ?_⟩,
    fun k _ limit => ⟨exists_parse_tower k limit, fun e hparse filterLimit => ⟨fun h => ?_,
      exists_query_of_parse_tower hparse, exists_tooDeep_of_parse_tower hparse⟩⟩,
    fun limit hlimit => ?_⟩
  · simp only [generate_eq_error, exists_tooDeep_iff]
  · intro hle doc bound hgenerate
    obtain ⟨n, v, hv, hlt⟩ := e.exists_visits_of_tooDeep (generate_eq_error.1 hgenerate)
    have := hv.le_of_parse hparse
    omega
  · exact exists_visits_of_parse_tower hparse le_rfl (by omega)
  · obtain ⟨e, hparse⟩ := (exists_parse_tower (limit - 2).toNat limit).2 (by omega)
    exact ⟨_, e, hparse, ⟨_, exists_query_of_parse_tower hparse (Int.le_refl _)⟩,
      exists_tooDeep_of_parse_tower hparse (by omega)⟩

end FilterQuery
