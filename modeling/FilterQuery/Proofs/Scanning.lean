import FilterQuery.Lexer
import Mathlib.Data.List.TakeWhile

/-!
# What the rules match

A match takes a piece off the front of the text, and never an empty one. The rule that wins at a
place also fixes what the piece looks like: an operator is its keyword, a number is a numeral, an
identity is a field path that does not begin with a keyword of its own, and a string holds no
quote.

**Back and forth.** `spelled_of_firstMatch` reads the shape of a token off the rule that won.
`firstMatch_lexeme` goes the other way: a well-spelled token in front of a text that cannot extend
it is matched again, whatever rules stand before its own.
-/

namespace FilterQuery

/-! ## Pieces of text -/

theorem Bytes.after?_eq_some {lead text rest : Bytes} :
    Bytes.after? lead text = some rest ↔ text = lead ++ rest := by
  induction lead generalizing text with
  | nil => simp [Bytes.after?, eq_comm]
  | cons a lead ih =>
    cases text with
    | nil => simp [Bytes.after?]
    | cons b text =>
      by_cases hab : a = b
      · subst hab
        simp [Bytes.after?, ih]
      · simp [Bytes.after?, hab, Ne.symm hab]

/-- A run of bytes of a class, in front of a text that does not begin with one, is the whole run. -/
theorem span_append {p : UInt8 → Bool} {run rest : Bytes} (hrun : ∀ b ∈ run, p b = true)
    (hrest : ∀ b ∈ rest.head?, p b = false) :
    (run ++ rest).takeWhile p = run ∧ (run ++ rest).dropWhile p = rest := by
  rw [List.takeWhile_append_of_pos hrun, List.dropWhile_append_of_pos hrun]
  cases rest with
  | nil => simp
  | cons b rest => simp [hrest b rfl]

theorem not_head?_dropWhile {p : UInt8 → Bool} {text : Bytes} {b : UInt8}
    (h : b ∈ (text.dropWhile p).head?) : p b = false := by
  have := List.head?_dropWhile_not p text
  rw [Option.mem_def.1 h] at this
  simpa using this

/-! ## The rules, spelled out -/

theorem filterDialect_eq : filterDialect = [
    ⟨.leftParen, .literal [0x28] false, .emit⟩,
    ⟨.rightParen, .literal [0x29] false, .emit⟩,
    ⟨.comma, .literal [0x2C] false, .emit⟩,
    ⟨.equal, .literal [0x3D, 0x3D] false, .emit⟩,
    ⟨.notEqual, .literal [0x21, 0x3D] false, .emit⟩,
    ⟨.greaterEqual, .literal [0x3E, 0x3D] false, .emit⟩,
    ⟨.lessEqual, .literal [0x3C, 0x3D] false, .emit⟩,
    ⟨.regexNotMatch, .literal [0x7E, 0x21, 0x3D] false, .emit⟩,
    ⟨.regexMatch, .literal [0x7E, 0x3D] false, .emit⟩,
    ⟨.less, .literal [0x3C] false, .emit⟩,
    ⟨.greater, .literal [0x3E] false, .emit⟩,
    ⟨.question, .literal [0x3F] false, .emit⟩,
    ⟨.colon, .literal [0x3A] false, .emit⟩,
    ⟨.and, .literal [0x61, 0x6E, 0x64] true, .emit⟩,
    ⟨.or, .literal [0x6F, 0x72] true, .emit⟩,
    ⟨.not, .literal [0x6E, 0x6F, 0x74] true, .emit⟩,
    ⟨.isIn, .literal [0x69, 0x6E] true, .emit⟩,
    ⟨.other 0, .scan .blank, .skip⟩,
    ⟨.number, .scan .number, .emit⟩,
    ⟨.identity, .scan .identity, .emit⟩,
    ⟨.string, .scan .string, .unquote⟩,
    ⟨.minus, .literal [0x2D] false, .emit⟩] := by decide

/-- The words that are tokens of their own. -/
def reservedWords : List Bytes := [ascii "and", ascii "or", ascii "not", ascii "in"]

/-- The kinds whose tokens are all spelled alike, by the keyword of the kind. -/
def TokenKind.isFixed : TokenKind → Bool
  | .eof | .error | .identity | .string | .number | .other _ => false
  | _ => true

/-- Every rule compares with the keyword of its kind, or scans one of the four classes. -/
theorem mem_filterDialect {r : Rule} (h : r ∈ filterDialect) :
    (∃ wholeWord, r = ⟨r.kind, .literal r.kind.keyword wholeWord, .emit⟩ ∧ r.kind.isFixed = true) ∨
      r = ⟨.other 0, .scan .blank, .skip⟩ ∨ r = ⟨.number, .scan .number, .emit⟩ ∨
      r = ⟨.identity, .scan .identity, .emit⟩ ∨ r = ⟨.string, .scan .string, .unquote⟩ := by
  revert r
  rw [filterDialect_eq]
  decide

theorem keyword_ne_nil (kind : TokenKind) : kind.keyword ≠ [] := by
  cases kind <;> simp [TokenKind.keyword, ascii]

/-! ## A match is a piece of the text -/

namespace Scan

theorem splitBlank_eq_some {text lexeme rest : Bytes}
    (h : splitBlank text = some (lexeme, rest)) : text = lexeme ++ rest ∧ lexeme ≠ [] := by
  simp only [splitBlank] at h
  split at h
  · cases h
  · next n hn =>
    cases h
    refine ⟨(List.take_append_drop ..).symm, fun hnil => ?_⟩
    rw [List.take_eq_nil_iff] at hnil
    rcases hnil with hnil | rfl
    · cases hnil
    · cases hn

theorem splitFraction_append (text : Bytes) :
    (splitFraction text).1 ++ (splitFraction text).2 = text := by
  cases text with
  | nil => rfl
  | cons b rest =>
    simp only [splitFraction]
    split <;> simp

theorem splitNumber_eq_some {text lexeme rest : Bytes}
    (h : splitNumber text = some (lexeme, rest)) : text = lexeme ++ rest ∧ lexeme ≠ [] := by
  have happ := splitFraction_append (text.dropWhile isDigit)
  simp only [splitNumber] at h
  split at h
  · cases h
  · next hcond =>
    cases h
    simp only [Bool.or_eq_true, List.isEmpty_iff, not_or] at hcond
    refine ⟨?_, by simp [hcond.1]⟩
    rw [List.append_assoc, happ, List.takeWhile_append_dropWhile]

theorem splitIdentity_eq_some {text lexeme rest : Bytes}
    (h : splitIdentity text = some (lexeme, rest)) : text = lexeme ++ rest ∧ lexeme ≠ [] := by
  cases text with
  | nil => cases h
  | cons b text =>
    simp only [splitIdentity] at h
    split at h
    · cases h
      simp
    · cases h

/-- A quoted string is two quotes around a text without quotes. -/
theorem splitString_eq_some {text lexeme rest : Bytes} :
    splitString text = some (lexeme, rest) ↔
      ∃ inner : Bytes, 0x22 ∉ inner ∧ lexeme = 0x22 :: inner ++ [0x22] ∧ text = lexeme ++ rest := by
  constructor
  · intro h
    cases text with
    | nil => cases h
    | cons b text =>
      simp only [splitString, beq_iff_eq] at h
      split at h
      · next hb =>
        subst hb
        split at h
        · cases h
        · next q tail hdrop =>
          cases h
          have hhead : q ∈ (text.dropWhile (· != 0x22)).head? := by rw [hdrop]; rfl
          have hq : q = 0x22 := by simpa using not_head?_dropWhile hhead
          refine ⟨text.takeWhile (· != 0x22), fun hmem => ?_, by rw [hq], ?_⟩
          · simpa using List.mem_takeWhile_imp hmem
          · rw [List.append_assoc]
            simp only [List.cons_append, List.nil_append]
            rw [← hdrop, List.takeWhile_append_dropWhile]
      · cases h
  · rintro ⟨inner, hinner, rfl, rfl⟩
    have hrun : ∀ b ∈ inner, (b != 0x22) = true := by
      intro b hb
      simp only [bne_iff_ne, ne_eq]
      rintro rfl
      exact hinner hb
    have hrest : ∀ b ∈ (0x22 :: rest).head?, (b != 0x22) = false := by simp
    obtain ⟨htake, hdrop⟩ := span_append hrun hrest
    simp [splitString, htake, hdrop]

theorem split_eq_some {kind : Scan} {text lexeme rest : Bytes}
    (h : kind.split text = some (lexeme, rest)) : text = lexeme ++ rest ∧ lexeme ≠ [] := by
  cases kind with
  | blank => exact splitBlank_eq_some h
  | number => exact splitNumber_eq_some h
  | identity => exact splitIdentity_eq_some h
  | string =>
    obtain ⟨inner, -, rfl, rfl⟩ := splitString_eq_some.1 h
    simp

end Scan

theorem Pattern.literal_split_eq_some {lead text lexeme rest : Bytes} {wholeWord : Bool} :
    (Pattern.literal lead wholeWord).split text = some (lexeme, rest) ↔
      lexeme = lead ∧ text = lead ++ rest ∧ (wholeWord = true → startsWithWord rest = false) := by
  simp only [Pattern.split]
  cases hafter : Bytes.after? lead text with
  | none =>
    have hne : text ≠ lead ++ rest := fun heq => by
      rw [Bytes.after?_eq_some.2 heq] at hafter
      cases hafter
    simp [hne]
  | some tail =>
    rw [Bytes.after?_eq_some] at hafter
    subst hafter
    simp only [List.append_cancel_left_eq]
    by_cases hblock : (wholeWord && startsWithWord tail) = true
    · rw [if_pos hblock]
      grind
    · rw [if_neg hblock]
      grind

namespace Rule

theorem firstMatch_eq_none {rules : List Rule} {text : Bytes} :
    firstMatch rules text = none ↔ ∀ q ∈ rules, q.pattern.split text = none := by
  induction rules with
  | nil => simp [firstMatch]
  | cons q rules ih =>
    simp only [firstMatch, List.forall_mem_cons]
    cases q.pattern.split text <;> simp [ih]

theorem firstMatch_append (first second : List Rule) (text : Bytes) :
    firstMatch (first ++ second) text = (firstMatch first text).or (firstMatch second text) := by
  induction first with
  | nil => rfl
  | cons q rules ih =>
    simp only [List.cons_append, firstMatch]
    cases q.pattern.split text with
    | some found => rfl
    | none => exact ih

theorem mem_of_firstMatch {rules : List Rule} {text : Bytes} {r : Rule} {lexeme rest : Bytes}
    (h : firstMatch rules text = some (r, lexeme, rest)) :
    r ∈ rules ∧ r.pattern.split text = some (lexeme, rest) := by
  induction rules with
  | nil => cases h
  | cons q rules ih =>
    simp only [firstMatch] at h
    cases hq : q.pattern.split text with
    | some found =>
      rw [hq] at h
      cases h
      exact ⟨List.mem_cons_self, hq⟩
    | none =>
      rw [hq] at h
      exact ⟨List.mem_cons_of_mem _ (ih h).1, (ih h).2⟩

/-- A rule that wins is not preceded by a rule that matches. -/
theorem failed_before {rules : List Rule} {text : Bytes} {r : Rule} {lexeme rest : Bytes} (n : Nat)
    (h : firstMatch rules text = some (r, lexeme, rest)) (hr : r ∉ rules.take n) :
    ∀ q ∈ rules.take n, q.pattern.split text = none := by
  rw [← firstMatch_eq_none]
  cases hfirst : firstMatch (rules.take n) text with
  | none => rfl
  | some found =>
    rw [← List.take_append_drop n rules, firstMatch_append, hfirst] at h
    cases h
    exact absurd (mem_of_firstMatch hfirst).1 hr

/-- A rule that matches wins if the rules before it fail. -/
theorem firstMatch_of_failed {rules : List Rule} {text : Bytes} (n : Nat)
    (h : ∀ q ∈ rules.take n, q.pattern.split text = none) :
    firstMatch rules text = firstMatch (rules.drop n) text := by
  rw [← firstMatch_eq_none] at h
  conv => lhs; rw [← List.take_append_drop n rules, firstMatch_append, h]
  rfl

/-- The text of the token that a rule makes of its lexeme. -/
def value (r : Rule) (lexeme : Bytes) : Bytes :=
  match r.action with
  | .unquote => (lexeme.drop 1).dropLast
  | _ => lexeme

end Rule

/-- **A match of the filter language takes a non-empty piece off the text.** -/
theorem split_of_mem {text : Bytes} {r : Rule} {lexeme rest : Bytes} (h : r ∈ filterDialect)
    (hr : r.pattern.split text = some (lexeme, rest)) : text = lexeme ++ rest ∧ lexeme ≠ [] := by
  rcases mem_filterDialect h with ⟨wholeWord, hpat, -⟩ | rfl | rfl | rfl | rfl
  · rw [hpat, Pattern.literal_split_eq_some] at hr
    obtain ⟨rfl, rfl, -⟩ := hr
    exact ⟨rfl, keyword_ne_nil _⟩
  all_goals
    simp only [Pattern.split] at hr
    exact Scan.split_eq_some hr

theorem firstMatch_split {text : Bytes} {r : Rule} {lexeme rest : Bytes}
    (h : Rule.firstMatch filterDialect text = some (r, lexeme, rest)) :
    text = lexeme ++ rest ∧ lexeme ≠ [] :=
  split_of_mem (Rule.mem_of_firstMatch h).1 (Rule.mem_of_firstMatch h).2

/-! ## Well-spelled tokens -/

/-- The texts of number tokens. -/
inductive Numeral : Bytes → Prop
  | integer {whole : Bytes} : whole ≠ [] → (∀ b ∈ whole, isDigit b = true) → Numeral whole
  | decimal {whole fraction : Bytes} : whole ≠ [] → (∀ b ∈ whole, isDigit b = true) →
      fraction ≠ [] → (∀ b ∈ fraction, isDigit b = true) → Numeral (whole ++ 0x2E :: fraction)

/-- No keyword stands at the beginning as a word of its own. -/
def Unreserved (text : Bytes) : Prop :=
  ∀ word ∈ reservedWords, ∀ rest, text = word ++ rest → startsWithWord rest = true

/-- The texts that tokens of a kind can have. -/
def Spelled : TokenKind → Bytes → Prop
  | .number, text => Numeral text
  | .identity, text => isValidIdentity text = true ∧ Unreserved text
  | .string, text => 0x22 ∉ text
  | kind, text => kind.isFixed = true ∧ text = kind.keyword

/-- The piece of text that a token is read from. -/
def lexeme : TokenKind → Bytes → Bytes
  | .string, text => 0x22 :: text ++ [0x22]
  | _, text => text

theorem spelled_fixed {kind : TokenKind} (h : kind.isFixed = true) {text : Bytes} :
    Spelled kind text ↔ text = kind.keyword := by
  cases kind <;> simp_all [Spelled, TokenKind.isFixed]

theorem lexeme_fixed {kind : TokenKind} (h : kind.isFixed = true) (text : Bytes) :
    lexeme kind text = text := by
  cases kind with
  | string => cases h
  | _ => rfl

namespace Scan

theorem splitFraction_fst (text : Bytes) :
    (splitFraction text).1 = [] ∨
      ∃ fraction, fraction ≠ [] ∧ (∀ b ∈ fraction, isDigit b = true) ∧
        (splitFraction text).1 = 0x2E :: fraction := by
  cases text with
  | nil => exact .inl rfl
  | cons b rest =>
    simp only [splitFraction, Bool.and_eq_true, beq_iff_eq, Bool.not_eq_true']
    split
    · next hcond =>
      refine .inr ⟨rest.takeWhile isDigit, ?_, fun b hb => List.mem_takeWhile_imp hb, ?_⟩
      · simpa using hcond.2
      · rw [hcond.1]
    · exact .inl rfl

theorem numeral_of_splitNumber {text lexeme rest : Bytes}
    (h : splitNumber text = some (lexeme, rest)) : Numeral lexeme := by
  simp only [splitNumber] at h
  split at h
  · cases h
  · next hcond =>
    cases h
    simp only [Bool.or_eq_true, List.isEmpty_iff, not_or] at hcond
    rcases splitFraction_fst (text.dropWhile isDigit) with hnone | ⟨fraction, hne, hdigits, hfrac⟩
    · rw [hnone, List.append_nil]
      exact .integer hcond.1 fun b hb => List.mem_takeWhile_imp hb
    · rw [hfrac]
      exact .decimal hcond.1 (fun b hb => List.mem_takeWhile_imp hb) hne hdigits

theorem valid_of_splitIdentity {text lexeme rest : Bytes}
    (h : splitIdentity text = some (lexeme, rest)) :
    isValidIdentity lexeme = true ∧ ∀ b ∈ rest.head?, isIdentityByte b = false := by
  cases text with
  | nil => cases h
  | cons b text =>
    simp only [splitIdentity] at h
    split at h
    · next hb =>
      cases h
      refine ⟨?_, fun c hc => not_head?_dropWhile hc⟩
      simp only [isValidIdentity, hb, Bool.true_and, List.all_eq_true]
      exact fun c hc => List.mem_takeWhile_imp hc
    · cases h

end Scan

theorem startsWithWord_append {text rest : Bytes} (hrest : ∀ b ∈ rest.head?, isWordByte b = false) :
    startsWithWord (text ++ rest) = startsWithWord text := by
  cases text with
  | cons b text => rfl
  | nil =>
    cases rest with
    | nil => rfl
    | cons b rest => exact hrest b rfl

theorem not_word_of_not_identity {b : UInt8} (h : isIdentityByte b = false) :
    isWordByte b = false := by
  simp only [isIdentityByte, Bool.or_eq_false_iff] at h
  exact h.1

theorem exists_wordRule {word : Bytes} (h : word ∈ reservedWords) :
    ∃ q ∈ filterDialect.take 17, q.pattern = .literal word true := by
  revert word
  decide

/-- **The rule that wins fixes the shape of the token.** -/
theorem spelled_of_firstMatch {text : Bytes} {r : Rule} {found rest : Bytes}
    (h : Rule.firstMatch filterDialect text = some (r, found, rest)) (hskip : r.action ≠ .skip) :
    Spelled r.kind (r.value found) ∧ found = lexeme r.kind (r.value found) := by
  obtain ⟨hmem, hr⟩ := Rule.mem_of_firstMatch h
  rcases mem_filterDialect hmem with ⟨wholeWord, hpat, hfixed⟩ | rfl | rfl | rfl | rfl
  · rw [hpat, Pattern.literal_split_eq_some] at hr
    have hvalue : r.value found = found := by rw [hpat]; rfl
    rw [hvalue, spelled_fixed hfixed]
    exact ⟨hr.1, (lexeme_fixed hfixed found).symm⟩
  · exact absurd rfl hskip
  · exact ⟨Scan.numeral_of_splitNumber hr, rfl⟩
  · obtain ⟨hvalid, hend⟩ := Scan.valid_of_splitIdentity hr
    refine ⟨⟨hvalid, fun word hword more hmore => ?_⟩, rfl⟩
    -- The keyword's own rule stands before the rule of identities, so it has failed here.
    have hfails := Rule.failed_before 17 h (by decide)
    obtain ⟨q, hq, hpattern⟩ := exists_wordRule hword
    have hnone := hfails q hq
    rw [hpattern] at hnone
    by_contra hmoreWord
    have hsplit : (Pattern.literal word true).split text = some (word, more ++ rest) := by
      rw [Pattern.literal_split_eq_some]
      refine ⟨rfl, ?_, fun _ => ?_⟩
      · rw [(Scan.splitIdentity_eq_some hr).1, ← List.append_assoc]
        exact congrArg (· ++ rest) hmore
      · rw [startsWithWord_append fun b hb => not_word_of_not_identity (hend b hb)]
        simpa using hmoreWord
    rw [hsplit] at hnone
    cases hnone
  · obtain ⟨inner, hinner, hfound, -⟩ := Scan.splitString_eq_some.1 hr
    have hvalue : ((0x22 :: inner ++ [0x22] : Bytes).drop 1).dropLast = inner := by simp
    subst hfound
    simp only [Rule.value, hvalue]
    exact ⟨hinner, rfl⟩

/-- What is unquoted has two quotes. -/
theorem two_le_of_unquote {text : Bytes} {r : Rule} {found rest : Bytes}
    (h : Rule.firstMatch filterDialect text = some (r, found, rest)) (hr : r.action = .unquote) :
    2 ≤ found.length := by
  obtain ⟨hmem, hsplit⟩ := Rule.mem_of_firstMatch h
  rcases mem_filterDialect hmem with ⟨wholeWord, hpat, -⟩ | rfl | rfl | rfl | rfl
  · rw [hpat] at hr
    cases hr
  · cases hr
  · cases hr
  · cases hr
  · obtain ⟨inner, -, rfl, -⟩ := Scan.splitString_eq_some.1 hsplit
    simp

/-! ## Matching a token again -/

/-- Whether the text starts with a point and a digit. -/
def startsWithFraction : Bytes → Bool
  | b :: d :: _ => b == 0x2E && isDigit d
  | _ => false

/-- What follows a token is no part of it: a number or a keyword is not followed by a word byte, nor
a whole number by a fraction, nor an identity by a byte that continues it, nor `<` or `>` by `=`. -/
def Apart : TokenKind → (text rest : Bytes) → Prop
  | .number, text, rest =>
    startsWithWord rest = false ∧ (startsWithFraction rest = true → 0x2E ∈ text)
  | .identity, _, rest => ∀ b ∈ rest.head?, isIdentityByte b = false
  | .and, _, rest | .or, _, rest | .not, _, rest | .isIn, _, rest => startsWithWord rest = false
  | .less, _, rest | .greater, _, rest => ∀ b ∈ rest.head?, b ≠ 0x3D
  | _, _, _ => True

theorem Pattern.literal_split_of_ne {a b : UInt8} {lead text : Bytes} {wholeWord : Bool}
    (h : a ≠ b) : (Pattern.literal (a :: lead) wholeWord).split (b :: text) = none := by
  simp [Pattern.split, Bytes.after?, h]

theorem identityByte_ascii {b : UInt8} (h : isIdentityByte b = true) :
    b < 0x80 ∧ Blank.isBlank b.toNat = false := by
  simp only [isIdentityByte, isWordByte, isLetter, isDigit, Blank.isBlank, UInt8.le_iff_toNat_le,
    UInt8.lt_iff_toNat_lt, Bool.or_eq_true, Bool.and_eq_true, decide_eq_true_eq, beq_iff_eq,
    ← UInt8.toNat_inj] at h ⊢
  simp at *
  omega

theorem Scan.splitBlank_of_not_blank {b : UInt8} {text : Bytes} (hascii : b < 0x80)
    (h : Blank.isBlank b.toNat = false) : Scan.splitBlank (b :: text) = none := by
  simp [Scan.splitBlank, Blank.run, Blank.runFrom, Blank.width, Utf8.first?, hascii, h]

/-- No rule of a sign begins like a word or a number. -/
theorem signs_fail {b : UInt8} {text : Bytes} (h : isIdentityByte b = true) :
    ∀ q ∈ filterDialect.take 13, q.pattern.split (b :: text) = none := by
  have hne : ∀ a : UInt8, isIdentityByte a = false → a ≠ b := by
    rintro a ha rfl
    rw [h] at ha
    cases ha
  rw [filterDialect_eq]
  simp only [List.take, List.forall_mem_cons, List.not_mem_nil, false_implies, implies_true,
    and_true]
  refine ⟨?_, ?_, ?_, ?_, ?_, ?_, ?_, ?_, ?_, ?_, ?_, ?_, ?_⟩ <;>
    exact Pattern.literal_split_of_ne (hne _ (by decide))

theorem not_word_head {rest : Bytes} (h : startsWithWord rest = false) :
    ∀ b ∈ rest.head?, isWordByte b = false := by
  intro b hb
  cases rest with
  | nil => cases hb
  | cons c rest =>
    cases hb
    exact h

theorem not_digit_of_not_word {b : UInt8} (h : isWordByte b = false) : isDigit b = false := by
  simp only [isWordByte, Bool.or_eq_false_iff] at h
  exact h.1.2

/-- A point is left alone unless a digit follows it. -/
theorem Scan.splitFraction_eq_nil {rest : Bytes} :
    Scan.splitFraction rest = ([], rest) ↔ startsWithFraction rest = false := by
  rcases rest with _ | ⟨b, _ | ⟨d, rest⟩⟩
  · simp [Scan.splitFraction, startsWithFraction]
  · simp [Scan.splitFraction, startsWithFraction]
  · by_cases hd : isDigit d = true
    · by_cases hb : b = 0x2E <;> simp [Scan.splitFraction, startsWithFraction, hb, hd]
    · simp [Scan.splitFraction, startsWithFraction, hd]

theorem Scan.splitNumber_numeral {text tail : Bytes} (h : Numeral text)
    (htail : Apart .number text tail) : Scan.splitNumber (text ++ tail) = some (text, tail) := by
  obtain ⟨hword, hpoint⟩ := htail
  have hdigit : ∀ b ∈ tail.head?, isDigit b = false :=
    fun b hb => not_digit_of_not_word (not_word_head hword b hb)
  cases h with
  | integer hne hwhole =>
    obtain ⟨htake, hdrop⟩ := span_append hwhole hdigit
    have hfrac : Scan.splitFraction tail = ([], tail) := by
      rw [Scan.splitFraction_eq_nil]
      by_contra hstarts
      have hdot := hwhole 0x2E (hpoint (by simpa using hstarts))
      exact absurd hdot (by decide)
    simp [Scan.splitNumber, htake, hdrop, hfrac, hword, hne]
  | @decimal whole fraction hne hwhole hfne hfraction =>
    have hdot : ∀ b ∈ (0x2E :: (fraction ++ tail)).head?, isDigit b = false := by simp; decide
    obtain ⟨htake, hdrop⟩ := span_append hwhole hdot
    obtain ⟨hftake, hfdrop⟩ := span_append hfraction hdigit
    have hfrac : Scan.splitFraction (0x2E :: (fraction ++ tail)) = (0x2E :: fraction, tail) := by
      simp only [Scan.splitFraction, hftake, hfdrop]
      simp [hfne]
    simp [Scan.splitNumber, htake, hdrop, hfrac, hword, hne]

theorem Numeral.cons {text : Bytes} (h : Numeral text) :
    ∃ b rest, text = b :: rest ∧ isDigit b = true := by
  cases h with
  | integer hne hwhole =>
    obtain ⟨b, rest, rfl⟩ := List.exists_cons_of_ne_nil hne
    exact ⟨b, rest, rfl, hwhole b List.mem_cons_self⟩
  | decimal hne hwhole _ _ =>
    obtain ⟨b, rest, rfl⟩ := List.exists_cons_of_ne_nil hne
    exact ⟨b, _, rfl, hwhole b List.mem_cons_self⟩

theorem firstMatch_number {text tail : Bytes} (h : Numeral text)
    (htail : Apart .number text tail) :
    Rule.firstMatch filterDialect (text ++ tail) =
      some (⟨.number, .scan .number, .emit⟩, text, tail) := by
  have hsplit := Scan.splitNumber_numeral h htail
  obtain ⟨b, rest, rfl, hb⟩ := h.cons
  have hid : isIdentityByte b = true := by simp [isIdentityByte, isWordByte, hb]
  obtain ⟨hascii, hblank⟩ := identityByte_ascii hid
  have hne : ∀ a : UInt8, isDigit a = false → a ≠ b := fun a ha => (ne_of_isDigit hb ha).symm
  rw [List.cons_append] at hsplit ⊢
  rw [Rule.firstMatch_of_failed 13 (signs_fail hid), filterDialect_eq]
  simp only [List.drop, Rule.firstMatch]
  rw [Pattern.literal_split_of_ne (hne _ (by decide)),
    Pattern.literal_split_of_ne (hne _ (by decide)),
    Pattern.literal_split_of_ne (hne _ (by decide)),
    Pattern.literal_split_of_ne (hne _ (by decide))]
  simp only [Pattern.split, Scan.split, Scan.splitBlank_of_not_blank hascii hblank, hsplit]

theorem firstMatch_string {text tail : Bytes} (h : 0x22 ∉ text) :
    Rule.firstMatch filterDialect (0x22 :: text ++ [0x22] ++ tail) =
      some (⟨.string, .scan .string, .unquote⟩, 0x22 :: text ++ [0x22], tail) := by
  have hsplit : Scan.splitString (0x22 :: text ++ [0x22] ++ tail) =
      some (0x22 :: text ++ [0x22], tail) :=
    Scan.splitString_eq_some.2 ⟨text, h, rfl, rfl⟩
  have hfails : ∀ q ∈ filterDialect.take 20,
      q.pattern.split (0x22 :: text ++ [0x22] ++ tail) = none := by
    rw [filterDialect_eq]
    simp [Pattern.split, Bytes.after?, Scan.split, Scan.splitBlank, Blank.run, Blank.runFrom,
      Blank.width, Utf8.first?, Blank.isBlank, Scan.splitNumber, Scan.splitIdentity, isDigit,
      isLetter]
  rw [Rule.firstMatch_of_failed 20 hfails, filterDialect_eq]
  simp only [List.drop, Rule.firstMatch, Pattern.split, Scan.split, hsplit]

theorem Unreserved.not_mem {text : Bytes} (h : Unreserved text) : text ∉ reservedWords := by
  intro hmem
  -- Nothing follows the keyword in its own text, so nothing goes on as a word.
  have hword := h text hmem [] (List.append_nil text).symm
  cases hword

/-- A keyword does not match in front of an identity that does not begin with it. -/
theorem words_fail {text tail : Bytes} (h : Unreserved text)
    (htail : ∀ b ∈ tail.head?, isIdentityByte b = false) :
    ∀ word ∈ reservedWords, (Pattern.literal word true).split (text ++ tail) = none := by
  intro word hword
  rw [Option.eq_none_iff_forall_ne_some]
  rintro ⟨found, rest⟩ hsplit
  rw [Pattern.literal_split_eq_some] at hsplit
  obtain ⟨-, happ, hrest⟩ := hsplit
  rcases List.append_eq_append_iff.1 happ with ⟨more, hmore, htl⟩ | ⟨more, hmore, hrst⟩
  · cases more with
    | nil =>
      -- The identity is the keyword itself, and nothing is left of it to go on as a word.
      have hstart := h word hword [] (by simpa using hmore.symm)
      cases hstart
    | cons b more =>
      have hletters : reservedWords.all (·.all isIdentityByte) = true := by decide
      have hb := List.all_eq_true.1 (List.all_eq_true.1 hletters word hword) b (by rw [hmore]; simp)
      rw [htail b (by rw [htl]; rfl)] at hb
      cases hb
  · have hstart := h word hword more hmore
    cases more with
    | nil => cases hstart
    | cons b more =>
      have hfalse := hrest rfl
      rw [hrst] at hfalse
      exact absurd hstart (by rw [show startsWithWord (b :: more) = false from hfalse]; decide)

theorem firstMatch_identity {text tail : Bytes} (hvalid : isValidIdentity text = true)
    (h : Unreserved text) (htail : ∀ b ∈ tail.head?, isIdentityByte b = false) :
    Rule.firstMatch filterDialect (text ++ tail) =
      some (⟨.identity, .scan .identity, .emit⟩, text, tail) := by
  have hwords := words_fail h htail
  cases text with
  | nil => cases hvalid
  | cons b text =>
    simp only [isValidIdentity, Bool.and_eq_true, List.all_eq_true] at hvalid
    obtain ⟨hb, htext⟩ := hvalid
    have hid : isIdentityByte b = true := by simp [isIdentityByte, isWordByte, hb]
    obtain ⟨hascii, hblank⟩ := identityByte_ascii hid
    have hdigit : isDigit b = false := by
      simp only [isLetter, isDigit, UInt8.le_iff_toNat_le, Bool.or_eq_true, Bool.and_eq_true,
        decide_eq_true_eq] at hb ⊢
      simp at *
      omega
    have hfails : ∀ q ∈ filterDialect.take 17, q.pattern.split (b :: text ++ tail) = none := by
      intro q hq
      have hcases : ∀ q ∈ filterDialect.take 17, q ∈ filterDialect.take 13 ∨
          ∃ word ∈ reservedWords, q.pattern = .literal word true := by decide
      rcases hcases q hq with hsign | ⟨word, hword, hpattern⟩
      · exact signs_fail hid q hsign
      · rw [hpattern]
        exact hwords word hword
    obtain ⟨htake, hdrop⟩ := span_append htext htail
    rw [Rule.firstMatch_of_failed 17 hfails, filterDialect_eq]
    simp only [List.drop, Rule.firstMatch, Pattern.split, Scan.split, List.cons_append,
      Scan.splitBlank_of_not_blank hascii hblank]
    simp [Scan.splitNumber, Scan.splitIdentity, hdigit, hb, htake, hdrop]

theorem firstMatch_minus (tail : Bytes) :
    Rule.firstMatch filterDialect (0x2D :: tail) =
      some (⟨.minus, .literal [0x2D] false, .emit⟩, [0x2D], tail) := by
  have hfails : ∀ q ∈ filterDialect.take 21, q.pattern.split (0x2D :: tail) = none := by
    rw [filterDialect_eq]
    simp [Pattern.split, Bytes.after?, Scan.split, Scan.splitBlank, Blank.run, Blank.runFrom,
      Blank.width, Utf8.first?, Blank.isBlank, Scan.splitNumber, Scan.splitIdentity,
      Scan.splitString, isDigit, isLetter]
  rw [Rule.firstMatch_of_failed 21 hfails, filterDialect_eq]
  rfl

/-- The rule of a kind with a keyword wins in front of any text that cannot extend the keyword. -/
theorem firstMatch_fixed {kind : TokenKind} {text tail : Bytes} (h : kind.isFixed = true)
    (htail : Apart kind text tail) :
    ∃ r, Rule.firstMatch filterDialect (kind.keyword ++ tail) = some (r, kind.keyword, tail) ∧
      r.kind = kind ∧ r.action = .emit := by
  cases kind with
  | minus => exact ⟨_, firstMatch_minus tail, rfl, rfl⟩
  | eof | error | identity | string | number | other => cases h
  | and | or | not | isIn =>
    have hword : startsWithWord tail = false := htail
    simp [filterDialect_eq, TokenKind.keyword, ascii, Rule.firstMatch, Pattern.split, Bytes.after?,
      hword]
  | less | greater =>
    have hequal : Bytes.after? [0x3D] tail = none := by
      cases tail with
      | nil => rfl
      | cons b tail => simp [Bytes.after?, Ne.symm (htail b rfl)]
    simp [filterDialect_eq, TokenKind.keyword, ascii, Rule.firstMatch, Pattern.split, Bytes.after?,
      hequal]
  | _ =>
    simp [filterDialect_eq, TokenKind.keyword, ascii, Rule.firstMatch, Pattern.split, Bytes.after?]

/-- **A well-spelled token is matched again** in front of a text that is apart from it. -/
theorem firstMatch_lexeme {kind : TokenKind} {text tail : Bytes} (h : Spelled kind text)
    (htail : Apart kind text tail) :
    ∃ r, Rule.firstMatch filterDialect (lexeme kind text ++ tail) =
      some (r, lexeme kind text, tail) ∧ r.kind = kind ∧ r.action ≠ .skip ∧
      r.value (lexeme kind text) = text := by
  by_cases hfixed : kind.isFixed = true
  · rw [spelled_fixed hfixed] at h
    subst h
    obtain ⟨r, hr, hkind, haction⟩ := firstMatch_fixed hfixed htail
    rw [lexeme_fixed hfixed]
    exact ⟨r, hr, hkind, by rw [haction]; decide, by rw [Rule.value, haction]⟩
  · cases kind with
    | number => exact ⟨_, firstMatch_number h htail, rfl, by decide, rfl⟩
    | identity => exact ⟨_, firstMatch_identity h.1 h.2 htail, rfl, by decide, rfl⟩
    | string =>
      refine ⟨_, firstMatch_string h, rfl, by decide, ?_⟩
      simp [Rule.value, lexeme]
    | _ => exact absurd h.1 hfixed

/-! ## What follows a match -/

theorem Scan.apart_of_splitNumber {text lexeme rest : Bytes}
    (h : Scan.splitNumber text = some (lexeme, rest)) : Apart .number lexeme rest := by
  simp only [Scan.splitNumber] at h
  split at h
  · cases h
  · next hcond =>
    cases h
    simp only [Bool.or_eq_true, not_or, Bool.not_eq_true] at hcond
    refine ⟨hcond.2, fun hstarts => ?_⟩
    rcases Scan.splitFraction_fst (text.dropWhile isDigit) with hnone | ⟨fraction, -, -, hfrac⟩
    · -- Without a fraction in the number, what follows it is what follows the digits.
      have happ := Scan.splitFraction_append (text.dropWhile isDigit)
      rw [hnone, List.nil_append] at happ
      have hnil : Scan.splitFraction (text.dropWhile isDigit) = ([], text.dropWhile isDigit) :=
        Prod.ext hnone happ
      rw [Scan.splitFraction_eq_nil] at hnil
      rw [happ, hnil] at hstarts
      cases hstarts
    · simp [hfrac]

/-- The rule of a keyword matches whole words only. -/
theorem pattern_of_word {r : Rule} (h : r ∈ filterDialect)
    (hkind : r.kind ∈ [TokenKind.and, .or, .not, .isIn]) :
    r.pattern = .literal r.kind.keyword true := by
  revert r
  decide

/-- The rules of `<` and `>` stand behind the rules of `<=` and `>=`. -/
theorem rule_of_short {r : Rule} (h : r ∈ filterDialect)
    (hkind : r.kind ∈ [TokenKind.less, .greater]) :
    r ∉ filterDialect.take 7 ∧ ∃ b ∈ ([0x3C, 0x3E] : Bytes), r.pattern = .literal [b] false ∧
      ∃ q ∈ filterDialect.take 7, q.pattern = .literal [b, 0x3D] false := by
  revert r
  decide

theorem apart_of_word {r : Rule} {text found rest : Bytes} (h : r ∈ filterDialect)
    (hkind : r.kind ∈ [TokenKind.and, .or, .not, .isIn])
    (hr : r.pattern.split text = some (found, rest)) : startsWithWord rest = false := by
  rw [pattern_of_word h hkind, Pattern.literal_split_eq_some] at hr
  exact hr.2.2 rfl

theorem apart_of_short {r : Rule} {text found rest : Bytes}
    (h : Rule.firstMatch filterDialect text = some (r, found, rest))
    (hkind : r.kind ∈ [TokenKind.less, .greater]) : ∀ c ∈ rest.head?, c ≠ 0x3D := by
  obtain ⟨hmem, hr⟩ := Rule.mem_of_firstMatch h
  obtain ⟨hbehind, b, -, hpattern, q, hq, hlonger⟩ := rule_of_short hmem hkind
  have hfailed := Rule.failed_before 7 h hbehind q hq
  rw [hpattern, Pattern.literal_split_eq_some] at hr
  rw [hlonger, hr.2.1] at hfailed
  rintro c hc rfl
  cases rest with
  | nil => cases hc
  | cons d rest =>
    cases hc
    simp [Pattern.split, Bytes.after?] at hfailed

/-- **What follows a match is apart from it.** -/
theorem apart_of_firstMatch {text : Bytes} {r : Rule} {found rest : Bytes}
    (h : Rule.firstMatch filterDialect text = some (r, found, rest)) :
    Apart r.kind (r.value found) rest := by
  obtain ⟨hmem, hr⟩ := Rule.mem_of_firstMatch h
  rcases mem_filterDialect hmem with ⟨wholeWord, hpat, hfixed⟩ | rfl | rfl | rfl | rfl
  · cases hkind : r.kind with
    | identity | number => rw [hkind] at hfixed; cases hfixed
    | and | or | not | isIn => exact apart_of_word hmem (by rw [hkind]; decide) hr
    | less | greater => exact apart_of_short h (by rw [hkind]; decide)
    | _ => trivial
  · trivial
  · exact Scan.apart_of_splitNumber hr
  · exact (Scan.valid_of_splitIdentity hr).2
  · trivial

end FilterQuery
