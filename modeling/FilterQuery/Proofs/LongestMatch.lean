import FilterQuery.Proofs.Layout

/-!
# First match and longest match

The lexer takes the first rule that matches. Another common choice is the rule with the longest
match, and the first one of those with equally long matches.

**Theorem (`firstMatch_longest`).** At every place the first match is a longest one, except exactly
where a keyword is directly followed by a point. So a text that the lexer accepts has the same
tokens by longest matches. A text that it rejects although it has tokens by longest matches is
rejected at a point with a keyword right before it.

**Where both rules match.** Two rules match at one place only for `<` before `=`, for `>` before `=`
and for a keyword, which is an identity as well. The order of the rules settles the first two. An
identity is longer than a keyword only if it goes on with a point (`length_le_or_point`); no rule
matches at that point (`firstMatch_point`), so the lexer fails there.
-/

namespace FilterQuery

/-! ## Lexing with another choice -/

namespace Rule

/-- The rule with the longest match at the start of the text, with the match and what follows it. Of
several, the first one is taken. -/
def longestMatch : List Rule → Bytes → Option (Rule × Bytes × Bytes)
  | [], _ => none
  | r :: rules, text =>
    match r.pattern.split text, longestMatch rules text with
    | none, later => later
    | some (lexeme, rest), none => some (r, lexeme, rest)
    | some (lexeme, rest), some later =>
      if lexeme.length < later.2.1.length then some later else some (r, lexeme, rest)

variable {rules : List Rule} {text : Bytes} {r : Rule} {lexeme rest : Bytes}

theorem longestMatch_eq_none :
    longestMatch rules text = none ↔ ∀ q ∈ rules, q.pattern.split text = none := by
  induction rules with
  | nil => simp [longestMatch]
  | cons q rules ih =>
    rw [List.forall_mem_cons, ← ih, longestMatch]
    cases hq : q.pattern.split text with
    | none => simp
    | some found =>
      cases longestMatch rules text with
      | none => simp
      | some later =>
        dsimp only
        split <;> simp

theorem mem_of_longestMatch (h : longestMatch rules text = some (r, lexeme, rest)) :
    r ∈ rules ∧ r.pattern.split text = some (lexeme, rest) := by
  induction rules with
  | nil => cases h
  | cons q rules ih =>
    rw [longestMatch] at h
    cases hq : q.pattern.split text with
    | none =>
      rw [hq] at h
      exact ⟨List.mem_cons_of_mem _ (ih h).1, (ih h).2⟩
    | some found =>
      rw [hq] at h
      cases hlater : longestMatch rules text with
      | none =>
        rw [hlater] at h
        cases h
        exact ⟨List.mem_cons_self, hq⟩
      | some later =>
        rw [hlater] at h
        dsimp only at h
        split at h
        · cases h
          exact ⟨List.mem_cons_of_mem _ (ih hlater).1, (ih hlater).2⟩
        · cases h
          exact ⟨List.mem_cons_self, hq⟩

/-- A first match that no other one exceeds is the longest match. -/
theorem longestMatch_of_firstMatch (h : firstMatch rules text = some (r, lexeme, rest))
    (hmax : ∀ q ∈ rules, ∀ found, q.pattern.split text = some found →
      found.1.length ≤ lexeme.length) :
    longestMatch rules text = some (r, lexeme, rest) := by
  induction rules with
  | nil => cases h
  | cons q rules ih =>
    obtain ⟨-, hmax'⟩ := List.forall_mem_cons.1 hmax
    rw [firstMatch] at h
    rw [longestMatch]
    cases hq : q.pattern.split text with
    | none =>
      rw [hq] at h
      exact ih h hmax'
    | some found =>
      rw [hq] at h
      cases h
      cases hlater : longestMatch rules text with
      | none => rfl
      | some later =>
        obtain ⟨hmem, hsplit⟩ := mem_of_longestMatch hlater
        exact if_neg (Nat.not_lt.2 (hmax' _ hmem _ hsplit))

end Rule

/-- What a rule gives out for its lexeme at a position: one token or none. -/
def Rule.tokens (r : Rule) (p : Position) (lexeme : Bytes) : List Token :=
  match r.action with
  | .skip => []
  | _ => [.located p r.kind (r.value lexeme)]

/-- The tokens of what is left of `input` at a position, by the rules that `choose` picks, or the
error at the first place where it picks none. A picked match takes at least one byte, so that as
many of them as there are bytes are enough. -/
def lexWith (choose : Bytes → Option (Rule × Bytes × Bytes)) (input : Bytes) :
    (bound : Nat) → Position → Bytes → Except LexError (List Token)
  | _, p, [] => .ok [.located p .eof []]
  | 0, p, _ :: _ => .error (.at input p)
  | bound + 1, p, b :: text =>
    match choose (b :: text) with
    | none => .error (.at input p)
    | some (r, lexeme, rest) =>
      (lexWith choose input bound (p.advance lexeme) rest).map (r.tokens p lexeme ++ ·)

/-- The tokens of a text by longest matches. -/
def longestTokenize (input : Bytes) : Except LexError (List Token) :=
  lexWith (Rule.longestMatch filterDialect) input input.length .start input

section

variable {choose : Bytes → Option (Rule × Bytes × Bytes)} {input text lexeme rest : Bytes}
  {bound : Nat} {p : Position} {r : Rule}

theorem lexWith_none (hne : text ≠ []) (h : choose text = none) :
    lexWith choose input bound p text = .error (.at input p) := by
  obtain ⟨b, text, rfl⟩ := List.exists_cons_of_ne_nil hne
  cases bound with
  | zero => rfl
  | succ bound => simp only [lexWith, h]

theorem lexWith_some (hne : text ≠ []) (h : choose text = some (r, lexeme, rest)) :
    lexWith choose input (bound + 1) p text =
      (lexWith choose input bound (p.advance lexeme) rest).map (r.tokens p lexeme ++ ·) := by
  obtain ⟨b, text, rfl⟩ := List.exists_cons_of_ne_nil hne
  simp only [lexWith, h]

/-- An error stands where nothing is picked, if every picked match takes something off the text. -/
theorem exists_of_lexWith_error
    (hsplit : ∀ {text r lexeme rest}, choose text = some (r, lexeme, rest) →
      text = lexeme ++ rest ∧ lexeme ≠ []) {e : LexError}
    (hbound : text.length ≤ bound) (h : lexWith choose input bound p text = .error e) :
    ∃ taken rest, text = taken ++ rest ∧ rest ≠ [] ∧ choose rest = none ∧
      e = .at input (p.advance taken) := by
  induction bound generalizing p text with
  | zero =>
    obtain rfl := List.eq_nil_of_length_eq_zero (Nat.le_zero.1 hbound)
    cases h
  | succ bound ih =>
    by_cases hne : text = []
    · subst hne
      cases h
    cases hchoose : choose text with
    | none =>
      rw [lexWith_none hne hchoose] at h
      cases h
      exact ⟨[], text, rfl, hne, hchoose, rfl⟩
    | some found =>
      obtain ⟨r, lexeme, rest⟩ := found
      obtain ⟨rfl, hlexeme⟩ := hsplit hchoose
      have hlength := List.length_pos_iff.2 hlexeme
      rw [List.length_append] at hbound
      rw [lexWith_some hne hchoose] at h
      cases hlater : lexWith choose input bound (p.advance lexeme) rest with
      | ok tokens =>
        rw [hlater] at h
        cases h
      | error e' =>
        rw [hlater] at h
        cases h
        obtain ⟨taken, rest, rfl, hend, hnone, rfl⟩ := ih (by omega) hlater
        refine ⟨lexeme ++ taken, rest, (List.append_assoc ..).symm, hend, hnone, ?_⟩
        rw [Position.advance_append]

end

/-- The tokens of a stream with their closing one, or the error that it reports. -/
def reported (tokens : List Token) (last : Token) : Option LexError → Except LexError (List Token)
  | none => .ok (tokens ++ [last])
  | some error => .error error

/-- **A choice that agrees along a stream gives the tokens of the stream.** -/
theorem Lexes.lexWith {choose : Bytes → Option (Rule × Bytes × Bytes)} {input text : Bytes}
    {bound : Nat} {p : Position} {tokens : List Token} {last : Token} {error : Option LexError}
    (h : Lexes input p text tokens (.closed last error))
    (hsome : ∀ {p text r lexeme rest tokens},
      Rule.firstMatch filterDialect text = some (r, lexeme, rest) →
      Lexes input p rest tokens (.closed last error) → choose text = some (r, lexeme, rest))
    (hnone : ∀ {text}, Rule.firstMatch filterDialect text = none → choose text = none)
    (hbound : text.length ≤ bound) :
    lexWith choose input bound p text = reported tokens last error := by
  generalize hending : Ending.closed last error = ending at h
  induction h generalizing bound with
  | finish p =>
    cases hending
    cases bound <;> rfl
  | fail p hne hmatch =>
    cases hending
    exact lexWith_none hne (hnone hmatch)
  | @skip p text lexeme rest r tokens ending hmatch hskip hrest ih =>
    subst hending
    have hlt := rest_lt hmatch
    obtain ⟨bound, rfl⟩ : ∃ n, bound = n + 1 := ⟨bound - 1, by omega⟩
    have hne : text ≠ [] := List.isEmpty_eq_false_iff.1 (isEmpty_of_firstMatch hmatch)
    have hgiven : r.tokens p lexeme = [] := by rw [Rule.tokens, hskip]
    rw [lexWith_some hne (hsome hmatch hrest), ih (by omega) rfl, hgiven]
    cases error <;> rfl
  | @token p text lexeme rest r tokens ending hmatch hskip hrest ih =>
    subst hending
    have hlt := rest_lt hmatch
    obtain ⟨bound, rfl⟩ : ∃ n, bound = n + 1 := ⟨bound - 1, by omega⟩
    have hne : text ≠ [] := List.isEmpty_eq_false_iff.1 (isEmpty_of_firstMatch hmatch)
    have hgiven : r.tokens p lexeme = [.located p r.kind (r.value lexeme)] := by
      cases haction : r.action with
      | skip => exact absurd haction hskip
      | emit | unquote => rw [Rule.tokens, haction]
    rw [lexWith_some hne (hsome hmatch hrest), ih (by omega) rfl, hgiven]
    cases error <;> rfl

/-- **The lexer is the one that picks the first match.** -/
theorem lexWith_firstMatch (input : Bytes) :
    lexWith (Rule.firstMatch filterDialect) input input.length .start input = tokenize input := by
  obtain ⟨tokens, ending, hlex⟩ := exists_lexes input .start input
  rw [tokenize, Lexer.stream_ofText hlex]
  obtain ⟨p, rfl | rfl⟩ := hlex.ending_cases
  · exact hlex.lexWith (fun hmatch _ => hmatch) id le_rfl
  · exact hlex.lexWith (fun hmatch _ => hmatch) id le_rfl

/-! ## Where a later rule matches more -/

theorem firstMatch_point (more : Bytes) : Rule.firstMatch filterDialect (0x2E :: more) = none := by
  rw [Rule.firstMatch_eq_none, filterDialect_eq]
  simp [Pattern.split, Bytes.after?, Scan.split, Scan.splitBlank, Blank.run, Blank.runFrom,
    Blank.width, Utf8.first?, Blank.isBlank, Scan.splitNumber, Scan.splitIdentity,
    Scan.splitString, isDigit, isLetter]

theorem Lexes.ending_of_point {input more : Bytes} {p : Position} {tokens : List Token}
    {ending : Ending} (h : Lexes input p (0x2E :: more) tokens ending) :
    ending = .failed input p := by
  cases h with
  | fail => rfl
  | skip hmatch | token hmatch =>
    rw [firstMatch_point] at hmatch
    cases hmatch

/-- A keyword is matched as such unless a word goes on behind it. -/
theorem firstMatch_word {word tail : Bytes} (h : word ∈ reservedWords)
    (htail : startsWithWord tail = false) :
    ∃ r, Rule.firstMatch filterDialect (word ++ tail) = some (r, word, tail) := by
  have hkinds : ∀ word ∈ reservedWords,
      ∃ kind ∈ [TokenKind.and, .or, .not, .isIn], kind.keyword = word := by decide
  obtain ⟨kind, hkind, rfl⟩ := hkinds word h
  have hmatch : kind.isFixed = true ∧ Apart kind kind.keyword tail := by
    simp only [List.mem_cons, List.not_mem_nil, or_false] at hkind
    rcases hkind with rfl | rfl | rfl | rfl <;> exact ⟨rfl, htail⟩
  obtain ⟨r, hr, -⟩ := firstMatch_fixed hmatch.1 hmatch.2
  exact ⟨r, hr⟩

/-- In front of a point the keyword is taken, and the point is left. -/
theorem lexeme_of_point {word text : Bytes} (hword : word ∈ reservedWords)
    (hpoint : word ++ [0x2E] <+: text) {r : Rule} {found rest : Bytes}
    (h : Rule.firstMatch filterDialect text = some (r, found, rest)) :
    found = word ∧ ∃ more, text = word ++ 0x2E :: more ∧ rest = 0x2E :: more := by
  obtain ⟨more, rfl⟩ := hpoint
  rw [List.append_assoc, List.singleton_append] at h ⊢
  have hend : startsWithWord (0x2E :: more) = false := rfl
  obtain ⟨r', hr'⟩ := firstMatch_word hword hend
  rw [hr'] at h
  cases h
  exact ⟨rfl, more, rfl, rfl⟩

/-- The rule of identities matches the point, too. -/
theorem splitIdentity_point {word : Bytes} (hword : word ∈ reservedWords) (more : Bytes) :
    ∃ found, Scan.splitIdentity (word ++ 0x2E :: more) = some found ∧
      word.length < found.1.length := by
  have hletters : ∀ word ∈ reservedWords, isValidIdentity word = true := by decide
  have hvalid := hletters word hword
  cases word with
  | nil => cases hvalid
  | cons b word =>
    simp only [isValidIdentity, Bool.and_eq_true, List.all_eq_true] at hvalid
    refine ⟨_, if_pos hvalid.1, ?_⟩
    show (b :: word).length < (b :: (word ++ 0x2E :: more).takeWhile isIdentityByte).length
    have hpoint : isIdentityByte 0x2E = true := by decide
    rw [List.takeWhile_append_of_pos hvalid.2, List.takeWhile_cons_of_pos hpoint]
    simp only [List.length_cons, List.length_append]
    omega

/-- An identity that is not matched as such is a keyword, or goes on with a point behind one. -/
theorem exists_word_of_not_unreserved {text : Bytes} (hvalid : isValidIdentity text = true)
    (h : ¬ Unreserved text) : text ∈ reservedWords ∨
      ∃ word ∈ reservedWords, word ++ [0x2E] <+: text := by
  simp only [Unreserved, not_forall] at h
  obtain ⟨word, hword, rest, rfl, hrest⟩ := h
  cases rest with
  | nil => exact .inl (by rwa [List.append_nil])
  | cons b rest =>
    have hne : word ≠ [] := by
      rintro rfl
      revert hword
      decide
    have hidentity : isIdentityByte b = true := by
      obtain ⟨c, word, rfl⟩ := List.exists_cons_of_ne_nil hne
      simp only [List.cons_append, isValidIdentity, Bool.and_eq_true, List.all_eq_true] at hvalid
      exact hvalid.2 b (by simp)
    have hb : b = 0x2E := by
      have hnot : isWordByte b = false := by simpa [startsWithWord] using hrest
      simpa [isIdentityByte, hnot] using hidentity
    exact .inr ⟨word, hword, rest, by simp [hb]⟩

/-- What stands apart from `<` and `>` is no `=`; with one, the longer sign is matched. -/
theorem firstMatch_short {kind : TokenKind} {tail : Bytes} (h : kind ∈ [TokenKind.less, .greater])
    (htail : ¬ ∀ b ∈ tail.head?, b ≠ 0x3D) : ∃ r lexeme rest,
      Rule.firstMatch filterDialect (kind.keyword ++ tail) = some (r, lexeme, rest) ∧
      kind.keyword.length ≤ lexeme.length := by
  obtain ⟨tail, rfl⟩ : ∃ more, tail = 0x3D :: more := by
    cases tail with
    | nil => simp at htail
    | cons b tail => exact ⟨tail, by simpa using htail⟩
  simp only [List.mem_cons, List.not_mem_nil, or_false] at h
  rcases h with rfl | rfl
  · have hapart : Apart .lessEqual [] tail := trivial
    obtain ⟨r, hr, -⟩ := firstMatch_fixed (by decide) hapart
    exact ⟨r, _, _, hr, by decide⟩
  · have hapart : Apart .greaterEqual [] tail := trivial
    obtain ⟨r, hr, -⟩ := firstMatch_fixed (by decide) hapart
    exact ⟨r, _, _, hr, by decide⟩

/-- What follows the match of a keyword or sign is apart from it, except for an `=`. -/
theorem apart_or_short {q : Rule} {text found more : Bytes} (hq : q ∈ filterDialect)
    (hfixed : q.kind.isFixed = true) (hsplit : q.pattern.split text = some (found, more)) :
    Apart q.kind q.kind.keyword more ∨
      q.kind ∈ [TokenKind.less, .greater] ∧ ¬ ∀ b ∈ more.head?, b ≠ 0x3D := by
  cases hkind : q.kind with
  | identity | number =>
    rw [hkind] at hfixed
    cases hfixed
  | and | or | not | isIn => exact .inl (apart_of_word hq (by rw [hkind]; decide) hsplit)
  | less | greater =>
    by_cases hequal : ∀ b ∈ more.head?, b ≠ 0x3D
    · exact .inl hequal
    · exact .inr ⟨by decide, hequal⟩
  | _ => exact .inl trivial

/-- **No rule matches more than the first one**, unless a point follows a keyword. -/
theorem length_le_or_point {text : Bytes} {r q : Rule} {lexeme rest found more : Bytes}
    (h : Rule.firstMatch filterDialect text = some (r, lexeme, rest)) (hq : q ∈ filterDialect)
    (hsplit : q.pattern.split text = some (found, more)) :
    found.length ≤ lexeme.length ∨ ∃ word ∈ reservedWords, word ++ [0x2E] <+: text := by
  have hsame : ∀ {r' lexeme' rest'},
      Rule.firstMatch filterDialect text = some (r', lexeme', rest') → lexeme' = lexeme := by
    intro r' lexeme' rest' h'
    rw [h'] at h
    cases h
    rfl
  rcases mem_filterDialect hq with ⟨wholeWord, hpat, hfixed⟩ | rfl | rfl | rfl | rfl
  · have hpiece := hsplit
    rw [hpat, Pattern.literal_split_eq_some] at hpiece
    obtain ⟨rfl, rfl, -⟩ := hpiece
    rcases apart_or_short hq hfixed hsplit with hapart | ⟨hkind, hequal⟩
    · obtain ⟨r', hr', -⟩ := firstMatch_fixed hfixed hapart
      exact .inl (hsame hr' ▸ le_rfl)
    · obtain ⟨r', lexeme', rest', hr', hle⟩ := firstMatch_short hkind hequal
      exact .inl (hsame hr' ▸ hle)
  · obtain ⟨rfl, hne, hgap, hmore⟩ := Scan.splitBlank_eq_some_iff.1 hsplit
    exact .inl (hsame (firstMatch_blanks hgap hne hmore) ▸ le_rfl)
  · have hnumeral := Scan.numeral_of_splitNumber hsplit
    have hapart := Scan.apart_of_splitNumber hsplit
    obtain ⟨rfl, -⟩ := Scan.splitNumber_eq_some hsplit
    exact .inl (hsame (firstMatch_number hnumeral hapart) ▸ le_rfl)
  · obtain ⟨hvalid, hmore⟩ := Scan.valid_of_splitIdentity hsplit
    obtain ⟨rfl, -⟩ := Scan.splitIdentity_eq_some hsplit
    by_cases hunreserved : Unreserved found
    · exact .inl (hsame (firstMatch_identity hvalid hunreserved hmore) ▸ le_rfl)
    · rcases exists_word_of_not_unreserved hvalid hunreserved with hword | ⟨word, hword, hpoint⟩
      · have hend : startsWithWord more = false := by
          rw [← List.nil_append more,
            startsWithWord_append fun b hb => not_word_of_not_identity (hmore b hb)]
          rfl
        obtain ⟨r', hr'⟩ := firstMatch_word hword hend
        exact .inl (hsame hr' ▸ le_rfl)
      · exact .inr ⟨word, hword, hpoint.trans (List.prefix_append ..)⟩
  · obtain ⟨inner, hinner, rfl, rfl⟩ := Scan.splitString_eq_some.1 hsplit
    exact .inl (hsame (firstMatch_string hinner) ▸ le_rfl)

/-- **The first match is a longest one**, except exactly where a point follows a keyword. -/
theorem longest_iff {text : Bytes} {r : Rule} {lexeme rest : Bytes}
    (h : Rule.firstMatch filterDialect text = some (r, lexeme, rest)) :
    (∀ q ∈ filterDialect, ∀ found more, q.pattern.split text = some (found, more) →
      found.length ≤ lexeme.length) ↔ ¬ ∃ word ∈ reservedWords, word ++ [0x2E] <+: text := by
  constructor
  · rintro hmax ⟨word, hword, hpoint⟩
    obtain ⟨rfl, more, rfl, -⟩ := lexeme_of_point hword hpoint h
    obtain ⟨found, hfound, hlt⟩ := splitIdentity_point hword more
    have hle := hmax ⟨.identity, .scan .identity, .emit⟩ (by decide) found.1 found.2 hfound
    omega
  · intro hnot q hq found more hsplit
    exact (length_le_or_point h hq hsplit).resolve_right hnot

theorem longestMatch_eq {text : Bytes} {r : Rule} {lexeme rest : Bytes}
    (h : Rule.firstMatch filterDialect text = some (r, lexeme, rest))
    (hpoint : ¬ ∃ word ∈ reservedWords, word ++ [0x2E] <+: text) :
    Rule.longestMatch filterDialect text = some (r, lexeme, rest) :=
  Rule.longestMatch_of_firstMatch h fun q hq found hfound =>
    (longest_iff h).2 hpoint q hq found.1 found.2 hfound

theorem longestMatch_eq_none_iff {text : Bytes} : Rule.longestMatch filterDialect text = none ↔
    Rule.firstMatch filterDialect text = none := by
  rw [Rule.longestMatch_eq_none, Rule.firstMatch_eq_none]

/-! ## Whole texts -/

/-- **Accepted texts have the same tokens.** -/
theorem longestTokenize_of_tokenize {input : Bytes} {tokens : List Token}
    (h : tokenize input = .ok tokens) : longestTokenize input = .ok tokens := by
  obtain ⟨found, p, hlex, rfl⟩ := tokenize_eq_ok.1 h
  refine hlex.lexWith ?_ longestMatch_eq_none_iff.2 le_rfl
  intro p' text r lexeme rest more hmatch hrest
  refine longestMatch_eq hmatch ?_
  -- Behind a keyword in front of a point, the stream would not have gone on to the end.
  rintro ⟨word, hword, hpoint⟩
  obtain ⟨-, more, -, rfl⟩ := lexeme_of_point hword hpoint hmatch
  cases hrest.ending_of_point

/-- A text that has tokens by longest matches only fails at a point behind a keyword. -/
theorem Lexes.exists_point {input text : Bytes} {bound : Nat} {p : Position}
    {tokens longest : List Token} {last : Token} {e : LexError}
    (h : Lexes input p text tokens (.closed last (some e))) (hbound : text.length ≤ bound)
    (hok : FilterQuery.lexWith (Rule.longestMatch filterDialect) input bound p text = .ok longest) :
    ∃ before word more, word ∈ reservedWords ∧ text = before ++ (word ++ 0x2E :: more) ∧
      e.pos = p.offset + (before ++ word).length := by
  generalize hending : Ending.closed last (some e) = ending at h
  induction h generalizing bound longest with
  | finish => cases hending
  | fail p hne hmatch =>
    rw [lexWith_none hne (longestMatch_eq_none_iff.2 hmatch)] at hok
    cases hok
  | @skip p text lexeme rest r tokens ending hmatch hskip hrest ih
  | @token p text lexeme rest r tokens ending hmatch hskip hrest ih =>
    subst hending
    by_cases hpoint : ∃ word ∈ reservedWords, word ++ [0x2E] <+: text
    · obtain ⟨word, hword, hpoint⟩ := hpoint
      obtain ⟨rfl, more, rfl, rfl⟩ := lexeme_of_point hword hpoint hmatch
      have hend := hrest.ending_of_point
      cases hend
      exact ⟨[], lexeme, more, hword, rfl, Position.offset_advance p lexeme⟩
    · obtain ⟨rfl, hlexeme⟩ := firstMatch_split hmatch
      have hlt := rest_lt hmatch
      obtain ⟨bound, rfl⟩ : ∃ n, bound = n + 1 := ⟨bound - 1, by omega⟩
      have hne : lexeme ++ rest ≠ [] := by simp [hlexeme]
      have hlongest := longestMatch_eq hmatch hpoint
      rw [lexWith_some hne (longestMatch_eq hmatch hpoint)] at hok
      cases hlater : FilterQuery.lexWith (Rule.longestMatch filterDialect) input bound
          (p.advance lexeme) rest with
      | error e' =>
        rw [hlater] at hok
        cases hok
      | ok later =>
        obtain ⟨before, word, more, hword, rfl, hpos⟩ := ih (by omega) hlater rfl
        refine ⟨lexeme ++ before, word, more, hword, (List.append_assoc ..).symm, ?_⟩
        rw [hpos, Position.offset_advance, List.append_assoc, Nat.add_assoc, ← List.length_append]

/-- **First matches against longest matches.** Where a rule matches, the first one that does matches
at least as much as every other one, except exactly if a point directly follows a keyword. The lexer
picks first matches; picking longest matches instead only fails where no rule matches, and gives the
same tokens for every text that the lexer accepts. If it gives tokens for a text that the lexer
rejects, then the lexer has stopped at a point right behind a keyword. -/
theorem firstMatch_longest :
    (∀ text r lexeme rest, Rule.firstMatch filterDialect text = some (r, lexeme, rest) →
      ((∀ q ∈ filterDialect, ∀ found more, q.pattern.split text = some (found, more) →
          found.length ≤ lexeme.length) ↔
        ¬ ∃ word ∈ reservedWords, word ++ [0x2E] <+: text)) ∧
    (∀ input, lexWith (Rule.firstMatch filterDialect) input input.length .start input =
      tokenize input) ∧
    (∀ input e, longestTokenize input = .error e → e.pos < input.length ∧
      ∀ q ∈ filterDialect, q.pattern.split (input.drop e.pos) = none) ∧
    (∀ input tokens, tokenize input = .ok tokens → longestTokenize input = .ok tokens) ∧
    ∀ input tokens e, longestTokenize input = .ok tokens → tokenize input = .error e →
      ∃ before word more, word ∈ reservedWords ∧ input = before ++ (word ++ 0x2E :: more) ∧
        e.pos = (before ++ word).length := by
  refine ⟨fun _ _ _ _ => longest_iff, lexWith_firstMatch, fun input e h => ?_,
    fun _ _ => longestTokenize_of_tokenize, fun input tokens e hok herror => ?_⟩
  · have hsplit : ∀ {text r lexeme rest},
        Rule.longestMatch filterDialect text = some (r, lexeme, rest) →
        text = lexeme ++ rest ∧ lexeme ≠ [] := by
      intro text r lexeme rest hmatch
      obtain ⟨hr, hsplit⟩ := Rule.mem_of_longestMatch hmatch
      exact split_of_mem hr hsplit
    obtain ⟨taken, rest, rfl, hne, hnone, rfl⟩ := exists_of_lexWith_error hsplit le_rfl h
    have hpos : (LexError.at (taken ++ rest) (Position.start.advance taken)).pos = taken.length :=
      Token.pos_closing taken
    rw [hpos, List.drop_left]
    refine ⟨?_, Rule.longestMatch_eq_none.1 hnone⟩
    rw [List.length_append]
    have := List.length_pos_iff.2 hne
    omega
  · obtain ⟨taken, rest, found, -, -, -, -, rfl, hlex⟩ := laid_of_tokenize_error herror
    obtain ⟨before, word, more, hword, htext, hpos⟩ := hlex.exists_point le_rfl hok
    exact ⟨before, word, more, hword, htext, hpos.trans (Nat.zero_add _)⟩

/-- A path that starts with a keyword is one token by longest matches, and an error for the
lexer. -/
theorem firstMatch_longest_inStock :
    longestTokenize (ascii "a or in.stock") = .ok [.located ⟨0, 1, 1⟩ .identity (ascii "a"),
      .located ⟨2, 1, 3⟩ .or (ascii "or"), .located ⟨5, 1, 6⟩ .identity (ascii "in.stock"),
      .located ⟨13, 1, 14⟩ .eof []] ∧
    ∃ e, tokenize (ascii "a or in.stock") = .error e ∧ ∃ before word more, word ∈ reservedWords ∧
      ascii "a or in.stock" = before ++ (word ++ 0x2E :: more) ∧
        e.pos = (before ++ word).length := by
  have hok : longestTokenize (ascii "a or in.stock") =
      .ok [.located ⟨0, 1, 1⟩ .identity (ascii "a"), .located ⟨2, 1, 3⟩ .or (ascii "or"),
        .located ⟨5, 1, 6⟩ .identity (ascii "in.stock"), .located ⟨13, 1, 14⟩ .eof []] := by decide
  have herror : tokenize (ascii "a or in.stock") = .error ⟨ascii "a or in.stock", 7, 1, 8⟩ := by
    decide
  exact ⟨hok, _, herror, firstMatch_longest.2.2.2.2 _ _ _ hok herror⟩

end FilterQuery
