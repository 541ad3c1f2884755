import FilterQuery.Proofs.LongestMatch
import FilterQuery.Proofs.OffsetLexer

/-!
# Field names

Whether a text is a field name is decided in two places: `isValidIdentity` looks at the whole text,
and the lexer reads an identity off its front. The lexer moves by characters, and a text may hold
bytes that belong to none.

**Theorem (`identity_agreement`).** A text is a field name exactly if the scanner reads all of it.
It is a single identity token exactly if it is a field name and no keyword, and does not begin with
a keyword and a point.
-/

namespace FilterQuery

/-! ## By characters -/

/-- All characters of a text are of a class exactly if those at its start are the whole text. -/
theorem Utf8.lead_eq_self {p : Nat → Bool} (text : Bytes) :
    Utf8.lead p text = text ↔ (Utf8.chunks text).all (fun chunk => p chunk.rune) = true := by
  induction text using Utf8.chunk_induction with
  | nil => simp [Utf8.chunks, Utf8.chunksFrom]
  | @character n char rest hchar ih =>
    rw [Utf8.lead_character hchar, Utf8.chunks_character hchar, List.all_cons]
    by_cases hp : p n = true
    · simp [hp, Utf8.Chunk.rune, ih]
    · simp [hp, Utf8.Chunk.rune, hchar.ne_nil]
  | @stray b rest hfirst ih =>
    rw [Utf8.lead_stray hfirst, Utf8.chunks_stray hfirst, List.all_cons]
    by_cases hp : p Utf8.replacement = true
    · simp [hp, Utf8.Chunk.rune, ih]
    · simp [hp, Utf8.Chunk.rune]

/-- Whether the first byte is a letter and every character may stand in a field path. -/
def isIdentityText (text : Bytes) : Bool :=
  text.head?.any isLetter && (Utf8.chunks text).all fun chunk => isIdentityRune chunk.rune

/-- **Field names may be checked by characters.** No character of more than one byte, and no stray
byte, is part of one. -/
theorem isValidIdentity_eq (text : Bytes) : isValidIdentity text = isIdentityText text := by
  cases text with
  | nil => rfl
  | cons b rest =>
    have hall : (Utf8.chunks (b :: rest)).all (fun chunk => isIdentityRune chunk.rune) =
        (b :: rest).all isIdentityByte := by
      rw [Bool.eq_iff_iff, ← Utf8.lead_eq_self, asciiClass_identity.lead,
        List.takeWhile_eq_self_iff, List.all_eq_true]
    rw [isValidIdentity, isIdentityText, hall, List.head?_cons, Option.any_some, List.all_cons]
    by_cases hb : isLetter b = true
    · rw [hb, isIdentityByte_of_isLetter hb]
      rfl
    · rw [eq_false_of_ne_true hb]
      rfl

/-! ## By the scanner -/

theorem splitIdentity_eq_self {text : Bytes} :
    Scan.splitIdentity text = some (text, []) ↔ isValidIdentity text = true := by
  constructor
  · intro h
    exact (Scan.valid_of_splitIdentity h).1
  · intro h
    cases text with
    | nil => cases h
    | cons b rest =>
      simp only [isValidIdentity, Bool.and_eq_true, List.all_eq_true] at h
      obtain ⟨hb, hrest⟩ := h
      have htail : ∀ b ∈ ([] : Bytes).head?, isIdentityByte b = false := by simp
      have hspan := span_append hrest htail
      rw [List.append_nil] at hspan
      rw [Scan.splitIdentity, if_pos hb, hspan.1, hspan.2]

/-- **The scanner reads exactly the field names to their end.** -/
theorem scanIdentity_iff (rules : List Rule) (text : Bytes) :
    (∃ o, OffsetLexer.scanIdentity.run (.ofText rules text) = .ok true o ∧ o.pos = text.length) ↔
      isValidIdentity text = true := by
  have hat : (OffsetLexer.ofText rules text).At [] text := ⟨rfl, rfl⟩
  have hrecognizes := OffsetLexer.recognizes_scanIdentity
  constructor
  · rintro ⟨o, hrun, hpos⟩
    rcases hsplit : Scan.splitIdentity text with _ | ⟨found, rest⟩
    · obtain ⟨width, hends⟩ := hrecognizes.refuses hat hsplit
      rw [hrun] at hends
      cases hends
    · obtain ⟨width, hends⟩ := hrecognizes.accepts hat hsplit
      rw [hrun] at hends
      cases hends
      obtain ⟨rfl, -⟩ := Scan.splitIdentity_eq_some hsplit
      -- the scanner stands behind what it found, so nothing is left
      have hrest : rest = [] := by
        have hlength : (0 : Int) + found.length = (found ++ rest).length := hpos
        rw [List.length_append] at hlength
        exact List.length_eq_zero_iff.1 (by omega)
      rw [hrest, List.append_nil]
      exact (Scan.valid_of_splitIdentity hsplit).1
  · intro hvalid
    obtain ⟨width, hends⟩ := hrecognizes.accepts hat (splitIdentity_eq_self.2 hvalid)
    exact ⟨_, hends, Int.zero_add _⟩

/-! ## By the tokens -/

theorem unreserved_iff {text : Bytes} (hvalid : isValidIdentity text = true) :
    Unreserved text ↔ text ∉ reservedWords ∧ ∀ word ∈ reservedWords, ¬ word ++ [0x2E] <+: text := by
  constructor
  · intro h
    refine ⟨h.not_mem, ?_⟩
    rintro word hword ⟨rest, rfl⟩
    have hstart : isWordByte 0x2E = true := h word hword (0x2E :: rest) (by simp)
    revert hstart
    decide
  · rintro ⟨hword, hpoint⟩
    by_contra hnot
    rcases exists_word_of_not_unreserved hvalid hnot with hmem | ⟨word, hmem, hbegins⟩
    · exact hword hmem
    · exact hpoint word hmem hbegins

/-- A text is a single identity token if it is well spelled as one. -/
theorem tokenize_identity_iff (text : Bytes) :
    (∃ t last, tokenize text = .ok [t, last] ∧ t.kind = .identity ∧ t.text = text ∧
      last.kind = .eof) ↔ Spelled .identity text := by
  constructor
  · rintro ⟨t, last, htokens, hkind, htext, -⟩
    obtain ⟨found, hlaid, hfound⟩ := laid_of_tokenize htokens
    have hsingle : [t] ++ [last] = found ++ [Token.closing text] := hfound
    obtain ⟨rfl, -⟩ := List.append_inj' hsingle rfl
    have hspelled := hlaid.spelled t List.mem_cons_self
    rwa [hkind, htext] at hspelled
  · intro hspelled
    have hlaid : Laid .start ([] ++ (lexeme .identity text ++ []))
        [.located (Position.start.advance []) .identity text] :=
      .token .nil hspelled (by simp [Apart]) (.blank .nil)
    rw [List.nil_append, List.append_nil] at hlaid
    exact ⟨_, _, tokenize_of_laid hlaid, rfl, rfl, rfl⟩

/-- **The check of field names and the lexer agree.** -/
theorem identity_agreement (text : Bytes) :
    isValidIdentity text = isIdentityText text ∧
    (isValidIdentity text = true ↔ Scan.identity.split text = some (text, [])) ∧
    (∀ rules, isValidIdentity text = true ↔
      ∃ o, OffsetLexer.scanIdentity.run (.ofText rules text) = .ok true o ∧
        o.pos = text.length) ∧
    ((∃ t last, tokenize text = .ok [t, last] ∧ t.kind = .identity ∧ t.text = text ∧
        last.kind = .eof) ↔
      isValidIdentity text = true ∧ text ∉ reservedWords ∧
        ∀ word ∈ reservedWords, ¬ word ++ [0x2E] <+: text) := by
  refine ⟨isValidIdentity_eq text, splitIdentity_eq_self.symm,
    fun rules => (scanIdentity_iff rules text).symm, ?_⟩
  rw [tokenize_identity_iff]
  constructor
  · rintro ⟨hvalid, hunreserved⟩
    exact ⟨hvalid, (unreserved_iff hvalid).1 hunreserved⟩
  · rintro ⟨hvalid, hwords⟩
    exact ⟨hvalid, (unreserved_iff hvalid).2 hwords⟩

end FilterQuery
