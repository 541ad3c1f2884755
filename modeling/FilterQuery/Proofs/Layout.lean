import FilterQuery.Proofs.Chunks
import FilterQuery.Proofs.Lexing

/-!
# The layout of a text

A text that the lexer accepts is its tokens with white space between them, and no byte of it is
lost. `Laid` says so without the lexer: white space, the lexeme of a token, and the layout of what
follows, which must be apart from the token.

**Theorem (`tokenize_lossless`).** A text has tokens exactly if it is laid out, and they are the
tokens of the layout. If it has none, it is laid out up to the place of the error, where no rule
matches.

**Both ways.** `Lexes.laid` reads the layout off a derivation of the stream, and `Laid.lexes`
derives the stream from a layout. What remains is to say which texts are white space for the lexer
(`Scan.splitBlank_eq_some_iff`): it counts bytes, while `Blanks` goes by characters.
-/

namespace FilterQuery

/-! ## White space -/

/-- White-space characters one after the other. -/
inductive Blanks : Bytes → Prop
  | nil : Blanks []
  | cons {n : Nat} {char rest : Bytes} : Utf8.Character n char → Blank.isBlank n = true →
      Blanks rest → Blanks (char ++ rest)

theorem Blanks.append {gap more : Bytes} (h : Blanks gap) (hmore : Blanks more) :
    Blanks (gap ++ more) := by
  induction h with
  | nil => exact hmore
  | cons hchar hblank _ ih =>
    rw [List.append_assoc]
    exact .cons hchar hblank ih

namespace Blank

theorem runFrom_eq (counted skip : Nat) (text : Bytes) :
    runFrom counted skip text = counted + (text.take skip).length + run (text.drop skip) := by
  induction text generalizing counted skip with
  | nil => simp [runFrom, run]
  | cons b rest ih =>
    cases skip with
    | succ skip =>
      rw [runFrom, ih, List.take_succ_cons, List.drop_succ_cons, List.length_cons]
      omega
    | zero =>
      rw [List.take_zero, List.drop_zero, run, runFrom, runFrom]
      cases width (b :: rest) with
      | zero => rfl
      | succ more =>
        simp only [ih (counted + 1), ih (0 + 1), List.length_nil]
        omega

theorem width_character {n : Nat} {char : Bytes} (h : Utf8.Character n char) (rest : Bytes) :
    width (char ++ rest) = if isBlank n then char.length else 0 := by
  rw [width, h.first?]

theorem run_of_width_eq_zero {text : Bytes} (h : width text = 0) : run text = 0 := by
  cases text with
  | nil => rfl
  | cons b rest => rw [run, runFrom, h]

theorem run_character {n : Nat} {char : Bytes} (h : Utf8.Character n char)
    (hblank : isBlank n = true) (rest : Bytes) : run (char ++ rest) = char.length + run rest := by
  have hwidth := width_character h rest
  rw [if_pos hblank] at hwidth
  obtain ⟨b, more, rfl⟩ := List.exists_cons_of_ne_nil h.ne_nil
  rw [List.cons_append] at hwidth ⊢
  rw [run, runFrom, hwidth, List.length_cons]
  simp only [runFrom_eq, List.take_left, List.drop_left]
  omega

theorem run_blanks {gap rest : Bytes} (h : Blanks gap) (hrest : width rest = 0) :
    run (gap ++ rest) = gap.length := by
  induction h with
  | nil => exact run_of_width_eq_zero hrest
  | cons hchar hblank _ ih =>
    rw [List.append_assoc, run_character hchar hblank, ih, List.length_append]

/-- Every text is white space and something that does not start with any. -/
theorem exists_blanks (text : Bytes) :
    ∃ gap rest, text = gap ++ rest ∧ Blanks gap ∧ width rest = 0 := by
  induction text using Utf8.chunk_induction with
  | nil => exact ⟨[], [], rfl, .nil, rfl⟩
  | @character n char rest hchar ih =>
    by_cases hblank : isBlank n = true
    · obtain ⟨gap, rest, rfl, hgap, hrest⟩ := ih
      exact ⟨char ++ gap, rest, (List.append_assoc ..).symm, .cons hchar hblank hgap, hrest⟩
    · refine ⟨[], char ++ rest, rfl, .nil, ?_⟩
      rw [width_character hchar, if_neg hblank]
  | stray hfirst _ =>
    refine ⟨[], _, rfl, .nil, ?_⟩
    rw [width, hfirst]

end Blank

/-- **White space is skipped by whole runs.** -/
theorem Scan.splitBlank_eq_some_iff {text gap rest : Bytes} :
    Scan.splitBlank text = some (gap, rest) ↔
      text = gap ++ rest ∧ gap ≠ [] ∧ Blanks gap ∧ Blank.width rest = 0 := by
  have hsplit : ∀ gap rest, Blanks gap → Blank.width rest = 0 →
      Scan.splitBlank (gap ++ rest) = if gap = [] then none else some (gap, rest) := by
    intro gap rest hgap hrest
    rw [Scan.splitBlank, Blank.run_blanks hgap hrest]
    cases gap with
    | nil => rfl
    | cons b gap => simp
  constructor
  · intro h
    obtain ⟨gap', rest', rfl, hgap, hrest⟩ := Blank.exists_blanks text
    rw [hsplit gap' rest' hgap hrest] at h
    split at h
    · cases h
    · next hne =>
      cases h
      exact ⟨rfl, hne, hgap, hrest⟩
  · rintro ⟨rfl, hne, hgap, hrest⟩
    rw [hsplit gap rest hgap hrest, if_neg hne]

/-- The first byte of a white-space character is a control byte, a blank, or no ASCII. -/
theorem lead_of_blank {n : Nat} {b : UInt8} {more : Bytes} (h : Utf8.Character n (b :: more))
    (hblank : Blank.isBlank n = true) : b ≤ 0x20 ∨ 0x80 ≤ b := by
  rcases h.bytes_cases with ⟨a, hbytes, rfl⟩ | hbytes
  · cases hbytes
    simp only [Blank.isBlank, UInt8.le_iff_toNat_le, Bool.or_eq_true, Bool.and_eq_true,
      decide_eq_true_eq, beq_iff_eq] at hblank ⊢
    simp at *
    omega
  · exact .inr (hbytes b List.mem_cons_self)

theorem Blanks.cons_lead {b : UInt8} {more : Bytes} (h : Blanks (b :: more)) :
    b ≤ 0x20 ∨ 0x80 ≤ b := by
  generalize hgap : b :: more = gap at h
  cases h with
  | nil => cases hgap
  | cons hchar hblank _ =>
    obtain ⟨c, char, rfl⟩ := List.exists_cons_of_ne_nil hchar.ne_nil
    cases hgap
    exact lead_of_blank hchar hblank

/-- No keyword starts like white space. -/
theorem keywords_fail {b : UInt8} {text : Bytes} (h : b ≤ 0x20 ∨ 0x80 ≤ b) :
    ∀ q ∈ filterDialect.take 17, q.pattern.split (b :: text) = none := by
  have hne : ∀ a : UInt8, 0x20 < a → a < 0x80 → a ≠ b := by
    rintro a hlow hhigh rfl
    rcases h with h | h
    · exact UInt8.not_lt.2 h hlow
    · exact UInt8.not_lt.2 h hhigh
  rw [filterDialect_eq]
  simp only [List.take, List.forall_mem_cons, List.not_mem_nil, false_implies, implies_true,
    and_true]
  refine ⟨?_, ?_, ?_, ?_, ?_, ?_, ?_, ?_, ?_, ?_, ?_, ?_, ?_, ?_, ?_, ?_, ?_⟩ <;>
    exact Pattern.literal_split_of_ne (hne _ (by decide) (by decide))

theorem firstMatch_blanks {gap rest : Bytes} (h : Blanks gap) (hne : gap ≠ [])
    (hrest : Blank.width rest = 0) :
    Rule.firstMatch filterDialect (gap ++ rest) =
      some (⟨.other 0, .scan .blank, .skip⟩, gap, rest) := by
  have hsplit := Scan.splitBlank_eq_some_iff.2 ⟨rfl, hne, h, hrest⟩
  obtain ⟨b, more, rfl⟩ := List.exists_cons_of_ne_nil hne
  rw [List.cons_append] at hsplit ⊢
  rw [Rule.firstMatch_of_failed 17 (keywords_fail h.cons_lead), filterDialect_eq]
  simp only [List.drop, Rule.firstMatch, Pattern.split, Scan.split, hsplit]

/-- What is skipped is white space. -/
theorem blanks_of_firstMatch {text : Bytes} {r : Rule} {found rest : Bytes}
    (h : Rule.firstMatch filterDialect text = some (r, found, rest)) (hskip : r.action = .skip) :
    Blanks found := by
  obtain ⟨hmem, hr⟩ := Rule.mem_of_firstMatch h
  rcases mem_filterDialect hmem with ⟨wholeWord, hpat, -⟩ | rfl | rfl | rfl | rfl
  · rw [hpat] at hskip
    cases hskip
  · exact (Scan.splitBlank_eq_some_iff.1 hr).2.2.1
  · cases hskip
  · cases hskip
  · cases hskip

/-! ## Text that is not white space -/

/-- The text starts with a character that is not white space. -/
def Solid (text : Bytes) : Prop :=
  ∃ b rest, text = b :: rest ∧ b < 0x80 ∧ Blank.isBlank b.toNat = false

theorem Solid.width {text : Bytes} (h : Solid text) : Blank.width text = 0 := by
  obtain ⟨b, rest, rfl, hascii, hblank⟩ := h
  rw [show b :: rest = [b] ++ rest from rfl, Blank.width_character (.one hascii), hblank]
  rfl

theorem solid_of_identityByte {b : UInt8} (h : isIdentityByte b = true) (rest : Bytes) :
    Solid (b :: rest) :=
  ⟨b, rest, rfl, identityByte_ascii h⟩

theorem solid_keyword {kind : TokenKind} (h : kind.isFixed = true) (tail : Bytes) :
    Solid (kind.keyword ++ tail) := by
  cases kind with
  | eof | error | identity | string | number | other => cases h
  | _ => exact ⟨_, _, rfl, by decide, by decide⟩

theorem solid_lexeme {kind : TokenKind} {text : Bytes} (h : Spelled kind text) (tail : Bytes) :
    Solid (lexeme kind text ++ tail) := by
  by_cases hfixed : kind.isFixed = true
  · obtain rfl := (spelled_fixed hfixed).1 h
    rw [lexeme_fixed hfixed]
    exact solid_keyword hfixed tail
  · cases kind with
    | number =>
      obtain ⟨b, rest, rfl, hb⟩ := h.cons
      exact solid_of_identityByte (by simp [isIdentityByte, isWordByte, hb]) _
    | identity =>
      cases text with
      | nil => cases h.1
      | cons b rest =>
        have hb : isLetter b = true := (Bool.and_eq_true_iff.1 h.1).1
        exact solid_of_identityByte (by simp [isIdentityByte, isWordByte, hb]) _
    | string => exact ⟨_, _, rfl, by decide, by decide⟩
    | _ => exact absurd h.1 hfixed

theorem Spelled.lexeme_ne_nil {kind : TokenKind} {text : Bytes} (h : Spelled kind text) :
    lexeme kind text ≠ [] := by
  obtain ⟨b, rest, hcons, -⟩ := solid_lexeme h []
  rw [List.append_nil] at hcons
  simp [hcons]

/-! ## What follows a token -/

/-- The text cannot be read as the end of a token before it. -/
def Detached (text : Bytes) : Prop :=
  ∀ b ∈ text.head?, isIdentityByte b = false ∧ b ≠ 0x3D

namespace Apart

variable {kind : TokenKind} {text rest : Bytes}

/-- Less text behind a token is no part of it either. -/
theorem of_append {more : Bytes} (h : Apart kind text (rest ++ more)) : Apart kind text rest := by
  have hword : startsWithWord (rest ++ more) = false → startsWithWord rest = false := by
    cases rest with
    | nil => exact fun _ => rfl
    | cons b rest => exact id
  have hhead : ∀ b ∈ rest.head?, b ∈ (rest ++ more).head? := by
    cases rest with
    | nil => simp
    | cons b rest => simp
  have hfraction : startsWithFraction rest = true → startsWithFraction (rest ++ more) = true := by
    rcases rest with _ | ⟨b, _ | ⟨d, rest⟩⟩
    · exact fun h => by cases h
    · exact fun h => by cases h
    · exact id
  cases kind with
  | number => exact ⟨hword h.1, fun hstarts => h.2 (hfraction hstarts)⟩
  | identity => exact fun b hb => h b (hhead b hb)
  | and | or | not | isIn => exact hword h
  | less | greater => exact fun b hb => h b (hhead b hb)
  | _ => trivial

theorem not_identity_of_lead {b : UInt8} (h : b ≤ 0x20 ∨ 0x80 ≤ b) :
    isIdentityByte b = false ∧ b ≠ 0x3D := by
  simp only [isIdentityByte, isWordByte, isLetter, isDigit, UInt8.le_iff_toNat_le,
    Bool.or_eq_false_iff, Bool.and_eq_false_iff, decide_eq_false_iff_not, beq_eq_false_iff_ne,
    ne_eq, ← UInt8.toNat_inj] at h ⊢
  simp at *
  omega

theorem startsWithFraction_append {b : UInt8} (h : isIdentityByte b = false) (more : Bytes) :
    startsWithFraction (rest ++ b :: more) = startsWithFraction rest := by
  have hdigit := not_digit_of_not_word (not_word_of_not_identity h)
  have hpoint : (b == 0x2E) = false := (Bool.or_eq_false_iff.1 h).2
  rcases rest with _ | ⟨c, _ | ⟨d, rest⟩⟩
  · cases more <;> simp [startsWithFraction, hpoint]
  · simp [startsWithFraction, hdigit]
  · rfl

/-- A detached text does not go on with a token. -/
theorem append_detached {more : Bytes} (h : Apart kind text rest) (hmore : Detached more) :
    Apart kind text (rest ++ more) := by
  cases more with
  | nil => rwa [List.append_nil]
  | cons b more =>
    obtain ⟨hidentity, hequal⟩ := hmore b rfl
    have hhead : ∀ c ∈ (rest ++ b :: more).head?, c ∈ rest.head? ∨ c = b := by
      cases rest <;> simp
    have hword : startsWithWord (rest ++ b :: more) = startsWithWord rest := by
      apply startsWithWord_append
      rintro c ⟨⟩
      exact not_word_of_not_identity hidentity
    have hpoint : startsWithFraction (rest ++ b :: more) = startsWithFraction rest :=
      startsWithFraction_append hidentity more
    cases kind with
    | number => exact ⟨hword ▸ h.1, fun hstarts => h.2 (hpoint ▸ hstarts)⟩
    | identity => exact fun c hc => (hhead c hc).elim (h c) fun heq => heq ▸ hidentity
    | and | or | not | isIn => exact hword.trans h
    | less | greater => exact fun c hc => (hhead c hc).elim (h c) fun heq => heq ▸ hequal
    | _ => trivial

end Apart

theorem Blanks.detached {gap : Bytes} (h : Blanks gap) (hne : gap ≠ []) (more : Bytes) :
    Detached (gap ++ more) := by
  obtain ⟨b, gap, rfl⟩ := List.exists_cons_of_ne_nil hne
  rintro c ⟨⟩
  exact Apart.not_identity_of_lead h.cons_lead

/-! ## Layouts -/

namespace Position

theorem advance_append (p : Position) (text more : Bytes) :
    p.advance (text ++ more) = (p.advance text).advance more :=
  List.foldl_append

theorem offset_advance (p : Position) (text : Bytes) :
    (p.advance text).offset = p.offset + text.length := by
  induction text generalizing p with
  | nil => rfl
  | cons b text ih =>
    have hstep : (p.step b).offset = p.offset + 1 := by
      rw [step]
      split <;> rfl
    rw [advance, List.foldl_cons, ← advance, ih, hstep, List.length_cons]
    omega

end Position

/-- The text at a position is these tokens in order, with white space around them: each token stands
at its own place, its text fits its kind, and what follows its lexeme is no part of it. -/
inductive Laid : Position → Bytes → List Token → Prop
  | blank {p : Position} {gap : Bytes} : Blanks gap → Laid p gap []
  | token {p : Position} {gap text rest : Bytes} {kind : TokenKind} {tokens : List Token} :
      Blanks gap → Spelled kind text → Apart kind text rest →
      Laid ((p.advance gap).advance (lexeme kind text)) rest tokens →
      Laid p (gap ++ (lexeme kind text ++ rest)) (.located (p.advance gap) kind text :: tokens)

namespace Lexes

variable {input tail : Bytes} {p : Position} {more : List Token} {ending : Ending}

theorem blanks {gap : Bytes} (hgap : Blanks gap) (htail : Blank.width tail = 0)
    (h : Lexes input (p.advance gap) tail more ending) :
    Lexes input p (gap ++ tail) more ending := by
  by_cases hne : gap = []
  · subst hne
    exact h
  · exact .skip (firstMatch_blanks hgap hne htail) rfl h

theorem lexeme {kind : TokenKind} {text : Bytes} (hspelled : Spelled kind text)
    (htail : Apart kind text tail)
    (h : Lexes input (p.advance (lexeme kind text)) tail more ending) :
    Lexes input p (FilterQuery.lexeme kind text ++ tail) (.located p kind text :: more) ending := by
  obtain ⟨r, hmatch, rfl, hskip, hvalue⟩ := firstMatch_lexeme hspelled htail
  have hlex := Lexes.token hmatch hskip h
  rwa [hvalue] at hlex

end Lexes

namespace Laid

variable {p : Position} {text : Bytes} {tokens : List Token}

/-- White space may stand in front of a layout. -/
theorem blank_append {gap : Bytes} (hgap : Blanks gap) (h : Laid (p.advance gap) text tokens) :
    Laid p (gap ++ text) tokens := by
  generalize hq : p.advance gap = q at h
  cases h with
  | blank hmore => exact .blank (hgap.append hmore)
  | @token _ gap' text rest kind tokens hgap' hspelled hapart hrest =>
    subst hq
    rw [← Position.advance_append p gap gap'] at hrest ⊢
    rw [← List.append_assoc]
    exact .token (hgap.append hgap') hspelled hapart hrest

/-- **A layout is read as its tokens.** -/
theorem lexes (h : Laid p text tokens) (input : Bytes) :
    Lexes input p text tokens (.finished (p.advance text)) := by
  induction h with
  | @blank p gap hgap =>
    have hend : Lexes input (p.advance gap) [] [] (.finished (p.advance gap)) := .finish _
    have hlex := Lexes.blanks hgap rfl hend
    rwa [List.append_nil] at hlex
  | token hgap hspelled hapart _ ih =>
    rw [Position.advance_append, Position.advance_append]
    exact .blanks hgap (solid_lexeme hspelled _).width (.lexeme hspelled hapart ih)

end Laid

/-- **What is read is laid out**: all of the text, or the part of it in front of a place where no
rule matches. -/
theorem Lexes.laid {input text : Bytes} {p : Position} {tokens : List Token} {ending : Ending}
    (h : Lexes input p text tokens ending) :
    ∃ taken rest, text = taken ++ rest ∧ Laid p taken tokens ∧
      (rest = [] ∧ ending = .finished (p.advance taken) ∨
        rest ≠ [] ∧ Rule.firstMatch filterDialect rest = none ∧
          ending = .failed input (p.advance taken)) := by
  induction h with
  | finish p => exact ⟨[], [], rfl, .blank .nil, .inl ⟨rfl, rfl⟩⟩
  | @fail p text hne hmatch => exact ⟨[], text, rfl, .blank .nil, .inr ⟨hne, hmatch, rfl⟩⟩
  | @skip p text gap rest r tokens ending hmatch hskip _ ih =>
    obtain ⟨taken, rest, rfl, hlaid, hend⟩ := ih
    refine ⟨gap ++ taken, rest, ?_, hlaid.blank_append (blanks_of_firstMatch hmatch hskip), ?_⟩
    · rw [(firstMatch_split hmatch).1, List.append_assoc]
    · rwa [Position.advance_append]
  | @token p text found rest r tokens ending hmatch hskip _ ih =>
    obtain ⟨taken, rest, rfl, hlaid, hend⟩ := ih
    obtain ⟨hspelled, hfound⟩ := spelled_of_firstMatch hmatch hskip
    refine ⟨found ++ taken, rest, ?_, ?_, ?_⟩
    · rw [(firstMatch_split hmatch).1, List.append_assoc]
    · have hapart := (apart_of_firstMatch hmatch).of_append
      rw [hfound] at hlaid
      have hfirst : Laid p (FilterQuery.lexeme r.kind (r.value found) ++ taken) _ :=
        .token .nil hspelled hapart hlaid
      rwa [← hfound] at hfirst
    · rwa [Position.advance_append]

theorem Lexes.laid_of_finished {input text : Bytes} {p p' : Position} {tokens : List Token}
    (h : Lexes input p text tokens (.finished p')) :
    Laid p text tokens ∧ Ending.finished p' = .finished (p.advance text) := by
  obtain ⟨taken, rest, rfl, hlaid, ⟨rfl, hend⟩ | ⟨-, -, hend⟩⟩ := h.laid
  · rw [List.append_nil]
    exact ⟨hlaid, hend⟩
  · cases hend

/-! ## Places of tokens -/

namespace Laid

variable {p : Position} {text : Bytes} {tokens : List Token}

theorem spelled (h : Laid p text tokens) : ∀ t ∈ tokens, Spelled t.kind t.text :=
  (h.lexes text).spelled

/-- Each lexeme starts at the offset of its token. -/
theorem lexeme_isPrefix (h : Laid p text tokens) :
    ∀ t ∈ tokens, p.offset ≤ t.pos ∧ lexeme t.kind t.text <+: text.drop (t.pos - p.offset) := by
  induction h with
  | blank => simp
  | @token p gap text rest kind tokens _ _ _ _ ih =>
    have hstart : (Token.located (p.advance gap) kind text).pos = p.offset + gap.length :=
      p.offset_advance gap
    rw [List.forall_mem_cons, hstart]
    refine ⟨⟨by omega, ?_⟩, fun t ht => ?_⟩
    · rw [Nat.add_sub_cancel_left, List.drop_left]
      exact List.prefix_append ..
    · obtain ⟨hle, hprefix⟩ := ih t ht
      rw [Position.offset_advance, Position.offset_advance] at hle hprefix
      refine ⟨by omega, ?_⟩
      have hoffset : t.pos - p.offset = gap.length + ((lexeme kind text).length +
          (t.pos - (p.offset + gap.length + (lexeme kind text).length))) := by omega
      rw [hoffset, List.drop_length_add_append, List.drop_length_add_append]
      exact hprefix

/-- Each lexeme ends before the next one starts. -/
theorem pairwise (h : Laid p text tokens) :
    tokens.Pairwise fun t u => t.pos + (lexeme t.kind t.text).length ≤ u.pos := by
  induction h with
  | blank => exact .nil
  | @token p gap text rest kind tokens _ _ _ hrest ih =>
    refine .cons (fun u hu => ?_) ih
    have hle := (hrest.lexeme_isPrefix u hu).1
    rw [Position.offset_advance] at hle
    exact hle

end Laid

/-! ## Lossless tokenization -/

/-- The token at the end of a text. -/
def Token.closing (text : Bytes) : Token :=
  .located (Position.start.advance text) .eof []

theorem Token.pos_closing (text : Bytes) : (Token.closing text).pos = text.length := by
  rw [Token.closing, Token.located, Position.offset_advance]
  exact Nat.zero_add _

theorem tokenize_of_laid {input : Bytes} {found : List Token} (h : Laid .start input found) :
    tokenize input = .ok (found ++ [.closing input]) :=
  tokenize_eq_ok.2 ⟨found, _, h.lexes input, rfl⟩

theorem laid_of_tokenize {input : Bytes} {tokens : List Token} (h : tokenize input = .ok tokens) :
    ∃ found, Laid .start input found ∧ tokens = found ++ [.closing input] := by
  obtain ⟨found, p, hlex, rfl⟩ := tokenize_eq_ok.1 h
  obtain ⟨hlaid, hend⟩ := hlex.laid_of_finished
  exact ⟨found, hlaid, by rw [(Ending.closed.inj hend).1, Token.closing]⟩

/-- An error splits the text into what is laid out and what no rule matches. -/
theorem laid_of_tokenize_error {input : Bytes} {e : LexError} (h : tokenize input = .error e) :
    ∃ taken rest found, input = taken ++ rest ∧ rest ≠ [] ∧ Laid .start taken found ∧
      Rule.firstMatch filterDialect rest = none ∧ e = .at input (Position.start.advance taken) ∧
      Lexes input .start input found (.failed input (Position.start.advance taken)) := by
  obtain ⟨found, ending, hlex⟩ := exists_lexes input .start input
  obtain ⟨taken, rest, htext, hlaid, ⟨rfl, rfl⟩ | ⟨hne, hmatch, rfl⟩⟩ := hlex.laid
  · rw [tokenize_eq_ok.2 ⟨found, _, hlex, rfl⟩] at h
    cases h
  · refine ⟨taken, rest, found, htext, hne, hlaid, hmatch, ?_, hlex⟩
    rw [tokenize, Lexer.stream_ofText hlex] at h
    cases h
    rfl

/-- **Tokens lose nothing of the text.** The stream of a text always ends with a closing token. The
text has tokens exactly if it is laid out; they are the tokens of the layout, none of them empty or
overlapping another, and then one end token. A lexical error stands at a place where no rule
matches, the text before it has the tokens that were given out before the error, and after it there
are end tokens only. -/
theorem tokenize_lossless (input : Bytes) :
    (∃ last error, (Lexer.ofText filterRules input).stream.2 = .closed last error) ∧
    (∀ found, Laid .start input found → tokenize input = .ok (found ++ [.closing input])) ∧
    (∀ tokens, tokenize input = .ok tokens →
      ∃ (found : List Token) (last : Token), tokens = found ++ [last] ∧ last.kind = .eof ∧
        last.text = [] ∧ last.pos = input.length ∧ Laid .start input found ∧
        (∀ t ∈ found, t.kind ≠ .eof ∧ Spelled t.kind t.text ∧ lexeme t.kind t.text ≠ [] ∧
          lexeme t.kind t.text <+: input.drop t.pos) ∧
        found.Pairwise fun t u => t.pos + (lexeme t.kind t.text).length ≤ u.pos) ∧
    ∀ e, tokenize input = .error e → e.pos < input.length ∧
      (∀ r ∈ filterDialect, r.pattern.split (input.drop e.pos) = none) ∧
      ∃ (found : List Token) (last failure : Token),
        tokenize (input.take e.pos) = .ok (found ++ [last]) ∧ last.kind = .eof ∧
        last.text = [] ∧ last.pos = e.pos ∧ failure.kind = .error ∧
        (∀ calls t, found[calls]? = some t →
          (Lexer.ofText filterRules input).answer calls = .ok t) ∧
        (Lexer.ofText filterRules input).answer found.length = .ok failure ∧
        ∀ calls, found.length < calls →
          (Lexer.ofText filterRules input).answer calls = .ok (.pastEnd input.length) := by
  refine ⟨?_, fun found => tokenize_of_laid, fun tokens h => ?_, fun e h => ?_⟩
  · obtain ⟨found, ending, hlex⟩ := exists_lexes input .start input
    obtain ⟨last, error, hend, -⟩ := Lexer.answer_between hlex le_rfl
    exact ⟨last, error, by rw [Lexer.stream_ofText hlex, hend]⟩
  · obtain ⟨found, hlaid, rfl⟩ := laid_of_tokenize h
    refine ⟨found, _, rfl, rfl, rfl, Token.pos_closing input, hlaid, fun t ht => ?_, hlaid.pairwise⟩
    have hspelled := hlaid.spelled t ht
    refine ⟨fun heof => ?_, hspelled, hspelled.lexeme_ne_nil, (hlaid.lexeme_isPrefix t ht).2⟩
    rw [heof] at hspelled
    cases hspelled.1
  · obtain ⟨taken, rest, found, rfl, hne, hlaid, hmatch, rfl, hlex⟩ := laid_of_tokenize_error h
    have hpos : (LexError.at (taken ++ rest) (Position.start.advance taken)).pos = taken.length :=
      Token.pos_closing taken
    rw [hpos, List.take_left, List.drop_left, Lexer.ofText_filterRules]
    obtain ⟨failure, error, hend, htokens, hfailure, hpast⟩ := Lexer.answer_between hlex le_rfl
    cases hend
    refine ⟨?_, Rule.firstMatch_eq_none.1 hmatch, found, _, _, tokenize_of_laid hlaid, rfl, rfl,
      Token.pos_closing taken, rfl, htokens, hfailure, hpast⟩
    rw [List.length_append]
    have := List.length_pos_iff.2 hne
    omega

end FilterQuery
