import FilterQuery.Proofs.Layout

/-!
# Classes of characters

The rules look at bytes, and most of the classes that they look for are ASCII. Here a text is read
character by character, with a stray byte read as the replacement character.

**Theorem (`AsciiClass.lead`).** The characters of an ASCII class at the start of a text are the
bytes of that class at its start, whatever bytes follow. White space is no ASCII class; its
characters are as long as the run of white space that is skipped (`Blank.length_lead`).
-/

namespace FilterQuery

/-! ## Reading characters -/

namespace Utf8

/-- The code point of a chunk; a stray byte has that of the replacement character. -/
def Chunk.rune (chunk : Chunk) : Nat :=
  chunk.code.getD replacement

/-- The code point at the start of a text and its width. -/
def decode : Bytes → Nat × Nat
  | [] => (replacement, 0)
  | b :: rest => ((chunkAt b rest).rune, (chunkAt b rest).bytes.length)

/-- The code point at the start of a text, if there is one. -/
def firstRune? : Bytes → Option Nat
  | [] => none
  | b :: rest => some (decode (b :: rest)).1

/-- The characters of a class at the start of a text. -/
def lead (p : Nat → Bool) (text : Bytes) : Bytes :=
  ((chunks text).takeWhile fun chunk => p chunk.rune).flatMap (·.bytes)

theorem decode_character {n : Nat} {bytes : Bytes} (h : Character n bytes) (rest : Bytes) :
    decode (bytes ++ rest) = (n, bytes.length) := by
  have hfirst := h.first? rest
  obtain ⟨b, more, rfl⟩ := List.exists_cons_of_ne_nil h.ne_nil
  rw [List.cons_append] at hfirst ⊢
  simp only [decode, chunkAt, hfirst, Chunk.rune]
  simp

theorem decode_stray {b : UInt8} {rest : Bytes} (h : first? (b :: rest) = none) :
    decode (b :: rest) = (replacement, 1) := by
  simp only [decode, chunkAt, h, Chunk.rune]
  rfl

@[simp] theorem lead_nil (p : Nat → Bool) : lead p [] = [] := rfl

theorem lead_character {n : Nat} {bytes : Bytes} (h : Character n bytes) (rest : Bytes)
    (p : Nat → Bool) : lead p (bytes ++ rest) = if p n then bytes ++ lead p rest else [] := by
  rw [lead, chunks_character h, List.takeWhile_cons]
  cases hp : p n with
  | true => simp [Chunk.rune, hp, lead]
  | false => simp [Chunk.rune, hp]

theorem lead_stray {b : UInt8} {rest : Bytes} (h : first? (b :: rest) = none) (p : Nat → Bool) :
    lead p (b :: rest) = if p replacement then b :: lead p rest else [] := by
  rw [lead, chunks_stray h, List.takeWhile_cons]
  cases hp : p replacement with
  | true => simp [Chunk.rune, hp, lead]
  | false => simp [Chunk.rune, hp]

/-- A text is read character by character, stray bytes as the replacement character. -/
theorem decode_induction {motive : Bytes → Prop} (text : Bytes) (nil : motive [])
    (char : ∀ (rune : Nat) (piece rest : Bytes), piece ≠ [] →
      decode (piece ++ rest) = (rune, piece.length) →
      (∀ p, lead p (piece ++ rest) = if p rune then piece ++ lead p rest else []) →
      motive rest → motive (piece ++ rest)) : motive text := by
  induction text using chunk_induction with
  | nil => exact nil
  | character rest hchar ih =>
    exact char _ _ rest hchar.ne_nil (decode_character hchar rest) (lead_character hchar rest) ih
  | @stray b rest hfirst ih =>
    exact char _ [b] rest (by simp) (decode_stray hfirst) (lead_stray hfirst) ih

theorem decode_pos {text : Bytes} (h : text ≠ []) :
    0 < (decode text).2 ∧ (decode text).2 ≤ text.length := by
  induction text using decode_induction with
  | nil => exact absurd rfl h
  | char _ _ rest hne hdecode _ _ =>
    rw [hdecode, List.length_append]
    exact ⟨List.length_pos_iff.2 hne, Nat.le_add_right ..⟩

theorem decode_ascii {b : UInt8} (h : b < 0x80) (rest : Bytes) :
    decode (b :: rest) = (b.toNat, 1) :=
  decode_character (.one h) rest

theorem Character.le_code {n : Nat} {b : UInt8} {more : Bytes} (h : Character n (b :: more))
    (hb : ¬ b < 0x80) : 0x80 ≤ n := by
  cases h with
  | one hlow => exact absurd hlow hb
  | two hlow _ _ hn =>
    have hlow : 0xC2 ≤ b.toNat := UInt8.le_iff_toNat_le.1 hlow
    omega
  | three _ _ _ _ _ hthree =>
    simp only [isThreeByte, Bool.and_eq_true, decide_eq_true_eq] at hthree
    omega
  | four _ _ _ _ _ _ hfour =>
    simp only [isFourByte, Bool.and_eq_true, decide_eq_true_eq] at hfour
    omega

theorem le_decode {b : UInt8} (h : ¬ b < 0x80) (rest : Bytes) : 0x80 ≤ (decode (b :: rest)).1 := by
  cases hfirst : first? (b :: rest) with
  | none => simp [decode_stray hfirst, replacement]
  | some found =>
    obtain ⟨bytes, more, htext, hchar, -⟩ := exists_character hfirst
    obtain ⟨c, bytes, rfl⟩ := List.exists_cons_of_ne_nil hchar.ne_nil
    obtain ⟨rfl, -⟩ := List.cons.inj htext
    rw [htext, decode_character hchar]
    exact hchar.le_code h

end Utf8

/-! ## Classes of characters -/

/-- `a`–`z` or `A`–`Z`. -/
def isLetterRune (n : Nat) : Bool :=
  (0x61 ≤ n && n ≤ 0x7A) || (0x41 ≤ n && n ≤ 0x5A)

/-- A letter, a digit or an underscore. -/
def isWordRune (n : Nat) : Bool :=
  isLetterRune n || (0x30 ≤ n && n ≤ 0x39) || n == 0x5F

/-- A character of a word, or the dot of a field path. -/
def isIdentityRune (n : Nat) : Bool :=
  isWordRune n || n == 0x2E

/-- The characters of an ASCII text. -/
def isOneOf (valid : Bytes) (n : Nat) : Bool :=
  valid.any (·.toNat == n)

/-- The decimal digits. -/
def decimalDigits : Bytes := ascii "0123456789"

/-- A class of ASCII characters, given for code points and for bytes. -/
structure AsciiClass (p : Nat → Bool) (q : UInt8 → Bool) : Prop where
  byte : ∀ b : UInt8, p b.toNat = q b
  high : ∀ n, 0x80 ≤ n → p n = false

namespace AsciiClass

variable {p : Nat → Bool} {q : UInt8 → Bool}

theorem byte_high (h : AsciiClass p q) {b : UInt8} (hb : ¬ b < 0x80) : q b = false := by
  rw [← h.byte b]
  exact h.high _ (Nat.le_of_not_lt fun hlt => hb (UInt8.lt_iff_toNat_lt.2 hlt))

/-- The first character is in the class just when the first byte is. -/
theorem decode (h : AsciiClass p q) (b : UInt8) (rest : Bytes) :
    p (Utf8.decode (b :: rest)).1 = q b ∧ (q b = true → (Utf8.decode (b :: rest)).2 = 1) := by
  by_cases hb : b < 0x80
  · rw [Utf8.decode_ascii hb]
    exact ⟨h.byte b, fun _ => rfl⟩
  · rw [h.byte_high hb]
    refine ⟨h.high _ (Utf8.le_decode hb rest), ?_⟩
    intro hin
    cases hin

theorem firstRune? (h : AsciiClass p q) (text : Bytes) :
    (Utf8.firstRune? text).any p = text.head?.any q := by
  cases text with
  | nil => rfl
  | cons b rest => exact (h.decode b rest).1

/-- **The characters of the class are its bytes.** -/
theorem lead (h : AsciiClass p q) (text : Bytes) : Utf8.lead p text = text.takeWhile q := by
  induction text using Utf8.decode_induction with
  | nil => rfl
  | char rune piece rest hne hdecode hlead ih =>
    obtain ⟨b, more, rfl⟩ := List.exists_cons_of_ne_nil hne
    obtain ⟨hclass, hwidth⟩ := h.decode b (more ++ rest)
    rw [← List.cons_append, hdecode] at hclass hwidth
    rw [hlead, hclass]
    cases hq : q b with
    | false => simp [hq]
    | true =>
      obtain rfl : more = [] := by simpa using hwidth hq
      simp [hq, ih]

end AsciiClass

theorem asciiClass_letter : AsciiClass isLetterRune isLetter where
  byte b := by simp [isLetterRune, isLetter, UInt8.le_iff_toNat_le]
  high n hn := by
    simp [isLetterRune]
    omega

theorem asciiClass_single {b : UInt8} (hb : b < 0x80) : AsciiClass (isOneOf [b]) (· == b) where
  byte c := by
    rw [Bool.eq_iff_iff]
    simp only [isOneOf, List.any_cons, List.any_nil, Bool.or_false, beq_iff_eq, ← UInt8.toNat_inj]
    exact eq_comm
  high n hn := by
    have hlt : b.toNat < 0x80 := UInt8.lt_iff_toNat_lt.1 hb
    simp [isOneOf]
    omega

theorem asciiClass_digit : AsciiClass (isOneOf decimalDigits) isDigit where
  byte b := by
    rw [Bool.eq_iff_iff]
    simp [isOneOf, decimalDigits, ascii, isDigit, UInt8.le_iff_toNat_le]
    omega
  high n hn := by
    simp [isOneOf, decimalDigits, ascii]
    omega

theorem asciiClass_word : AsciiClass isWordRune isWordByte where
  byte b := by
    rw [Bool.eq_iff_iff]
    simp [isWordRune, isWordByte, asciiClass_letter.byte, isDigit, UInt8.le_iff_toNat_le,
      ← UInt8.toNat_inj]
  high n hn := by
    simp [isWordRune, asciiClass_letter.high n hn]
    omega

theorem isIdentityByte_of_isLetter {b : UInt8} (h : isLetter b = true) : isIdentityByte b = true := by
  simp [isIdentityByte, isWordByte, h]

theorem asciiClass_identity : AsciiClass isIdentityRune isIdentityByte where
  byte b := by
    rw [Bool.eq_iff_iff]
    simp [isIdentityRune, isIdentityByte, asciiClass_word.byte, ← UInt8.toNat_inj]
  high n hn := by
    simp [isIdentityRune, asciiClass_word.high n hn]
    omega

/-- The white space at the start of a text is as long as its run of white-space characters. -/
theorem Blank.length_lead (text : Bytes) :
    (Utf8.lead Blank.isBlank text).length = Blank.run text := by
  induction text using Utf8.chunk_induction with
  | nil => rfl
  | @character n char rest hchar ih =>
    rw [Utf8.lead_character hchar]
    by_cases hblank : Blank.isBlank n = true
    · rw [if_pos hblank, List.length_append, ih, run_character hchar hblank]
    · rw [if_neg hblank, run_of_width_eq_zero, List.length_nil]
      rw [width_character hchar, if_neg hblank]
  | @stray b rest hfirst ih =>
    rw [Utf8.lead_stray hfirst, run_of_width_eq_zero]
    · rfl
    · rw [width, hfirst]

end FilterQuery
