import FilterQuery.Text.Utf8
import Mathlib.Data.Nat.Init

/-!
# Chunks of texts

A chunk is cut off a text by looking at its first bytes. `Character` says without looking at a text
which byte sequences are well formed and what they stand for, and the first sections tie the two
together: a well-formed sequence is found at the start of a text whatever follows it
(`Character.first?`), nothing else is found (`exists_character`), and encoding what was decoded
gives the sequence back (`Character.encode`).

**Texts are built from chunks.** `chunk_induction` goes over a text chunk by chunk: a well-formed
sequence or a stray byte, and the rest. The functions on chunks follow it. In particular a text with
its stray bytes replaced has none left (`sanitize_sanitize`), and one that had none is not changed
(`sanitize_of_isValid`).
-/

namespace FilterQuery.Utf8

/-! ## Well-formed sequences -/

/-- The well-formed sequences and their code points. -/
inductive Character : Nat → Bytes → Prop
  | one {a : UInt8} : a < 0x80 → Character a.toNat [a]
  | two {a b : UInt8} {n : Nat} : 0xC2 ≤ a → a ≤ 0xDF → isContinuation b = true →
      n = (a.toNat - 0xC0) * 0x40 + (b.toNat - 0x80) → Character n [a, b]
  | three {a b c : UInt8} {n : Nat} : 0xE0 ≤ a → a ≤ 0xEF → isContinuation b = true →
      isContinuation c = true →
      n = (a.toNat - 0xE0) * 0x1000 + (b.toNat - 0x80) * 0x40 + (c.toNat - 0x80) →
      isThreeByte n = true → Character n [a, b, c]
  | four {a b c d : UInt8} {n : Nat} : 0xF0 ≤ a → a ≤ 0xF4 → isContinuation b = true →
      isContinuation c = true → isContinuation d = true →
      n = (a.toNat - 0xF0) * 0x40000 + (b.toNat - 0x80) * 0x1000 + (c.toNat - 0x80) * 0x40
        + (d.toNat - 0x80) →
      isFourByte n = true → Character n [a, b, c, d]

theorem not_lt_of_lead {a lead : UInt8} (h : lead ≤ a) (hlead : 0x80 ≤ lead) : ¬ a < 0x80 :=
  UInt8.not_lt.2 (UInt8.le_trans hlead h)

theorem not_le_of_lead {a lead : UInt8} (last : UInt8) (h : lead ≤ a) (hlead : last < lead) :
    ¬ a ≤ last :=
  UInt8.not_le.2 (UInt8.lt_of_lt_of_le hlead h)

theorem le_of_isContinuation {b : UInt8} (h : isContinuation b = true) : 0x80 ≤ b :=
  of_decide_eq_true (Bool.and_eq_true_iff.1 h).1

theorem not_isContinuation {b : UInt8} (h : b < 0x80 ∨ 0xBF < b) : isContinuation b = false := by
  rcases h with h | h
  · simp [isContinuation, UInt8.not_le.2 h]
  · simp [isContinuation, UInt8.not_le.2 h]

namespace Character

variable {n : Nat} {bytes : Bytes}

theorem ne_nil (h : Character n bytes) : bytes ≠ [] := by
  cases h <;> simp

/-- A sequence is one ASCII byte, or has no ASCII byte in it. -/
theorem bytes_cases (h : Character n bytes) :
    (∃ b, bytes = [b] ∧ n = b.toNat) ∨ ∀ b ∈ bytes, 0x80 ≤ b := by
  cases h with
  | @one a _ => exact .inl ⟨a, rfl, rfl⟩
  | @two a b _ hlo _ hb =>
    have ha : 0x80 ≤ a := UInt8.le_trans (by decide) hlo
    simp [ha, le_of_isContinuation hb]
  | @three a b c _ hlo _ hb hc =>
    have ha : 0x80 ≤ a := UInt8.le_trans (by decide) hlo
    simp [ha, le_of_isContinuation hb, le_of_isContinuation hc]
  | @four a b c d _ hlo _ hb hc hd =>
    have ha : 0x80 ≤ a := UInt8.le_trans (by decide) hlo
    simp [ha, le_of_isContinuation hb, le_of_isContinuation hc, le_of_isContinuation hd]

/-- All bytes of a sequence but the first one continue it. -/
theorem lead {b : UInt8} {more : Bytes} (h : Character n (b :: more)) :
    isContinuation b = false ∧ ∀ c ∈ more, isContinuation c = true := by
  cases h with
  | one ha => exact ⟨not_isContinuation (.inl ha), nofun⟩
  | two hlo _ hb _ =>
    have hhigh : 0xBF < b := UInt8.lt_of_lt_of_le (by decide) hlo
    exact ⟨not_isContinuation (.inr hhigh), by simp [hb]⟩
  | three hlo _ hb hc _ _ =>
    have hhigh : 0xBF < b := UInt8.lt_of_lt_of_le (by decide) hlo
    exact ⟨not_isContinuation (.inr hhigh), by simp [hb, hc]⟩
  | four hlo _ hb hc hd _ _ =>
    have hhigh : 0xBF < b := UInt8.lt_of_lt_of_le (by decide) hlo
    exact ⟨not_isContinuation (.inr hhigh), by simp [hb, hc, hd]⟩

/-- A well-formed sequence is found whatever follows it. -/
theorem first? (h : Character n bytes) (rest : Bytes) :
    Utf8.first? (bytes ++ rest) = some (n, bytes.length) := by
  cases h with
  | one ha => simp only [List.cons_append, Utf8.first?, if_pos ha, List.length_singleton]
  | two hlo hhi hb hn =>
    have ha := not_lt_of_lead hlo (by decide)
    simp only [List.cons_append, List.nil_append, Utf8.first?, if_neg ha, hb, hlo, hhi, ← hn,
      Bool.not_true, Bool.false_eq_true, if_false, decide_true, Bool.and_self, if_true,
      List.length_cons, List.length_nil]
  | three hlo hhi hb hc hn hthree =>
    have ha := not_lt_of_lead hlo (by decide)
    have htwo := not_le_of_lead 0xDF hlo (by decide)
    simp only [List.cons_append, List.nil_append, Utf8.first?, if_neg ha, hb, hc, hlo, hhi, htwo,
      ← hn, hthree, Bool.not_true, Bool.false_eq_true, if_false, decide_true, decide_false,
      Bool.and_self, Bool.and_false, if_true, List.length_cons, List.length_nil]
  | four hlo hhi hb hc hd hn hfour =>
    have ha := not_lt_of_lead hlo (by decide)
    have htwo := not_le_of_lead 0xDF hlo (by decide)
    have hthree := not_le_of_lead 0xEF hlo (by decide)
    simp only [List.cons_append, List.nil_append, Utf8.first?, if_neg ha, hb, hc, hd, hlo, hhi,
      htwo, hthree, ← hn, hfour, Bool.not_true, Bool.false_eq_true, if_false, decide_true,
      decide_false, Bool.and_self, Bool.and_false, if_true, List.length_cons, List.length_nil]

end Character

/-- What is found is a well-formed sequence. -/
theorem exists_character {text : Bytes} {n width : Nat} : first? text = some (n, width) →
    ∃ bytes rest, text = bytes ++ rest ∧ Character n bytes ∧ width = bytes.length := by
  fun_cases first? text with
  | case2 a rest ha =>
    rintro ⟨⟩
    exact ⟨[a], rest, rfl, .one ha, rfl⟩
  | case5 a ha b rest hb hlead =>
    simp only [Option.some.injEq, Prod.mk.injEq, Bool.and_eq_true, decide_eq_true_eq,
      Bool.not_eq_true', Bool.not_eq_false] at hlead hb ⊢
    rintro ⟨hn, rfl⟩
    exact ⟨[a, b], rest, rfl, .two hlead.1 hlead.2 hb hn.symm, rfl⟩
  | case8 a ha b hb htwo c rest hc hlead n hthree =>
    simp only [Option.some.injEq, Prod.mk.injEq, Bool.and_eq_true, decide_eq_true_eq,
      Bool.not_eq_true', Bool.not_eq_false] at hlead hb hc ⊢
    rintro ⟨rfl, rfl⟩
    exact ⟨[a, b, c], rest, rfl, .three hlead.1 hlead.2 hb hc rfl hthree, rfl⟩
  | case12 a ha b hb htwo c hc hthree d rest hd hlead n hfour =>
    simp only [Option.some.injEq, Prod.mk.injEq, Bool.and_eq_true, decide_eq_true_eq,
      Bool.not_eq_true', Bool.not_eq_false] at hlead hb hc hd ⊢
    rintro ⟨rfl, rfl⟩
    exact ⟨[a, b, c, d], rest, rfl, .four hlead.1 hlead.2 hb hc hd rfl hfour, rfl⟩
  | _ => rintro ⟨⟩

/-! ## Encoding -/

namespace Character

variable {n : Nat} {bytes : Bytes}

theorem isContinuation_toNat {b : UInt8} (h : isContinuation b = true) :
    0x80 ≤ b.toNat ∧ b.toNat ≤ 0xBF := by
  simpa [isContinuation, UInt8.le_iff_toNat_le] using h

theorem toUInt8_of_toNat {b : UInt8} {n : Nat} (h : n = b.toNat) : n.toUInt8 = b := by
  rw [h]
  exact UInt8.ofNat_toNat

/-- **Encoding gives back the sequence that was decoded.** -/
theorem encode (h : Character n bytes) : Utf8.encode n = bytes := by
  cases h with
  | @one a ha =>
    have hlt : a.toNat < 0x80 := UInt8.lt_iff_toNat_lt.1 ha
    rw [Utf8.encode, if_pos hlt, toUInt8_of_toNat rfl]
  | @two a b n hlo hhi hb hn =>
    have hb := isContinuation_toNat hb
    have hlo : 0xC2 ≤ a.toNat := UInt8.le_iff_toNat_le.1 hlo
    have hhi : a.toNat ≤ 0xDF := UInt8.le_iff_toNat_le.1 hhi
    rw [Utf8.encode, if_neg (by omega), if_pos (by omega),
      toUInt8_of_toNat (b := a) (by omega), toUInt8_of_toNat (b := b) (by omega)]
  | @three a b c n hlo hhi hb hc hn hthree =>
    have hb := isContinuation_toNat hb
    have hc := isContinuation_toNat hc
    have hlo : 0xE0 ≤ a.toNat := UInt8.le_iff_toNat_le.1 hlo
    have hhi : a.toNat ≤ 0xEF := UInt8.le_iff_toNat_le.1 hhi
    have hlarge : 0x800 ≤ n := by
      simp only [isThreeByte, Bool.and_eq_true, decide_eq_true_eq] at hthree
      exact hthree.1
    have hsmall : n < 0x10000 := by omega
    rw [Utf8.encode, if_neg (by omega), if_neg (by omega), if_pos (by simp [hthree, hsmall]),
      toUInt8_of_toNat (b := a) (by omega), toUInt8_of_toNat (b := b) (by omega),
      toUInt8_of_toNat (b := c) (by omega)]
  | @four a b c d n hlo hhi hb hc hd hn hfour =>
    have hb := isContinuation_toNat hb
    have hc := isContinuation_toNat hc
    have hd := isContinuation_toNat hd
    have hlo : 0xF0 ≤ a.toNat := UInt8.le_iff_toNat_le.1 hlo
    have hhi : a.toNat ≤ 0xF4 := UInt8.le_iff_toNat_le.1 hhi
    have hlarge : 0x10000 ≤ n := by
      simp only [isFourByte, Bool.and_eq_true, decide_eq_true_eq] at hfour
      exact hfour.1
    rw [Utf8.encode, if_neg (by omega), if_neg (by omega), if_neg (by simp; omega), if_pos hfour,
      toUInt8_of_toNat (b := a) (by omega), toUInt8_of_toNat (b := b) (by omega),
      toUInt8_of_toNat (b := c) (by omega), toUInt8_of_toNat (b := d) (by omega)]

end Character

/-! ## Chunk by chunk -/

theorem chunksFrom_eq (found : List Chunk) (skip : Nat) (text : Bytes) :
    chunksFrom found skip text = found.reverse ++ chunks (text.drop skip) := by
  induction text generalizing found skip with
  | nil => simp [chunksFrom, chunks]
  | cons b rest ih =>
    cases skip with
    | succ skip => exact ih found skip
    | zero =>
      simp only [List.drop_zero, chunks, chunksFrom]
      rw [ih, ih [_]]
      simp

theorem chunks_cons (b : UInt8) (rest : Bytes) :
    chunks (b :: rest) =
      chunkAt b rest :: chunks (rest.drop ((chunkAt b rest).bytes.length - 1)) := by
  rw [chunks, chunksFrom, chunksFrom_eq]
  rfl

theorem chunks_character {n : Nat} {bytes : Bytes} (h : Character n bytes) (rest : Bytes) :
    chunks (bytes ++ rest) = ⟨some n, bytes⟩ :: chunks rest := by
  have hfirst := h.first? rest
  obtain ⟨b, more, rfl⟩ := List.exists_cons_of_ne_nil h.ne_nil
  have hchunk : chunkAt b (more ++ rest) = ⟨some n, b :: more⟩ := by
    rw [List.cons_append] at hfirst
    simp only [chunkAt, hfirst]
    simp
  rw [List.cons_append, chunks_cons, hchunk]
  simp

theorem chunks_stray {b : UInt8} {rest : Bytes} (h : first? (b :: rest) = none) :
    chunks (b :: rest) = ⟨none, [b]⟩ :: chunks rest := by
  have hchunk : chunkAt b rest = ⟨none, [b]⟩ := by simp only [chunkAt, h]
  rw [chunks_cons, hchunk]
  rfl

/-- A text is built from well-formed sequences and stray bytes. -/
theorem chunk_induction {motive : Bytes → Prop} (text : Bytes) (nil : motive [])
    (character : ∀ {n bytes} rest, Character n bytes → motive rest → motive (bytes ++ rest))
    (stray : ∀ {b rest}, first? (b :: rest) = none → motive rest → motive (b :: rest)) :
    motive text := by
  induction hlen : text.length using Nat.strong_induction_on generalizing text with
  | _ len ih =>
    cases text with
    | nil => exact nil
    | cons b rest =>
      cases hfirst : first? (b :: rest) with
      | none => exact stray hfirst (ih rest.length (by rw [← hlen]; simp) rest rfl)
      | some found =>
        obtain ⟨bytes, more, htext, hchar, -⟩ := exists_character hfirst
        have hpos := List.length_pos_iff.2 hchar.ne_nil
        rw [htext] at hlen ⊢
        rw [List.length_append] at hlen
        exact character more hchar (ih more.length (by omega) more rfl)

/-- The chunks of a text are the text. -/
theorem flatMap_chunks (text : Bytes) : (chunks text).flatMap (·.bytes) = text := by
  induction text using chunk_induction with
  | nil => rfl
  | character rest hchar ih => rw [chunks_character hchar, List.flatMap_cons, ih]
  | stray hfirst ih =>
    rw [chunks_stray hfirst, List.flatMap_cons, ih]
    rfl

/-- A chunk with a code point is a well-formed sequence. -/
theorem character_of_mem_chunks {text : Bytes} {chunk : Chunk} {n : Nat} (h : chunk ∈ chunks text)
    (hcode : chunk.code = some n) : Character n chunk.bytes := by
  induction text using chunk_induction with
  | nil => cases h
  | character rest hchar ih =>
    rw [chunks_character hchar] at h
    rcases List.mem_cons.1 h with rfl | h
    · cases hcode
      exact hchar
    · exact ih h
  | stray hfirst ih =>
    rw [chunks_stray hfirst] at h
    rcases List.mem_cons.1 h with rfl | h
    · cases hcode
    · exact ih h

/-- A stray byte stays one when a well-formed sequence comes behind it. -/
theorem first?_append {n : Nat} {b : UInt8} {more char : Bytes} (h : first? (b :: more) = none)
    (hchar : Character n char) (rest : Bytes) : first? (b :: (more ++ (char ++ rest))) = none := by
  cases hfound : first? (b :: (more ++ (char ++ rest))) with
  | none => rfl
  | some found =>
    obtain ⟨bytes, rest', htext, hbytes, -⟩ := exists_character hfound
    rw [← List.cons_append, List.append_eq_append_iff] at htext
    rcases htext with ⟨x, rfl, hx⟩ | ⟨x, hx, -⟩
    · cases x with
      | nil =>
        have hfirst := hbytes.first? []
        rw [List.append_nil, List.append_nil, h] at hfirst
        cases hfirst
      | cons c x =>
        -- The first byte of the sequence would continue another one.
        obtain ⟨d, char, rfl⟩ := List.exists_cons_of_ne_nil hchar.ne_nil
        obtain ⟨rfl, -⟩ := List.cons.inj hx
        have hcontinues := hbytes.lead.2 d (by simp)
        rw [hchar.lead.1] at hcontinues
        cases hcontinues
    · rw [hx, hbytes.first?] at h
      cases h

/-- A well-formed sequence is cut off whatever stands before it. -/
theorem chunks_append {n : Nat} {char : Bytes} (hchar : Character n char) (text rest : Bytes) :
    chunks (text ++ (char ++ rest)) = chunks text ++ chunks (char ++ rest) := by
  induction text using chunk_induction with
  | nil => rfl
  | character more hbytes ih =>
    rw [List.append_assoc, chunks_character hbytes, chunks_character hbytes, ih, List.cons_append]
  | stray hfirst ih =>
    rw [List.cons_append, chunks_stray (first?_append hfirst hchar rest), chunks_stray hfirst, ih,
      List.cons_append]

/-! ## Stray bytes replaced -/

theorem sanitize_character {n : Nat} {bytes : Bytes} (h : Character n bytes) (rest : Bytes) :
    sanitize (bytes ++ rest) = bytes ++ sanitize rest := by
  rw [sanitize, chunks_character h]
  rfl

theorem sanitize_stray {b : UInt8} {rest : Bytes} (h : first? (b :: rest) = none) :
    sanitize (b :: rest) = Utf8.encode replacement ++ sanitize rest := by
  rw [sanitize, chunks_stray h]
  rfl

theorem character_replacement : Character replacement (encode replacement) :=
  .three (a := 0xEF) (b := 0xBF) (c := 0xBD) (by decide) (by decide) (by decide) (by decide)
    (by decide) (by decide)

/-- **A text without stray bytes stays so.** -/
theorem sanitize_sanitize (text : Bytes) : sanitize (sanitize text) = sanitize text := by
  induction text using chunk_induction with
  | nil => rfl
  | character rest hchar ih =>
    rw [sanitize_character hchar, sanitize_character hchar, ih]
  | stray hfirst ih =>
    rw [sanitize_stray hfirst, sanitize_character character_replacement, ih]

theorem sanitize_of_isValid {text : Bytes} (h : isValid text = true) : sanitize text = text := by
  induction text using chunk_induction with
  | nil => rfl
  | character rest hchar ih =>
    rw [isValid, chunks_character hchar] at h
    rw [sanitize_character hchar, ih h]
  | stray hfirst ih =>
    rw [isValid, chunks_stray hfirst] at h
    cases h

end FilterQuery.Utf8
