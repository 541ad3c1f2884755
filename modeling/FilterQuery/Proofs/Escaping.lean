import FilterQuery.Proofs.JsonReading
import Mathlib.Data.List.TakeWhile

/-!
# What strings become in JSON

A string is written chunk by chunk: a stray byte as the escape of the replacement character, a
character that may not stand for itself as its escape, and any other character as it is. Resolving
the escapes gives each chunk back, so a string that is written and read is the string without its
stray bytes (`Json.respell_eq_sanitize`).

No byte of a written value is a control byte (`Json.noControl_render`), whatever the bytes of its
strings are: so a document stands on one line.
-/

namespace FilterQuery.Json

/-! ## Escapes resolved -/

section Equations

-- The patterns of `resolveFrom` overlap in six bytes, which takes many steps to unfold.
set_option maxRecDepth 4000

theorem resolveFrom_nil (resolved : Bytes) : resolveFrom resolved none [] = resolved.reverse := by
  rw [resolveFrom.eq_def]
  rfl

theorem resolveFrom_byte {b : UInt8} (h : b ≠ 0x5C) (resolved rest : Bytes) :
    resolveFrom resolved none (b :: rest) = resolveFrom (b :: resolved) none rest := by
  rw [resolveFrom.eq_def]
  split <;> simp_all [unpaired]

theorem resolveFrom_short {b : UInt8} (h : b ≠ 0x75) (resolved rest : Bytes) :
    resolveFrom resolved none (0x5C :: b :: rest) =
      resolveFrom (ofShortEscape b :: resolved) none rest := by
  rw [resolveFrom.eq_def]
  split
  · simp_all
  · simp_all
  · simp_all [unpaired]
  · next hshort heq =>
    cases heq
    exact (hshort b rest rfl rfl).elim

theorem resolveFrom_hex {w x y z : UInt8} (h : isHighSurrogate (hexValue4 w x y z) = false)
    (resolved rest : Bytes) :
    resolveFrom resolved none (0x5C :: 0x75 :: w :: x :: y :: z :: rest) =
      resolveFrom ((Utf8.encode (hexValue4 w x y z)).reverse ++ resolved) none rest := by
  rw [resolveFrom.eq_def]
  simp [unpaired, h]

end Equations

/-- The escapes in a piece of a string are resolved to a text, wherever the piece stands. -/
def Resolves (piece text : Bytes) : Prop :=
  ∀ resolved rest,
    resolveFrom resolved none (piece ++ rest) = resolveFrom (text.reverse ++ resolved) none rest

namespace Resolves

theorem nil : Resolves [] [] := by
  intro resolved rest
  rw [List.nil_append, List.reverse_nil, List.nil_append]

theorem append {piece text piece' text' : Bytes} (h : Resolves piece text)
    (h' : Resolves piece' text') : Resolves (piece ++ piece') (text ++ text') := by
  intro resolved rest
  rw [List.append_assoc, h, h', List.reverse_append, List.append_assoc]

theorem byte {b : UInt8} (h : b ≠ 0x5C) : Resolves [b] [b] := by
  intro resolved rest
  exact resolveFrom_byte h resolved rest

theorem bytes {text : Bytes} (h : ∀ b ∈ text, b ≠ 0x5C) : Resolves text text := by
  induction text with
  | nil => exact nil
  | cons b text ih =>
    show Resolves ([b] ++ text) ([b] ++ text)
    apply append (byte (h b List.mem_cons_self))
    exact ih fun c hc => h c (List.mem_cons_of_mem _ hc)

theorem short {b : UInt8} (h : b ≠ 0x75) : Resolves [0x5C, b] [ofShortEscape b] := by
  intro resolved rest
  exact resolveFrom_short h resolved rest

theorem hexValue_hexDigit {n : Nat} (h : n < 16) : hexValue (Bytes.hexDigit n) = n := by
  revert n
  decide

theorem hex {n : Nat} (h : n < 0x10000) (hsurrogate : n < 0xD800 ∨ 0xDFFF < n) :
    Resolves ([0x5C, 0x75] ++ Bytes.hex 4 n) (Utf8.encode n) := by
  intro resolved rest
  have hvalue : hexValue4 (Bytes.hexDigit (n / 16 / 16 / 16 % 16))
      (Bytes.hexDigit (n / 16 / 16 % 16)) (Bytes.hexDigit (n / 16 % 16))
      (Bytes.hexDigit (n % 16)) = n := by
    have hdigit (m : Nat) : hexValue (Bytes.hexDigit (m % 16)) = m % 16 :=
      hexValue_hexDigit (Nat.mod_lt _ (by decide))
    simp only [hexValue4, hdigit]
    omega
  have hhigh : isHighSurrogate n = false := by
    simp [isHighSurrogate]
    omega
  simp only [Bytes.hex, List.nil_append, List.cons_append]
  rw [resolveFrom_hex (by rwa [hvalue]), hvalue]

/-- An escape is resolved to the character that it was made for. -/
theorem escape {n : Nat} {piece : Bytes} (h : escape? n = some piece) :
    Resolves piece (Utf8.encode n) := by
  simp only [escape?] at h
  split at h
  case h_8 =>
    split at h
    · next hcond =>
      cases h
      simp only [Bool.or_eq_true, decide_eq_true_eq, beq_iff_eq] at hcond
      exact hex (by omega) (by omega)
    · cases h
  all_goals
    cases h
    exact short (by decide)

theorem chunk {n : Nat} {char : Bytes} (h : Utf8.Character n char) :
    Resolves (escapeChunk ⟨some n, char⟩) char := by
  simp only [escapeChunk]
  cases hescape : escape? n with
  | some piece =>
    rw [Option.getD_some]
    conv => arg 2; rw [← h.encode]
    exact escape hescape
  | none =>
    obtain ⟨-, hslash, -⟩ := Reader.escape?_eq_none hescape
    rw [Option.getD_none]
    apply bytes
    rcases h.bytes_cases with ⟨b, rfl, rfl⟩ | hbytes
    · rintro c hc rfl
      rw [List.mem_singleton] at hc
      exact hslash (congrArg UInt8.toNat hc).symm
    · rintro c hc rfl
      exact absurd (hbytes _ hc) (by decide)

/-- **What is written is resolved to the text without its stray bytes.** -/
theorem escapes (text : Bytes) : Resolves (Json.escapes text) (Utf8.sanitize text) := by
  induction text using Utf8.chunk_induction with
  | nil => exact nil
  | character rest hchar ih =>
    rw [Json.escapes, Utf8.chunks_character hchar, Utf8.sanitize_character hchar]
    exact (chunk hchar).append ih
  | stray hfirst ih =>
    rw [Json.escapes, Utf8.chunks_stray hfirst, Utf8.sanitize_stray hfirst]
    exact (hex (by decide) (by decide)).append ih

end Resolves

/-- **A string that is written and read is the string without its stray bytes.** -/
theorem respell_eq_sanitize (text : Bytes) : respell text = Utf8.sanitize text := by
  have hresolved := Resolves.escapes text [] []
  rw [List.append_nil, List.append_nil] at hresolved
  have hend : resolveFrom (Utf8.sanitize text).reverse none [] = Utf8.sanitize text := by
    rw [resolveFrom_nil, List.reverse_reverse]
  rw [respell, unquoteString, hresolved, hend, Utf8.sanitize_sanitize]

/-! ## Written values stand on one line -/

/-- The text has no control bytes. -/
def NoControl (text : Bytes) : Prop :=
  ∀ b ∈ text, 0x20 ≤ b

theorem Number.afterDigits?_eq_some {text rest : Bytes} (h : Number.afterDigits? text = some rest) :
    ∃ d ds, text = d :: (ds ++ rest) ∧ isDigit d = true ∧ ∀ b ∈ ds, isDigit b = true := by
  cases text with
  | nil => cases h
  | cons d text =>
    simp only [Number.afterDigits?] at h
    split at h
    · next hd =>
      cases h
      refine ⟨d, text.takeWhile isDigit, ?_, hd, fun b hb => List.mem_takeWhile_imp hb⟩
      rw [List.takeWhile_append_dropWhile]
    · cases h

namespace NoControl

/-- For a text that is given, the check can be evaluated. -/
theorem of_all {text : Bytes} (h : text.all (0x20 ≤ ·) = true) : NoControl text := by
  intro b hb
  exact of_decide_eq_true (List.all_eq_true.1 h b hb)

theorem append {text text' : Bytes} (h : NoControl text) (h' : NoControl text') :
    NoControl (text ++ text') :=
  fun b hb => (List.mem_append.1 hb).elim (h b) (h' b)

theorem cons {b : UInt8} {text : Bytes} (hb : 0x20 ≤ b) (h : NoControl text) :
    NoControl (b :: text) := by
  intro c hc
  rcases List.mem_cons.1 hc with rfl | hc
  · exact hb
  · exact h c hc

theorem of_digits {digits : Bytes} (h : ∀ b ∈ digits, isDigit b = true) : NoControl digits := by
  intro b hb
  have hdigit := h b hb
  simp only [isDigit, Bool.and_eq_true, decide_eq_true_eq] at hdigit
  exact UInt8.le_trans (by decide) hdigit.1

theorem hexDigit (n : Nat) : 0x20 ≤ Bytes.hexDigit (n % 16) := by
  have hall : ∀ m < 16, 0x20 ≤ Bytes.hexDigit m := by decide
  exact hall _ (Nat.mod_lt _ (by decide))

theorem hex (n : Nat) : NoControl ([0x5C, 0x75] ++ Bytes.hex 4 n) := by
  simp [NoControl, Bytes.hex, hexDigit]

theorem escape {n : Nat} {piece : Bytes} (h : escape? n = some piece) : NoControl piece := by
  simp only [escape?] at h
  split at h
  case h_8 =>
    split at h
    · cases h
      exact hex n
    · cases h
  all_goals
    cases h
    exact of_all rfl

theorem chunk {c : Utf8.Chunk} (h : c.IsRegular) : NoControl (escapeChunk c) := by
  simp only [escapeChunk]
  split
  · exact hex _
  next n hcode =>
  cases hescape : escape? n with
  | some piece => exact escape hescape
  | none =>
    obtain ⟨-, -, hcontrol⟩ := Reader.escape?_eq_none hescape
    rcases h n hcode with ⟨b, hbytes, rfl⟩ | hbytes
    · rw [Option.getD_none, hbytes]
      exact cons (UInt8.le_iff_toNat_le.2 hcontrol) (of_all rfl)
    · exact fun b hb => UInt8.le_trans (by decide) (hbytes b hb)

theorem quoteString (text : Bytes) : NoControl (Json.quoteString text) := by
  refine cons (by decide) (append ?_ (of_all rfl))
  intro b hb
  obtain ⟨c, hc, hb⟩ := List.mem_flatMap.1 hb
  exact chunk (Utf8.isRegular_of_mem hc) b hb

variable {text rest : Bytes}

theorem of_afterDigits (h : Number.afterDigits? text = some rest) (hrest : NoControl rest) :
    NoControl text := by
  obtain ⟨d, ds, rfl, hd, hds⟩ := Number.afterDigits?_eq_some h
  exact append (of_digits (List.forall_mem_cons.2 ⟨hd, hds⟩)) hrest

theorem of_afterInteger (h : Number.afterInteger? text = some rest) (hrest : NoControl rest) :
    NoControl text := by
  cases text with
  | nil => cases h
  | cons b text =>
    simp only [Number.afterInteger?] at h
    split at h
    · next hb =>
      cases h
      exact cons (by rw [hb]; decide) hrest
    · exact of_afterDigits h hrest

theorem of_afterFraction (h : Number.afterFraction? text = some rest) (hrest : NoControl rest) :
    NoControl text := by
  cases text with
  | nil => nofun
  | cons b text =>
    simp only [Number.afterFraction?] at h
    split at h
    · next hb => exact cons (by rw [hb]; decide) (of_afterDigits h hrest)
    · cases h
      exact hrest

theorem of_afterSign (h : NoControl (Number.afterSign text)) : NoControl text := by
  cases text with
  | nil => nofun
  | cons b text =>
    simp only [Number.afterSign] at h
    split at h
    · next hb =>
      refine cons ?_ h
      rcases (by simpa using hb : b = 0x2B ∨ b = 0x2D) with rfl | rfl <;> decide
    · exact h

theorem of_afterExponent (h : Number.afterExponent? text = some []) : NoControl text := by
  cases text with
  | nil => nofun
  | cons b text =>
    simp only [Number.afterExponent?] at h
    split at h
    · next hb =>
      refine cons ?_ (of_afterSign (of_afterDigits h nofun))
      rcases (by simpa using hb : b = 0x65 ∨ b = 0x45) with rfl | rfl <;> decide
    · cases h

theorem of_afterMinus (h : NoControl (Number.afterMinus text)) : NoControl text := by
  cases text with
  | nil => nofun
  | cons b text =>
    simp only [Number.afterMinus] at h
    split at h
    · next hb => exact cons (by rw [hb]; decide) h
    · exact h

theorem of_isLiteral (h : Number.isLiteral text = true) : NoControl text := by
  replace h := of_decide_eq_true h
  simp only [Number.after?] at h
  split at h
  · cases h
  next rest hint =>
  split at h
  · cases h
  next rest' hfrac =>
  exact of_afterMinus (of_afterInteger hint (of_afterFraction hfrac (of_afterExponent h)))

mutual

/-- **A written value has no control bytes**, if its literals are allowed. -/
theorem write (v : Json) (hbad : v.badNumber? = none) {tail : Bytes} (htail : NoControl tail) :
    NoControl (v.write tail) := by
  match v with
  | .null => exact append (of_all rfl) htail
  | .bool true => exact append (of_all rfl) htail
  | .bool false => exact append (of_all rfl) htail
  | .number literal =>
    exact append (of_isLiteral (isLiteral_numberText (badNumber?_number.1 hbad))) htail
  | .string text => exact append (quoteString text) htail
  | .array items => exact cons (by decide) (writeItems items hbad (cons (by decide) htail))
  | .object members => exact cons (by decide) (writeMembers members hbad (cons (by decide) htail))

theorem writeItems (items : List Json) (hbad : badNumberItems? items = none) {tail : Bytes}
    (htail : NoControl tail) : NoControl (Json.writeItems items tail) := by
  match items with
  | [] => exact htail
  | item :: items =>
    obtain ⟨hitem, hitems⟩ := badNumberItems?_cons.1 hbad
    exact write item hitem (writeMoreItems items hitems htail)

theorem writeMoreItems (items : List Json) (hbad : badNumberItems? items = none) {tail : Bytes}
    (htail : NoControl tail) : NoControl (Json.writeMoreItems items tail) := by
  match items with
  | [] => exact htail
  | item :: items =>
    obtain ⟨hitem, hitems⟩ := badNumberItems?_cons.1 hbad
    exact cons (by decide) (write item hitem (writeMoreItems items hitems htail))

theorem writeMembers (members : List (Bytes × Json)) (hbad : badNumberMembers? members = none)
    {tail : Bytes} (htail : NoControl tail) : NoControl (Json.writeMembers members tail) := by
  match members with
  | [] => exact htail
  | (key, value) :: members =>
    obtain ⟨hvalue, hmembers⟩ := badNumberMembers?_cons.1 hbad
    exact append (quoteString key)
      (cons (by decide) (write value hvalue (writeMoreMembers members hmembers htail)))

theorem writeMoreMembers (members : List (Bytes × Json)) (hbad : badNumberMembers? members = none)
    {tail : Bytes} (htail : NoControl tail) : NoControl (Json.writeMoreMembers members tail) := by
  match members with
  | [] => exact htail
  | (key, value) :: members =>
    obtain ⟨hvalue, hmembers⟩ := badNumberMembers?_cons.1 hbad
    exact append (cons (by decide) (quoteString key))
      (cons (by decide) (write value hvalue (writeMoreMembers members hmembers htail)))

end

end NoControl

/-- **A written value stands on one line.** -/
theorem noControl_render {v : Json} (h : v.badNumber? = none) : NoControl v.render :=
  .write v h nofun

end FilterQuery.Json
