import FilterQuery.Json.Read
import FilterQuery.Json.Write
import FilterQuery.Proofs.Chunks
import Mathlib.Tactic.ByContra
import Mathlib.Tactic.SplitIfs

/-!
# Written JSON reads back

**Theorem (`Json.readFirst_render`).** A value is written so that it can be read again: if its
literals are allowed and its arrays and objects are not nested deeper than a reader follows, then
reading gives back the value, its strings spelled as the escapes resolve them; if they are, the
reader refuses the text for its nesting, and for nothing else.

The reader is a walk with a stack, so everything is stated for a walk in the middle of a text:
reading a written value on top of a stack leads to the state behind that value, whatever follows
(`Reader.reaches_write`). The one thing that must follow a number is a byte that does not continue
it.

**Numbers.** What follows a literal depends on the part up to which it has been read
(`Reader.NumberPart.rest?`). Byte by byte, the walk does what the rules of literals say
(`Reader.NumberPart.rest?_cons`), so it stops where they do (`Reader.run_of_after?`).

**Levels.** `Reader.Reaches` bundles the two outcomes with the number of levels that decides between
them. Reading one part after another takes the larger number (`Reaches.trans`), which is how the
depth of a value is defined.
-/

namespace FilterQuery

/-! ## Chunks -/

namespace Utf8

/-- The chunk is a stray byte, one ASCII character, or a longer character without ASCII bytes. -/
def Chunk.IsRegular (chunk : Chunk) : Prop :=
  ∀ n ∈ chunk.code, (∃ b, chunk.bytes = [b] ∧ n = b.toNat) ∨ ∀ b ∈ chunk.bytes, 0x80 ≤ b

theorem isRegular_of_mem {text : Bytes} {chunk : Chunk} (h : chunk ∈ chunks text) :
    chunk.IsRegular := by
  induction text using chunk_induction with
  | nil => cases h
  | character rest hchar ih =>
    rw [chunks_character hchar] at h
    rcases List.mem_cons.1 h with rfl | h
    · rintro n ⟨⟩
      exact hchar.bytes_cases
    · exact ih h
  | stray hfirst ih =>
    rw [chunks_stray hfirst] at h
    rcases List.mem_cons.1 h with rfl | h
    · rintro n ⟨⟩
    · exact ih h

end Utf8

/-! ## Strings -/

namespace Json

/-- The text that is written between the quotes of a string. -/
def escapes (text : Bytes) : Bytes :=
  (Utf8.chunks text).flatMap escapeChunk

/-- A string after it has been written and read. -/
def respell (text : Bytes) : Bytes :=
  unquoteString (escapes text)

theorem isHexDigit_hexDigit {n : Nat} (h : n < 16) : isHexDigit (Bytes.hexDigit n) = true := by
  revert n
  decide

theorem Number.afterMinus_digit {d : UInt8} {rest : Bytes} (h : isDigit d = true) :
    Number.afterMinus (d :: rest) = d :: rest := by
  simp [Number.afterMinus, ne_of_isDigit h (b := 0x2D) (by decide)]

theorem Number.after?_head {text rest : Bytes} (h : Number.after? text = some rest) :
    ∃ b tail, text = b :: tail ∧ (b = 0x2D ∨ isDigit b = true) := by
  cases text with
  | nil => cases h
  | cons b tail =>
    refine ⟨b, tail, rfl, ?_⟩
    by_contra hb
    simp only [not_or, Bool.not_eq_true] at hb
    have hzero : b ≠ 0x30 := by
      rintro rfl
      exact absurd hb.2 (by decide)
    simp [Number.after?, Number.afterMinus, Number.afterInteger?, Number.afterDigits?, hb,
      hzero] at h

namespace Reader

/-- The piece of text stands in a string, and ends where an escape may start. -/
def Stands (piece : Bytes) : Prop :=
  ∀ isKey raw stack rest, run (.string isKey raw .none) stack (piece ++ rest) =
    run (.string isKey (piece.reverse ++ raw) .none) stack rest

theorem Stands.append {piece piece' : Bytes} (h : Stands piece) (h' : Stands piece') :
    Stands (piece ++ piece') := by
  intro isKey raw stack rest
  rw [List.append_assoc, h, h', List.reverse_append, List.append_assoc]

theorem stands_nil : Stands [] := fun _ _ _ _ => rfl

theorem stands_byte {b : UInt8} (hquote : b ≠ 0x22) (hslash : b ≠ 0x5C) (h : 0x20 ≤ b) :
    Stands [b] := by
  intro isKey raw stack rest
  have hcontrol : ¬ b < 0x20 := UInt8.not_lt.2 h
  simp [run, step, continueString, hquote, hslash, hcontrol]

theorem stands_bytes {bytes : Bytes} (h : ∀ b ∈ bytes, Stands [b]) : Stands bytes := by
  induction bytes with
  | nil => exact stands_nil
  | cons b bytes ih =>
    exact (h b List.mem_cons_self).append (ih fun c hc => h c (List.mem_cons_of_mem _ hc))

theorem run_hexDigits {digits : Bytes} (hdigits : ∀ b ∈ digits, isHexDigit b = true) {more : Nat}
    (hlength : digits.length = more + 1) (isKey : Bool) (raw : Bytes) (stack : List Level)
    (rest : Bytes) : run (.string isKey raw (.hex more)) stack (digits ++ rest) =
      run (.string isKey (digits.reverse ++ raw) .none) stack rest := by
  induction digits generalizing raw more with
  | nil => cases hlength
  | cons b digits ih =>
    have hb := hdigits b List.mem_cons_self
    simp only [List.cons_append, run, step, continueString, hb, if_true]
    cases more with
    | zero =>
      obtain rfl := List.eq_nil_of_length_eq_zero (Nat.succ.inj hlength)
      rfl
    | succ more =>
      rw [if_neg (Nat.succ_ne_zero more), Nat.add_sub_cancel,
        ih (fun c hc => hdigits c (List.mem_cons_of_mem b hc)) (Nat.succ.inj hlength),
        List.reverse_cons, List.append_assoc, List.singleton_append]

theorem stands_hexDigits {digits : Bytes} (hdigits : ∀ b ∈ digits, isHexDigit b = true)
    (hlength : digits.length = 4) : Stands (0x5C :: 0x75 :: digits) := by
  intro isKey raw stack rest
  calc run (.string isKey raw .none) stack (0x5C :: 0x75 :: digits ++ rest)
    _ = run (.string isKey (0x75 :: 0x5C :: raw) (.hex 3)) stack (digits ++ rest) := rfl
    _ = run (.string isKey (digits.reverse ++ 0x75 :: 0x5C :: raw) .none) stack rest :=
      run_hexDigits hdigits hlength ..
    _ = run (.string isKey ((0x5C :: 0x75 :: digits).reverse ++ raw) .none) stack rest := by simp

theorem stands_hex (n : Nat) : Stands ([0x5C, 0x75] ++ Bytes.hex 4 n) := by
  have hdigit (m : Nat) : isHexDigit (Bytes.hexDigit (m % 16)) = true :=
    isHexDigit_hexDigit (Nat.mod_lt _ (by decide))
  exact stands_hexDigits (by simp [Bytes.hex, hdigit]) (by simp [Bytes.hex])

theorem stands_short {b : UInt8} (h : (ascii "bfnrt\\/\"").contains b = true) :
    Stands [0x5C, b] := by
  intro isKey raw stack rest
  simp only [List.cons_append, List.nil_append, run, step, continueString, h]
  rfl

theorem stands_escape {n : Nat} {text : Bytes} (h : escape? n = some text) : Stands text := by
  simp only [escape?] at h
  split at h
  case h_8 =>
    split at h
    · cases h
      exact stands_hex n
    · cases h
  all_goals
    cases h
    exact stands_short (by decide)

theorem escape?_eq_none {n : Nat} (h : escape? n = none) : n ≠ 0x22 ∧ n ≠ 0x5C ∧ 0x20 ≤ n := by
  refine ⟨?_, ?_, ?_⟩
  · rintro rfl
    cases h
  · rintro rfl
    cases h
  · by_contra hcontrol
    simp only [escape?] at h
    split at h
    case h_8 => simp [Nat.not_le.1 hcontrol] at h
    all_goals cases h

theorem stands_chunk {chunk : Utf8.Chunk} (h : chunk.IsRegular) : Stands (escapeChunk chunk) := by
  simp only [escapeChunk]
  split
  · exact stands_hex _
  next n hcode =>
  cases hescape : escape? n with
  | some text => exact stands_escape hescape
  | none =>
    obtain ⟨hquote, hslash, hcontrol⟩ := escape?_eq_none hescape
    rcases h n hcode with ⟨b, hbytes, rfl⟩ | hbytes
    · rw [hbytes]
      refine stands_byte ?_ ?_ (UInt8.le_iff_toNat_le.2 hcontrol)
      · rintro rfl
        exact hquote rfl
      · rintro rfl
        exact hslash rfl
    · refine stands_bytes fun b hb => ?_
      have hb' := hbytes b hb
      refine stands_byte ?_ ?_ ?_
      · rintro rfl
        exact absurd hb' (by decide)
      · rintro rfl
        exact absurd hb' (by decide)
      · exact UInt8.le_trans (by decide) hb'

theorem stands_chunks {chunks : List Utf8.Chunk} (h : ∀ chunk ∈ chunks, chunk.IsRegular) :
    Stands (chunks.flatMap escapeChunk) := by
  induction chunks with
  | nil => exact stands_nil
  | cons chunk chunks ih =>
    rw [List.flatMap_cons]
    exact (stands_chunk (h chunk List.mem_cons_self)).append
      (ih fun c hc => h c (List.mem_cons_of_mem _ hc))

/-- **What is written between quotes stands in a string**, whatever the bytes. -/
theorem stands_escapes (text : Bytes) : Stands (escapes text) :=
  stands_chunks fun _ => Utf8.isRegular_of_mem

theorem quoteString_append (text tail : Bytes) :
    quoteString text ++ tail = 0x22 :: (escapes text ++ 0x22 :: tail) := by
  simp [quoteString, escapes]

/-- A string is read up to its end. -/
theorem Stands.run_value {raw : Bytes} (h : Stands raw) (stack : List Level) (tail : Bytes) :
    run .value stack (0x22 :: (raw ++ 0x22 :: tail)) =
      run (.after (.string (unquoteString raw))) stack tail := by
  calc run .value stack (0x22 :: (raw ++ 0x22 :: tail))
    _ = run (.string false [] .none) stack (raw ++ 0x22 :: tail) := rfl
    _ = run (.string false (raw.reverse ++ []) .none) stack (0x22 :: tail) := h ..
    _ = run (.after (.string (unquoteString raw))) stack tail := by
      simp [run, step, continueString, endString]

/-- A key is read up to its end, and kept. -/
theorem Stands.run_key {raw : Bytes} (h : Stands raw) (members : List (Bytes × Json))
    (before : Bytes) (stack : List Level) (tail : Bytes) :
    run .key (.object members before :: stack) (0x22 :: (raw ++ 0x22 :: tail)) =
      run .colon (.object members (unquoteString raw) :: stack) tail := by
  calc run .key (.object members before :: stack) (0x22 :: (raw ++ 0x22 :: tail))
    _ = run (.string true [] .none) (.object members before :: stack) (raw ++ 0x22 :: tail) := rfl
    _ = run (.string true (raw.reverse ++ []) .none) (.object members before :: stack)
        (0x22 :: tail) := h ..
    _ = run .colon (.object members (unquoteString raw) :: stack) tail := by
      simp [run, step, continueString, endString]

theorem run_string (text : Bytes) (stack : List Level) (tail : Bytes) :
    run .value stack (quoteString text ++ tail) =
      run (.after (.string (respell text))) stack tail := by
  rw [quoteString_append, (stands_escapes text).run_value, respell]

theorem run_key (key : Bytes) (members : List (Bytes × Json)) (before : Bytes) (stack : List Level)
    (tail : Bytes) :
    run .key (.object members before :: stack) (quoteString key ++ 0x3A :: tail) =
      run .value (.object members (respell key) :: stack) tail := by
  rw [quoteString_append, (stands_escapes key).run_key]
  rfl

/-! ## Numbers -/

/-- The text does not go on as a number. -/
def Delimited (text : Bytes) : Prop :=
  ∀ b ∈ text.head?, isDigit b = false ∧ b ≠ 0x2E ∧ b ≠ 0x65 ∧ b ≠ 0x45

/-- A number may end in this part. -/
def NumberPart.isFinal : NumberPart → Bool
  | zero | integer | fraction | exponentDigits => true
  | minus | point | exponent | exponentSign => false

/-- What follows a literal that has been read up to one of its parts. -/
def NumberPart.rest? : NumberPart → Bytes → Option Bytes
  | minus, text =>
    ((Number.afterInteger? text).bind Number.afterFraction?).bind Number.afterExponent?
  | zero, text => (Number.afterFraction? text).bind Number.afterExponent?
  | integer, text => (Number.afterFraction? (text.dropWhile isDigit)).bind Number.afterExponent?
  | point, text => (Number.afterDigits? text).bind Number.afterExponent?
  | fraction, text => Number.afterExponent? (text.dropWhile isDigit)
  | exponent, text => Number.afterDigits? (Number.afterSign text)
  | exponentSign, text => Number.afterDigits? text
  | exponentDigits, text => some (text.dropWhile isDigit)

variable {part : NumberPart} {text rest tail : Bytes}

theorem continueNumber_end {b : UInt8} (h : part.isFinal = true)
    (hb : isDigit b = false ∧ b ≠ 0x2E ∧ b ≠ 0x65 ∧ b ≠ 0x45) :
    continueNumber b part = .error none := by
  obtain ⟨hdigit, hpoint, he, hE⟩ := hb
  cases part with
  | minus | point | exponent | exponentSign => cases h
  | _ => simp [continueNumber, hdigit, hpoint, he, hE]

theorem NumberPart.rest?_nil (part : NumberPart) :
    part.rest? [] = if part.isFinal then some [] else none := by
  cases part <;> rfl

/-- **One byte of a literal**: the walk and the literal's own rules agree on what it does. -/
theorem NumberPart.rest?_cons (part : NumberPart) (b : UInt8) (text : Bytes) :
    part.rest? (b :: text) =
      match continueNumber b part with
      | .ok next => next.rest? text
      | .error none => some (b :: text)
      | .error (some _) => none := by
  have hexponent : Number.afterExponent? (b :: text) =
      if b = 0x65 || b = 0x45 then exponent.rest? text else some (b :: text) := rfl
  have hzero : zero.rest? (b :: text) =
      if b = 0x2E then point.rest? text else Number.afterExponent? (b :: text) := by
    simp only [rest?, Number.afterFraction?]
    split_ifs <;> rfl
  cases part with
  | minus =>
    simp only [rest?, continueNumber, Number.afterInteger?, Number.afterDigits?]
    split_ifs <;> rfl
  | zero =>
    rw [hzero, hexponent]
    simp only [continueNumber]
    split_ifs <;> rfl
  | integer =>
    by_cases hdigit : isDigit b = true
    · simp only [rest?, continueNumber, List.dropWhile_cons, hdigit, if_true]
    · have hend : integer.rest? (b :: text) = zero.rest? (b :: text) := by
        simp only [rest?, List.dropWhile_cons, hdigit, Bool.false_eq_true, if_false]
      rw [hend, hzero, hexponent]
      simp only [continueNumber, hdigit, Bool.false_eq_true, if_false]
      split_ifs <;> rfl
  | point | exponentSign =>
    simp only [rest?, continueNumber, Number.afterDigits?]
    split_ifs <;> rfl
  | fraction =>
    by_cases hdigit : isDigit b = true
    · simp only [rest?, continueNumber, List.dropWhile_cons, hdigit, if_true]
    · simp only [rest?, continueNumber, List.dropWhile_cons, hdigit, Bool.false_eq_true, if_false,
        hexponent]
      split_ifs <;> rfl
  | exponent =>
    simp only [rest?, continueNumber, Number.afterSign]
    split_ifs with hsign hdigit
    · rfl
    · simp only [Number.afterDigits?, hdigit, if_true]
    · simp only [Number.afterDigits?, hdigit, Bool.false_eq_true, if_false]
  | exponentDigits =>
    simp only [rest?, continueNumber, List.dropWhile_cons]
    split_ifs <;> rfl

/-- A literal ends where it is not continued. -/
theorem NumberPart.rest?_append (h : part.rest? text = some []) (htail : Delimited tail) :
    part.rest? (text ++ tail) = some tail := by
  induction text generalizing part with
  | nil =>
    rw [rest?_nil] at h
    split at h
    · next hfinal =>
      cases tail with
      | nil => rw [List.append_nil, rest?_nil, if_pos hfinal]
      | cons b tail =>
        rw [List.nil_append, rest?_cons, continueNumber_end hfinal (htail b rfl)]
    · cases h
  | cons b text ih =>
    rw [rest?_cons] at h
    rw [List.cons_append, rest?_cons]
    split at h
    · exact ih h
    · cases h
    · cases h

/-- A number is read up to where its literal ends. -/
theorem run_of_rest? (h : part.rest? text = some rest) :
    ∃ digits, text = digits ++ rest ∧ ∀ raw stack, run (.number raw part) stack text =
      run (.after (.number (raw.reverse ++ digits))) stack rest := by
  induction text generalizing part with
  | nil =>
    rw [NumberPart.rest?_nil] at h
    split at h
    · next hfinal =>
      cases h
      refine ⟨[], rfl, fun raw stack => ?_⟩
      have hblank : continueNumber 0x20 part = .error none := continueNumber_end hfinal (by decide)
      simp only [run, atEnd, step, hblank, List.append_nil]
    · cases h
  | cons b text ih =>
    rw [NumberPart.rest?_cons] at h
    split at h
    · next next hstep =>
      obtain ⟨digits, rfl, hrun⟩ := ih h
      refine ⟨b :: digits, rfl, fun raw stack => ?_⟩
      simp only [run, step, hstep, hrun, List.reverse_cons, List.append_assoc,
        List.singleton_append]
    · next hstep =>
      cases h
      refine ⟨[], rfl, fun raw stack => ?_⟩
      simp only [run, step, hstep, List.append_nil]
    · cases h

theorem not_blank_of_number {b : UInt8} (hb : b = 0x2D ∨ isDigit b = true) :
    isBlank b = false ∧ b ≠ 0x5D := by
  rcases hb with rfl | hdigit
  · decide
  · have hother : ∀ c : UInt8, isDigit c = false → b ≠ c := fun c => ne_of_isDigit hdigit
    simp [isBlank, hother 0x20 (by decide), hother 0x09 (by decide), hother 0x0A (by decide),
      hother 0x0D (by decide), hother 0x5D (by decide)]

/-- A digit or a minus starts a number, and leads to the part that its literal goes on with. -/
theorem exists_startValue {b : UInt8} (hb : b = 0x2D ∨ isDigit b = true) :
    ∃ part : NumberPart, (∀ stack, startValue b stack = .proceed (.number [b] part) stack) ∧
      ∀ text, Number.after? (b :: text) = part.rest? text := by
  have hafter (text : Bytes) : Number.after? text =
      NumberPart.minus.rest? (Number.afterMinus text) := by
    simp only [Number.after?, NumberPart.rest?]
    cases Number.afterInteger? (Number.afterMinus text) with
    | none => rfl
    | some rest => cases hrest : Number.afterFraction? rest <;> simp [hrest]
  rcases hb with rfl | hdigit
  · exact ⟨.minus, fun stack => rfl, fun text => hafter _⟩
  have hother : ∀ c : UInt8, isDigit c = false → b ≠ c := fun c => ne_of_isDigit hdigit
  by_cases hzero : b = 0x30
  · subst hzero
    refine ⟨.zero, fun stack => rfl, fun text => ?_⟩
    rw [hafter, Number.afterMinus_digit hdigit]
    rfl
  · refine ⟨.integer, fun stack => ?_, fun text => ?_⟩
    · have hblank := (not_blank_of_number (.inr hdigit)).1
      simp [startValue, hblank, hother 0x7B (by decide), hother 0x5B (by decide),
        hother 0x22 (by decide), hother 0x2D (by decide), hzero, hdigit]
    · rw [hafter, Number.afterMinus_digit hdigit, NumberPart.rest?_cons]
      simp only [continueNumber, hzero, hdigit, if_false, if_true]

theorem after?_append {literal : Bytes} (h : Number.isLiteral literal = true)
    (htail : Delimited tail) : Number.after? (literal ++ tail) = some tail := by
  replace h : Number.after? literal = some [] := of_decide_eq_true h
  obtain ⟨b, digits, rfl, hb⟩ := Number.after?_head h
  obtain ⟨part, -, hafter⟩ := exists_startValue hb
  rw [List.cons_append, hafter]
  rw [hafter] at h
  exact NumberPart.rest?_append h htail

/-- **A number is read as far as its literal goes.** -/
theorem run_of_after? (h : Number.after? text = some rest) :
    ∃ literal, text = literal ++ rest ∧
      ∀ stack, run .value stack text = run (.after (.number literal)) stack rest := by
  obtain ⟨b, digits, rfl, hb⟩ := Number.after?_head h
  obtain ⟨part, hstart, hafter⟩ := exists_startValue hb
  rw [hafter] at h
  obtain ⟨digits, rfl, hrun⟩ := run_of_rest? h
  refine ⟨b :: digits, rfl, fun stack => ?_⟩
  simp only [run, step, hstart, hrun]
  rfl

theorem run_literal {literal : Bytes} (h : Number.isLiteral literal = true) (stack : List Level)
    (htail : Delimited tail) :
    run .value stack (literal ++ tail) = run (.after (.number literal)) stack tail := by
  obtain ⟨literal', heq, hrun⟩ := run_of_after? (after?_append h htail)
  rw [hrun, List.append_cancel_right heq]

end Reader

/-! ## Values that can be written -/

theorem badNumber?_number {literal : Bytes} :
    (number literal).badNumber? = none ↔ isWritable literal = true := by
  simp [badNumber?]

@[simp] theorem badNumberItems?_nil : badNumberItems? [] = none := rfl

@[simp] theorem badNumberItems?_cons {item : Json} {items : List Json} :
    badNumberItems? (item :: items) = none ↔
      item.badNumber? = none ∧ badNumberItems? items = none := by
  cases h : item.badNumber? <;> simp [badNumberItems?, h]

theorem badNumberMembers?_cons {key : Bytes} {value : Json} {members : List (Bytes × Json)} :
    badNumberMembers? ((key, value) :: members) = none ↔
      value.badNumber? = none ∧ badNumberMembers? members = none := by
  cases h : value.badNumber? <;> simp [badNumberMembers?, h]

theorem isLiteral_numberText {literal : Bytes} (h : isWritable literal = true) :
    Number.isLiteral (numberText literal) = true := by
  cases literal with
  | nil => decide
  | cons b literal => simpa [isWritable, numberText] using h

/-! ## Arrays and objects -/

mutual

/-- How deep arrays and objects are nested in a value. -/
def depth : Json → Nat
  | array items => 1 + depthItems items
  | object members => 1 + depthMembers members
  | _ => 0

/-- The largest depth among items. -/
def depthItems : List Json → Nat
  | [] => 0
  | item :: items => max item.depth (depthItems items)

/-- The largest depth among the values of members. -/
def depthMembers : List (Bytes × Json) → Nat
  | [] => 0
  | (_, value) :: members => max value.depth (depthMembers members)

end

mutual

/-- A value after it has been written and read. -/
def reread : Json → Json
  | null => null
  | bool b => bool b
  | number literal => number (numberText literal)
  | string text => string (respell text)
  | array items => array (rereadItems items)
  | object members => object (rereadMembers members)

/-- Items after they have been written and read. -/
def rereadItems : List Json → List Json
  | [] => []
  | item :: items => item.reread :: rereadItems items

/-- Members after they have been written and read. -/
def rereadMembers : List (Bytes × Json) → List (Bytes × Json)
  | [] => []
  | (key, value) :: members => (respell key, value.reread) :: rereadMembers members

end

namespace Reader

/-- Reading comes to the expected result, unless so many levels are more than may be open. -/
def Reaches (levels : Nat) (got expected : Except ReadError (Json × Bytes)) : Prop :=
  (levels ≤ maxNesting → got = expected) ∧
    (maxNesting < levels → ∃ b, got = .error (.misfit b .nesting))

namespace Reaches

variable {levels levels' : Nat} {got mid expected : Except ReadError (Json × Bytes)}

theorem of_eq (hlevels : levels ≤ maxNesting) (h : got = expected) : Reaches levels got expected :=
  ⟨fun _ => h, fun hdeep => absurd hdeep (Nat.not_lt.2 hlevels)⟩

theorem trans (h : Reaches levels got mid)
    (h' : levels ≤ maxNesting → Reaches levels' mid expected) :
    Reaches (max levels levels') got expected := by
  by_cases hlevels : levels ≤ maxNesting
  · obtain rfl := h.1 hlevels
    refine ⟨fun hle => (h' hlevels).1 (by omega), fun hlt => (h' hlevels).2 (by omega)⟩
  · exact ⟨fun hle => by omega, fun _ => h.2 (Nat.not_le.1 hlevels)⟩

end Reaches

theorem run_after_nil (v : Json) (tail : Bytes) : run (.after v) [] tail = .ok (v, tail) := by
  cases tail <;> rfl

theorem run_of_leave {b : UInt8} {state : State} {stack stack' : List Level} {v : Json}
    (h : step b stack state = leave v stack') (tail : Bytes) :
    run state stack (b :: tail) = run (.after v) stack' tail := by
  cases stack' with
  | nil =>
    rw [run_after_nil]
    simp only [run, h, leave]
  | cons level stack' => simp only [run, h, leave]

theorem reaches_of_enter {b : UInt8} {state state' : State} {stack : List Level} {level : Level}
    (h : step b stack state = enter state' level stack) (tail : Bytes) :
    Reaches (stack.length + 1) (run state stack (b :: tail))
      (run state' (level :: stack) tail) := by
  constructor
  · intro hle
    simp only [run, h, enter, if_pos (Nat.lt_of_succ_le hle)]
  · intro hlt
    refine ⟨b, ?_⟩
    simp only [run, h, enter, if_neg (Nat.not_lt.2 (Nat.le_of_lt_succ hlt))]

theorem delimited_moreItems (items : List Json) (tail : Bytes) :
    Delimited (writeMoreItems items (0x5D :: tail)) := by
  cases items <;> (rintro b ⟨⟩; decide)

theorem delimited_moreMembers (members : List (Bytes × Json)) (tail : Bytes) :
    Delimited (writeMoreMembers members (0x7D :: tail)) := by
  rcases members with _ | ⟨⟨key, value⟩, members⟩ <;> (rintro b ⟨⟩; decide)

/-- A written value starts with a byte that neither is a blank nor closes an array. -/
theorem write_head (v : Json) (hbad : v.badNumber? = none) (tail : Bytes) :
    ∃ b rest, v.write tail = b :: rest ∧ isBlank b = false ∧ b ≠ 0x5D := by
  match v with
  | .null => exact ⟨_, _, rfl, by decide⟩
  | .bool true => exact ⟨_, _, rfl, by decide⟩
  | .bool false => exact ⟨_, _, rfl, by decide⟩
  | .string text => exact ⟨_, _, rfl, by decide⟩
  | .array items => exact ⟨_, _, rfl, by decide⟩
  | .object members => exact ⟨_, _, rfl, by decide⟩
  | .number literal =>
    have hliteral := isLiteral_numberText (badNumber?_number.1 hbad)
    obtain ⟨b, rest, hliteral, hb⟩ := Number.after?_head (of_decide_eq_true hliteral)
    exact ⟨b, rest ++ tail, by rw [write, hliteral, List.cons_append], not_blank_of_number hb⟩

/-- Where an array may end at once, a value is read as anywhere else. -/
theorem run_firstItem (v : Json) (hbad : v.badNumber? = none) (stack : List Level) (tail : Bytes) :
    run .firstItem stack (v.write tail) = run .value stack (v.write tail) := by
  obtain ⟨b, rest, hwrite, hblank, hclose⟩ := write_head v hbad tail
  rw [hwrite]
  simp [run, step, hblank, hclose]

mutual

/-- **A written value is read again**, if there are levels enough for its depth. -/
theorem reaches_write (v : Json) (hbad : v.badNumber? = none) (stack : List Level)
    (hstack : stack.length ≤ maxNesting) (tail : Bytes) (htail : Delimited tail) :
    Reaches (stack.length + v.depth) (run .value stack (v.write tail))
      (run (.after v.reread) stack tail) := by
  match v with
  | .null => exact .of_eq hstack rfl
  | .bool true => exact .of_eq hstack rfl
  | .bool false => exact .of_eq hstack rfl
  | .string text => exact .of_eq hstack (run_string text stack tail)
  | .number literal =>
    have hliteral := isLiteral_numberText (badNumber?_number.1 hbad)
    exact .of_eq hstack (run_literal hliteral stack htail)
  | .array items =>
    have hopen : step 0x5B stack .value = enter .firstItem (.array []) stack := rfl
    have hread := (reaches_of_enter hopen (writeItems items (0x5D :: tail))).trans
      fun hle => reaches_items items hbad stack hle tail
    rwa [Nat.max_eq_right (Nat.le_add_right ..), Nat.add_assoc] at hread
  | .object members =>
    have hopen : step 0x7B stack .value = enter .firstKey (.object [] []) stack := rfl
    have hread := (reaches_of_enter hopen (writeMembers members (0x7D :: tail))).trans
      fun hle => reaches_members members hbad stack hle tail
    rwa [Nat.max_eq_right (Nat.le_add_right ..), Nat.add_assoc] at hread

theorem reaches_items (items : List Json) (hbad : badNumberItems? items = none)
    (stack : List Level) (hstack : stack.length + 1 ≤ maxNesting) (tail : Bytes) :
    Reaches (stack.length + 1 + depthItems items)
      (run .firstItem (.array [] :: stack) (writeItems items (0x5D :: tail)))
      (run (.after (.array (rereadItems items))) stack tail) := by
  match items with
  | [] => exact .of_eq hstack (run_of_leave rfl tail)
  | item :: items =>
    obtain ⟨hitem, hitems⟩ := badNumberItems?_cons.1 hbad
    rw [writeItems, run_firstItem item hitem]
    have hread := (reaches_write item hitem (.array [] :: stack) hstack _
      (delimited_moreItems items tail)).trans
      fun _ => reaches_moreItems items hitems item.reread [] stack hstack tail
    rwa [List.length_cons, Nat.add_max_add_left] at hread

theorem reaches_moreItems (items : List Json) (hbad : badNumberItems? items = none) (v : Json)
    (found : List Json) (stack : List Level) (hstack : stack.length + 1 ≤ maxNesting)
    (tail : Bytes) :
    Reaches (stack.length + 1 + depthItems items)
      (run (.after v) (.array found :: stack) (writeMoreItems items (0x5D :: tail)))
      (run (.after (.array (found.reverse ++ v :: rereadItems items))) stack tail) := by
  match items with
  | [] =>
    refine .of_eq hstack ?_
    rw [writeMoreItems, run_of_leave rfl tail]
    simp [rereadItems]
  | item :: items =>
    obtain ⟨hitem, hitems⟩ := badNumberItems?_cons.1 hbad
    have hcomma : run (.after v) (.array found :: stack)
          (writeMoreItems (item :: items) (0x5D :: tail)) =
        run .value (.array (v :: found) :: stack)
          (item.write (writeMoreItems items (0x5D :: tail))) := rfl
    rw [hcomma]
    have hread := (reaches_write item hitem (.array (v :: found) :: stack) hstack _
      (delimited_moreItems items tail)).trans
      fun _ => reaches_moreItems items hitems item.reread (v :: found) stack hstack tail
    rw [List.length_cons, Nat.add_max_add_left] at hread
    simpa [depthItems, rereadItems] using hread

theorem reaches_members (members : List (Bytes × Json)) (hbad : badNumberMembers? members = none)
    (stack : List Level) (hstack : stack.length + 1 ≤ maxNesting) (tail : Bytes) :
    Reaches (stack.length + 1 + depthMembers members)
      (run .firstKey (.object [] [] :: stack) (writeMembers members (0x7D :: tail)))
      (run (.after (.object (rereadMembers members))) stack tail) := by
  match members with
  | [] => exact .of_eq hstack (run_of_leave rfl tail)
  | (key, value) :: members =>
    obtain ⟨hvalue, hmembers⟩ := badNumberMembers?_cons.1 hbad
    have hkey := run_key key [] [] stack (value.write (writeMoreMembers members (0x7D :: tail)))
    have hfirst : run .firstKey (.object [] [] :: stack)
          (writeMembers ((key, value) :: members) (0x7D :: tail)) =
        run .key (.object [] [] :: stack)
          (writeMembers ((key, value) :: members) (0x7D :: tail)) := rfl
    rw [hfirst, writeMembers, hkey]
    have hread := (reaches_write value hvalue (.object [] (respell key) :: stack) hstack _
      (delimited_moreMembers members tail)).trans
      fun _ => reaches_moreMembers members hmembers (respell key) value.reread [] stack hstack tail
    rwa [List.length_cons, Nat.add_max_add_left] at hread

theorem reaches_moreMembers (members : List (Bytes × Json))
    (hbad : badNumberMembers? members = none) (k : Bytes) (v : Json)
    (found : List (Bytes × Json)) (stack : List Level) (hstack : stack.length + 1 ≤ maxNesting)
    (tail : Bytes) :
    Reaches (stack.length + 1 + depthMembers members)
      (run (.after v) (.object found k :: stack) (writeMoreMembers members (0x7D :: tail)))
      (run (.after (.object (found.reverse ++ (k, v) :: rereadMembers members))) stack tail) := by
  match members with
  | [] =>
    refine .of_eq hstack ?_
    rw [writeMoreMembers, run_of_leave rfl tail]
    simp [rereadMembers]
  | (key, value) :: members =>
    obtain ⟨hvalue, hmembers⟩ := badNumberMembers?_cons.1 hbad
    have hkey := run_key key ((k, v) :: found) [] stack
      (value.write (writeMoreMembers members (0x7D :: tail)))
    have hcomma : run (.after v) (.object found k :: stack)
          (writeMoreMembers ((key, value) :: members) (0x7D :: tail)) =
        run .key (.object ((k, v) :: found) [] :: stack)
          (quoteString key ++ 0x3A :: value.write (writeMoreMembers members (0x7D :: tail))) := rfl
    rw [hcomma, hkey]
    have hread := (reaches_write value hvalue (.object ((k, v) :: found) (respell key) :: stack)
      hstack _ (delimited_moreMembers members tail)).trans
      fun _ => reaches_moreMembers members hmembers (respell key) value.reread ((k, v) :: found)
        stack hstack tail
    rw [List.length_cons, Nat.add_max_add_left] at hread
    simpa [depthMembers, rereadMembers] using hread

end

end Reader

/-- **Reading what has been written.** A value whose literals JSON allows is read back up to the
spelling of strings if its depth is within bounds, and else it is refused for its nesting. -/
theorem readFirst_render {v : Json} (h : v.badNumber? = none) :
    (v.depth ≤ Reader.maxNesting → readFirst v.render = .ok (v.reread, [])) ∧
      (Reader.maxNesting < v.depth → ∃ b, readFirst v.render = .error (.misfit b .nesting)) := by
  have hread := Reader.reaches_write v h [] (Nat.zero_le _) [] (by rintro b ⟨⟩)
  rwa [Reader.run_after_nil, List.length_nil, Nat.zero_add] at hread

end Json

end FilterQuery
