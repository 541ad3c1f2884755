import FilterQuery.Proofs.JsonGrammar

/-!
# The first value of a text

**Theorem (`Json.readFirst_eq_ok`).** The reader takes from a text exactly the value that the text
starts with by the rules of JSON (`FirstValue`), and leaves what follows that value. Blanks may
stand in front, arrays and objects are nested no deeper than a reader follows, and a number is not
cut off: what follows it could not have gone on with it.

What is spelled is read (`Reader.passes_of_spells`). For the converse, a walk that comes to an end
is followed to the place behind the value that was due (`Reader.Sound`), by induction on the length
of the text: behind an opening bracket the text is shorter, and the walk cannot end before the
bracket is closed.
-/

namespace FilterQuery.Json

/-- The text starts with a value, behind blanks or at once, which is nested so deep at most. If the
value is a number, the rest does not go on with it. -/
def FirstValue (limit : Nat) (text : Bytes) (v : Json) (rest : Bytes) : Prop :=
  ∃ gap piece, text = gap ++ (piece ++ rest) ∧ Gap gap ∧ Spells (.value v) piece ∧
    v.depth ≤ limit ∧ ∀ literal, v = .number literal → Number.Stops literal rest

/-- The value is a number. -/
def isNumber : Json → Bool
  | number _ => true
  | null | bool _ | string _ | array _ | object _ => false

theorem FirstValue.of_spells {limit : Nat} {piece : Bytes} {v : Json}
    (h : Spells (.value v) piece) (hdepth : v.depth ≤ limit) (hv : v.isNumber = false)
    (rest : Bytes) : FirstValue limit (piece ++ rest) v rest := by
  refine ⟨[], piece, rfl, .nil, h, hdepth, ?_⟩
  rintro literal rfl
  cases hv

theorem FirstValue.of_bracketed {limit : Nat} {opening closing : UInt8} {text : Bytes} {v : Json}
    (h : Spells (.value v) (opening :: (text ++ [closing]))) (hdepth : v.depth ≤ limit)
    (hv : v.isNumber = false) (rest : Bytes) :
    FirstValue limit (opening :: (text ++ closing :: rest)) v rest := by
  have hfirst := of_spells h hdepth hv rest
  rwa [List.cons_append, List.append_assoc] at hfirst

theorem FirstValue.append {limit : Nat} {gap text rest : Bytes} {v : Json} (hgap : Gap gap)
    (h : FirstValue limit text v rest) : FirstValue limit (gap ++ text) v rest := by
  obtain ⟨gap', piece, rfl, hgap', hpiece⟩ := h
  refine ⟨gap ++ gap', piece, by rw [List.append_assoc], ?_, hpiece⟩
  exact List.forall_mem_append.2 ⟨hgap, hgap'⟩

namespace Reader

variable {state : State} {stack : List Level} {text : Bytes} {v : Json} {out : Json × Bytes}

/-! ## Inside a value -/

/-- Where blanks are passed over, reading needs a byte that is none. -/
theorem exists_byte (h : state.isWaiting stack = true) (hrun : run state stack text = .ok out) :
    ∃ gap b rest, text = gap ++ b :: rest ∧ Gap gap ∧ isBlank b = false ∧
      run state stack (b :: rest) = .ok out := by
  induction text with
  | nil =>
    simp only [run, atEnd, step_blank h (b := 0x20) rfl] at hrun
    split at hrun <;> cases hrun
  | cons b text ih =>
    by_cases hb : isBlank b = true
    · simp only [run, step_blank h hb] at hrun
      obtain ⟨gap, c, rest, rfl, hgap, hc, hread⟩ := ih hrun
      exact ⟨b :: gap, c, rest, rfl, List.forall_mem_cons.2 ⟨hb, hgap⟩, hc, hread⟩
    · exact ⟨[], b, text, rfl, .nil, Bool.eq_false_iff.2 hb, hrun⟩

/-- What may still come before the end of the string. -/
def Escape.Leaves (text : Bytes) : Escape → Prop
  | none => Characters text
  | backslash => Characters (0x5C :: text)
  | hex more => ∃ digits rest, text = digits ++ rest ∧ digits.length = more + 1 ∧
      (∀ b ∈ digits, isHexDigit b = true) ∧ Characters rest

/-- **One byte of a string** ends it, goes on with it or does not fit. -/
theorem continueString_cases (b : UInt8) (isKey : Bool) (raw : Bytes) (escape : Escape)
    (stack : List Level) :
    (escape = .none ∧ b = 0x22) ∨
    (∃ next, continueString b isKey raw escape stack =
      .proceed (.string isKey (b :: raw) next) stack ∧
        ∀ text, next.Leaves text → escape.Leaves (b :: text)) ∨
    ∃ place, continueString b isKey raw escape stack = .misfit place := by
  cases escape with
  | none =>
    by_cases hquote : b = 0x22
    · exact .inl ⟨rfl, hquote⟩
    refine .inr ?_
    simp only [continueString, if_neg hquote]
    by_cases hslash : b = 0x5C
    · subst hslash
      exact .inl ⟨.backslash, by simp, fun text h => h⟩
    by_cases hcontrol : b < 0x20
    · exact .inr ⟨.string, by simp [hslash, hcontrol]⟩
    · refine .inl ⟨.none, by simp [hslash, hcontrol], fun text h => ?_⟩
      exact .plain hquote hslash (UInt8.not_lt.1 hcontrol) h
  | backslash =>
    refine .inr ?_
    simp only [continueString]
    by_cases hshort : (ascii "bfnrt\\/\"").contains b = true
    · exact .inl ⟨.none, by simp only [hshort, if_true], fun text h => .short hshort h⟩
    by_cases hhex : b = 0x75
    · subst hhex
      refine .inl ⟨.hex 3, rfl, ?_⟩
      rintro text ⟨digits, rest, rfl, hlength, hdigits, hrest⟩
      exact .hex hlength hdigits hrest
    · exact .inr ⟨.escape, by simp only [hshort, hhex, Bool.false_eq_true, if_false]⟩
  | hex more =>
    refine .inr ?_
    simp only [continueString]
    by_cases hb : isHexDigit b = true
    · refine .inl ⟨_, by rw [if_pos hb], fun text h => ?_⟩
      cases more with
      | zero => exact ⟨[b], text, rfl, rfl, by simpa using hb, h⟩
      | succ more =>
        obtain ⟨digits, rest, rfl, hlength, hdigits, hrest⟩ := h
        refine ⟨b :: digits, rest, rfl, ?_, List.forall_mem_cons.2 ⟨hb, hdigits⟩, hrest⟩
        rw [List.length_cons, hlength, Nat.add_sub_cancel]
    · exact .inr ⟨.hexEscape, if_neg hb⟩

/-- A string is read up to a quote, and what stands before that quote may stand in a string. -/
theorem exists_string {isKey : Bool} {raw : Bytes} {escape : Escape}
    (h : run (.string isKey raw escape) stack text = .ok out) :
    ∃ piece tail, text = piece ++ 0x22 :: tail ∧ escape.Leaves piece ∧
      run (.string isKey (piece.reverse ++ raw) .none) stack (0x22 :: tail) = .ok out := by
  induction text generalizing raw escape with
  | nil =>
    simp only [run, atEnd, step] at h
    rcases continueString_cases 0x20 isKey raw escape stack with
      ⟨-, hquote⟩ | ⟨next, hnext, -⟩ | ⟨place, hmisfit⟩
    · cases hquote
    · rw [hnext] at h
      cases h
    · rw [hmisfit] at h
      cases h
  | cons b text ih =>
    rcases continueString_cases b isKey raw escape stack with
      ⟨rfl, rfl⟩ | ⟨next, hnext, hleaves⟩ | ⟨place, hmisfit⟩
    · exact ⟨[], text, rfl, .nil, h⟩
    · simp only [run, step, hnext] at h
      obtain ⟨piece, tail, rfl, hpiece, hread⟩ := ih h
      refine ⟨b :: piece, tail, rfl, hleaves piece hpiece, ?_⟩
      rwa [List.reverse_cons, List.append_assoc, List.singleton_append]
    · simp only [run, step, hmisfit] at h
      cases h

theorem exists_word {word expected : Bytes} (hne : expected ≠ [])
    (h : run (.word word expected v) stack text = .ok out) :
    ∃ tail, text = expected ++ tail ∧ run (.after v) stack tail = .ok out := by
  induction expected generalizing text with
  | nil => exact absurd rfl hne
  | cons e expected ih =>
    cases text with
    | nil =>
      simp only [run, atEnd, step] at h
      split_ifs at h <;> cases h
    | cons b text =>
      by_cases hb : b = e
      · subst hb
        cases expected with
        | nil =>
          simp only [run, step, if_true, List.isEmpty_nil] at h
          exact ⟨text, rfl, h⟩
        | cons c expected =>
          simp only [run, step, if_true, List.isEmpty_cons, Bool.false_eq_true, if_false] at h
          obtain ⟨tail, rfl, hread⟩ := ih (List.cons_ne_nil c expected) h
          exact ⟨tail, rfl, hread⟩
      · simp only [run, step, if_neg hb] at h
        cases h

/-- Where a number is read, a literal ends. -/
theorem exists_rest?_of_run {part : NumberPart} {raw : Bytes}
    (h : run (.number raw part) stack text = .ok out) :
    ∃ rest, part.rest? text = some rest := by
  induction text generalizing part raw with
  | nil =>
    cases part with
    | zero | integer | fraction | exponentDigits => exact ⟨[], rfl⟩
    | minus | point | exponent | exponentSign => cases h
  | cons b text ih =>
    rw [NumberPart.rest?_cons]
    split
    · next next hstep =>
      simp only [run, step, hstep] at h
      exact ih h
    · exact ⟨b :: text, rfl⟩
    · next place hstep =>
      simp only [run, step, hstep] at h
      cases h

theorem exists_number {b : UInt8} (hb : b = 0x2D ∨ isDigit b = true)
    (h : run .value stack (b :: text) = .ok out) :
    ∃ literal tail, b :: text = literal ++ tail ∧ Number.isLiteral literal = true ∧
      Number.Stops literal tail ∧ run (.after (.number literal)) stack tail = .ok out := by
  obtain ⟨part, hstart, hafter⟩ := exists_startValue hb
  have hread : run (.number [b] part) stack text = .ok out := by
    simpa only [run, step, hstart] using h
  obtain ⟨tail, hrest⟩ := exists_rest?_of_run hread
  rw [← hafter] at hrest
  obtain ⟨literal, heq, hliteral, hstops⟩ := after?_eq_some.1 hrest
  obtain ⟨literal', heq', hrun⟩ := run_of_after? hrest
  obtain rfl := List.append_cancel_right (heq.symm.trans heq')
  exact ⟨literal, tail, heq, hliteral, hstops, (hrun stack).symm.trans h⟩

/-! ## Brackets -/

theorem of_enter {b : UInt8} {state state' : State} {level : Level}
    (hstep : step b stack state = enter state' level stack)
    (h : run state stack (b :: text) = .ok out) :
    stack.length < maxNesting ∧ run state' (level :: stack) text = .ok out := by
  obtain ⟨hfits, hdeep⟩ := reaches_of_enter hstep text
  by_cases hlt : stack.length < maxNesting
  · exact ⟨hlt, (hfits hlt).symm.trans h⟩
  · obtain ⟨c, herror⟩ := hdeep (Nat.lt_succ_of_le (Nat.not_lt.1 hlt))
    rw [herror] at h
    cases h

theorem value_byte {b : UInt8} (hblank : isBlank b = false)
    (h : run .value stack (b :: text) = .ok out) :
    b = 0x7B ∨ b = 0x5B ∨ b = 0x22 ∨ (b = 0x2D ∨ isDigit b = true) ∨
      b = 0x74 ∨ b = 0x66 ∨ b = 0x6E := by
  by_contra hb
  simp only [not_or, Bool.not_eq_true] at hb
  obtain ⟨hbrace, hbracket, hquote, ⟨hminus, hdigit⟩, ht, hf, hn⟩ := hb
  have hzero : b ≠ 0x30 := by
    rintro rfl
    cases hdigit
  simp [run, step, startValue, hblank, hbrace, hbracket, hquote, hminus, hzero, hdigit, ht, hf,
    hn] at h

/-- Behind an opening bracket there may be the closing one, or else what is due anyway. -/
theorem first_cases {level : Level} {first due : State} {closing : UInt8}
    (hfirst : first.isWaiting (level :: stack) = true)
    (hdue : due.isWaiting (level :: stack) = true)
    (hclose : step closing (level :: stack) first = leave v stack)
    (hother : ∀ b, isBlank b = false → b ≠ closing →
      step b (level :: stack) first = step b (level :: stack) due)
    (h : run first (level :: stack) text = .ok out) :
    (∃ gap tail, text = gap ++ closing :: tail ∧ Gap gap ∧ run (.after v) stack tail = .ok out) ∨
      run due (level :: stack) text = .ok out := by
  obtain ⟨gap, b, rest, rfl, hgap, hblank, hrun⟩ := exists_byte hfirst h
  by_cases hb : b = closing
  · subst hb
    rw [run_of_leave hclose] at hrun
    exact .inl ⟨gap, rest, rfl, hgap, hrun⟩
  · refine .inr ?_
    rw [run_gap hdue hgap]
    simpa only [run, hother b hblank hb] using hrun

/-- Behind an item or member there is the closing bracket, or a comma and what is due then. -/
theorem after_cases {level level' : Level} {due : State} {closing : UInt8} {whole : Json}
    (hclose : step closing (level :: stack) (.after v) = leave whole stack)
    (hcomma : step 0x2C (level :: stack) (.after v) = .proceed due (level' :: stack))
    (hother : ∀ b, isBlank b = false → b ≠ closing → b ≠ 0x2C →
      ∃ place, step b (level :: stack) (.after v) = .misfit place)
    (h : run (.after v) (level :: stack) text = .ok out) :
    ∃ gap rest, Gap gap ∧
      ((text = gap ++ closing :: rest ∧ run (.after whole) stack rest = .ok out) ∨
        (text = gap ++ 0x2C :: rest ∧ run due (level' :: stack) rest = .ok out)) := by
  obtain ⟨gap, b, rest, rfl, hgap, hblank, hrun⟩ := exists_byte rfl h
  refine ⟨gap, rest, hgap, ?_⟩
  by_cases hb : b = closing
  · subst hb
    rw [run_of_leave hclose] at hrun
    exact .inl ⟨rfl, hrun⟩
  by_cases hb' : b = 0x2C
  · subst hb'
    simp only [run, hcomma] at hrun
    exact .inr ⟨rfl, hrun⟩
  · obtain ⟨place, hmisfit⟩ := hother b hblank hb hb'
    simp only [run, hmisfit] at hrun
    cases hrun

/-- Where a key is due, a string and a colon are read. -/
theorem exists_key {found : List (Bytes × Json)} {before : Bytes}
    (h : run .key (.object found before :: stack) text = .ok out) :
    ∃ gap raw gap' rest, text = gap ++ 0x22 :: (raw ++ 0x22 :: (gap' ++ 0x3A :: rest)) ∧
      Gap gap ∧ Characters raw ∧ Gap gap' ∧
      run .value (.object found (unquoteString raw) :: stack) rest = .ok out := by
  obtain ⟨gap, b, rest, rfl, hgap, hblank, hrun⟩ := exists_byte rfl h
  have hquote : b = 0x22 := by
    by_contra hb
    simp [run, step, startKey, hblank, hb] at hrun
  subst hquote
  have hstring : run (.string true [] .none) (.object found before :: stack) rest = .ok out := hrun
  obtain ⟨raw, tail, rfl, hraw, -⟩ := exists_string hstring
  rw [(stands_of_characters hraw).run_key] at hrun
  obtain ⟨gap', c, rest, rfl, hgap', hblank', hcolon⟩ := exists_byte rfl hrun
  have hc : c = 0x3A := by
    by_contra hc
    simp [run, step, takeColon, hblank', hc] at hcolon
  subst hc
  exact ⟨gap, raw, gap', rest, rfl, hgap, hraw, hgap', hcolon⟩

/-! ## What is read is spelled -/

/-- What is read in the text has the form that is due. -/
structure Sound (text : Bytes) : Prop where
  value : ∀ {stack out}, run .value stack text = .ok out →
    ∃ v tail, FirstValue (maxNesting - stack.length) text v tail ∧
      run (.after v) stack tail = .ok out
  elements : ∀ {found stack out}, stack.length < maxNesting →
    run .value (.array found :: stack) text = .ok out →
    ∃ items piece tail, text = piece ++ 0x5D :: tail ∧ Spells (.elements items) piece ∧
      (array items).depth ≤ maxNesting - stack.length ∧
      run (.after (.array (found.reverse ++ items))) stack tail = .ok out
  members : ∀ {found before stack out}, stack.length < maxNesting →
    run .key (.object found before :: stack) text = .ok out →
    ∃ members piece tail, text = piece ++ 0x7D :: tail ∧ Spells (.members members) piece ∧
      (object members).depth ≤ maxNesting - stack.length ∧
      run (.after (.object (found.reverse ++ members))) stack tail = .ok out

theorem sound_array (ih : Sound text) (h : run .value stack (0x5B :: text) = .ok out) :
    ∃ v tail, FirstValue (maxNesting - stack.length) (0x5B :: text) v tail ∧
      run (.after v) stack tail = .ok out := by
  obtain ⟨hlt, hrun⟩ := of_enter rfl h
  have hother : ∀ b, isBlank b = false → b ≠ 0x5D → step b (.array [] :: stack) .firstItem =
      step b (.array [] :: stack) .value := by
    intro b hblank hb
    simp [step, hblank, hb]
  rcases first_cases rfl rfl rfl hother hrun with ⟨gap, tail, rfl, hgap, hread⟩ | hvalue
  · have hdepth : (array []).depth ≤ maxNesting - stack.length := Nat.le_sub_of_add_le' hlt
    exact ⟨.array [], tail, .of_bracketed (.emptyArray hgap) hdepth rfl tail, hread⟩
  · obtain ⟨items, piece, tail, rfl, hpiece, hdepth, hread⟩ := ih.elements hlt hvalue
    exact ⟨.array items, tail, .of_bracketed (.array hpiece) hdepth rfl tail, hread⟩

theorem sound_object (ih : Sound text) (h : run .value stack (0x7B :: text) = .ok out) :
    ∃ v tail, FirstValue (maxNesting - stack.length) (0x7B :: text) v tail ∧
      run (.after v) stack tail = .ok out := by
  obtain ⟨hlt, hrun⟩ := of_enter rfl h
  have hother : ∀ b, isBlank b = false → b ≠ 0x7D → step b (.object [] [] :: stack) .firstKey =
      step b (.object [] [] :: stack) .key := by
    intro b hblank hb
    simp [step, hblank, hb]
  rcases first_cases rfl rfl rfl hother hrun with ⟨gap, tail, rfl, hgap, hread⟩ | hkey
  · have hdepth : (object []).depth ≤ maxNesting - stack.length := Nat.le_sub_of_add_le' hlt
    exact ⟨.object [], tail, .of_bracketed (.emptyObject hgap) hdepth rfl tail, hread⟩
  · obtain ⟨members, piece, tail, rfl, hpiece, hdepth, hread⟩ := ih.members hlt hkey
    exact ⟨.object members, tail, .of_bracketed (.object hpiece) hdepth rfl tail, hread⟩

theorem sound_value (ih : ∀ text', text'.length < text.length → Sound text')
    (h : run .value stack text = .ok out) :
    ∃ v tail, FirstValue (maxNesting - stack.length) text v tail ∧
      run (.after v) stack tail = .ok out := by
  obtain ⟨gap, b, rest, rfl, hgap, hblank, hrun⟩ := exists_byte rfl h
  have hshorter : Sound rest := ih rest (by simp; omega)
  suffices hfirst : ∃ v tail, FirstValue (maxNesting - stack.length) (b :: rest) v tail ∧
      run (.after v) stack tail = .ok out by
    obtain ⟨v, tail, hfirst, hread⟩ := hfirst
    exact ⟨v, tail, hfirst.append hgap, hread⟩
  rcases value_byte hblank hrun with rfl | rfl | rfl | hb | rfl | rfl | rfl
  · exact sound_object hshorter hrun
  · exact sound_array hshorter hrun
  · have hstring : run (.string false [] .none) stack rest = .ok out := hrun
    obtain ⟨raw, tail, rfl, hraw, -⟩ := exists_string hstring
    rw [(stands_of_characters hraw).run_value] at hrun
    exact ⟨_, tail, .of_bracketed (.string hraw) (Nat.zero_le _) rfl tail, hrun⟩
  · obtain ⟨literal, tail, heq, hliteral, hstops, hread⟩ := exists_number hb hrun
    refine ⟨.number literal, tail, ⟨[], literal, heq, .nil, .number hliteral, ?_, ?_⟩, hread⟩
    · exact Nat.zero_le _
    · rintro _ ⟨⟩
      exact hstops
  · have hword : run (.word (ascii "true") (ascii "rue") (.bool true)) stack rest = .ok out := hrun
    obtain ⟨tail, rfl, hread⟩ := exists_word (by decide) hword
    exact ⟨.bool true, tail, .of_spells (.bool true) (Nat.zero_le _) rfl tail, hread⟩
  · have hword : run (.word (ascii "false") (ascii "alse") (.bool false)) stack rest = .ok out :=
      hrun
    obtain ⟨tail, rfl, hread⟩ := exists_word (by decide) hword
    exact ⟨.bool false, tail, .of_spells (.bool false) (Nat.zero_le _) rfl tail, hread⟩
  · have hword : run (.word (ascii "null") (ascii "ull") .null) stack rest = .ok out := hrun
    obtain ⟨tail, rfl, hread⟩ := exists_word (by decide) hword
    exact ⟨.null, tail, .of_spells .null (Nat.zero_le _) rfl tail, hread⟩

theorem sound_elements (ih : ∀ text', text'.length < text.length → Sound text')
    {found : List Json} (hstack : stack.length < maxNesting)
    (h : run .value (.array found :: stack) text = .ok out) :
    ∃ items piece tail, text = piece ++ 0x5D :: tail ∧ Spells (.elements items) piece ∧
      (array items).depth ≤ maxNesting - stack.length ∧
      run (.after (.array (found.reverse ++ items))) stack tail = .ok out := by
  obtain ⟨v, tail, ⟨gap, piece, rfl, hgap, hpiece, hdepth, -⟩, hafter⟩ := sound_value ih h
  rw [List.length_cons] at hdepth
  have hother : ∀ b, isBlank b = false → b ≠ 0x5D → b ≠ 0x2C →
      ∃ place, step b (.array found :: stack) (.after v) = .misfit place := by
    intro b hblank hclose hcomma
    exact ⟨.afterItem, by simp [step, followValue, hblank, hclose, hcomma]⟩
  obtain ⟨gap', rest, hgap', ⟨rfl, hclose⟩ | ⟨rfl, hcomma⟩⟩ := after_cases rfl rfl hother hafter
  · rw [List.reverse_cons] at hclose
    refine ⟨[v], gap ++ (piece ++ gap'), rest, by simp, ?_, ?_, hclose⟩
    · exact .lastElement (.element hgap hpiece hgap')
    · simp only [depth, depthItems]
      omega
  · obtain ⟨items, more, tail, rfl, hmore, hdepth', hread⟩ :=
      (ih rest (by simp; omega)).elements hstack hcomma
    rw [List.reverse_cons, List.append_assoc, List.singleton_append] at hread
    refine ⟨v :: items, gap ++ (piece ++ gap') ++ 0x2C :: more, tail, by simp, ?_, ?_, hread⟩
    · exact .moreElements (.element hgap hpiece hgap') hmore
    · simp only [depth, depthItems] at hdepth' ⊢
      omega

theorem sound_members (ih : ∀ text', text'.length < text.length → Sound text')
    {found : List (Bytes × Json)} {before : Bytes} (hstack : stack.length < maxNesting)
    (h : run .key (.object found before :: stack) text = .ok out) :
    ∃ members piece tail, text = piece ++ 0x7D :: tail ∧ Spells (.members members) piece ∧
      (object members).depth ≤ maxNesting - stack.length ∧
      run (.after (.object (found.reverse ++ members))) stack tail = .ok out := by
  obtain ⟨gap, raw, colon, rest, rfl, hgap, hraw, hcolon, hvalue⟩ := exists_key h
  obtain ⟨v, tail, ⟨before', piece, rfl, hbefore, hpiece, hdepth, -⟩, hafter⟩ :=
    (ih rest (by simp; omega)).value hvalue
  rw [List.length_cons] at hdepth
  have hother : ∀ b, isBlank b = false → b ≠ 0x7D → b ≠ 0x2C → ∃ place,
      step b (.object found (unquoteString raw) :: stack) (.after v) = .misfit place := by
    intro b hblank hclose hcomma
    exact ⟨.afterMember, by simp [step, followValue, hblank, hclose, hcomma]⟩
  obtain ⟨after, rest, hgap', ⟨rfl, hclose⟩ | ⟨rfl, hcomma⟩⟩ := after_cases rfl rfl hother hafter
  · rw [List.reverse_cons] at hclose
    have hmember := Spells.member hgap hraw hcolon (.element hbefore hpiece hgap')
    refine ⟨_, _, rest, by simp, .lastMember hmember, ?_, hclose⟩
    simp only [depth, depthMembers]
    omega
  · have hmember := Spells.member hgap hraw hcolon (.element hbefore hpiece hgap')
    obtain ⟨members, more, tail, rfl, hmore, hdepth', hread⟩ :=
      (ih rest (by simp; omega)).members hstack hcomma
    rw [List.reverse_cons, List.append_assoc, List.singleton_append] at hread
    refine ⟨_, _, tail, by simp, .moreMembers hmember hmore, ?_, hread⟩
    simp only [depth, depthMembers] at hdepth' ⊢
    omega

/-- **What is read is spelled.** -/
theorem sound (text : Bytes) : Sound text := by
  induction hlength : text.length using Nat.strongRecOn generalizing text with
  | ind n ih =>
    subst hlength
    have hshorter : ∀ text', text'.length < text.length → Sound text' :=
      fun text' hlt => ih _ hlt text' rfl
    exact ⟨sound_value hshorter, sound_elements hshorter, sound_members hshorter⟩

end Reader

/-- **The reader follows the grammar**: it gives the value that a text starts with and what follows
that value, and no other text can be read. -/
theorem readFirst_eq_ok {text rest : Bytes} {v : Json} :
    readFirst text = .ok (v, rest) ↔ FirstValue Reader.maxNesting text v rest := by
  constructor
  · intro h
    obtain ⟨v', tail, hfirst, hread⟩ := (Reader.sound text).value h
    rw [Reader.run_after_nil] at hread
    cases hread
    exact hfirst
  · rintro ⟨gap, piece, rfl, hgap, hpiece, hdepth, hstops⟩
    have hpasses := Reader.passes_of_spells hpiece [] rest (by simpa using hdepth) hstops
    rw [readFirst, Reader.run_gap rfl hgap, hpasses, Reader.run_after_nil]

end FilterQuery.Json
