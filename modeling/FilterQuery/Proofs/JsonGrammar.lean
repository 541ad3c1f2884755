import FilterQuery.Proofs.JsonReading

/-!
# The grammar of JSON

**Theorem (`Reader.passes_of_spells`).** Text that has a form by the rules of JSON is read where
that form is due: behind it, the walk has the value that the text stands for, if there are levels
enough for its depth.

**Forms.** The rules are given for five forms of text at once (`Form`, `Spells`): a value, an
element, which is a value between blanks, a list of elements, a member and a list of members. What
reading such a text leads to is said once per form (`Reader.Passes`), and the proof is an induction
on the rules.

**Numbers.** A number has no end of its own. It is read as a whole only if what follows could not
have gone on with it (`Number.Stops`), and that is where its literal ends (`Reader.after?_eq_some`).
-/

namespace FilterQuery.Json

/-! ## The rules -/

/-- Blanks, or nothing. -/
def Gap (text : Bytes) : Prop :=
  ∀ b ∈ text, Reader.isBlank b = true

theorem Gap.nil : Gap [] := by
  intro b hb
  cases hb

/-- What may stand between the quotes of a string. Stray bytes may, control characters may not. -/
inductive Characters : Bytes → Prop where
  | nil : Characters []
  | plain {b : UInt8} {rest : Bytes} : b ≠ 0x22 → b ≠ 0x5C → 0x20 ≤ b → Characters rest →
      Characters (b :: rest)
  | short {b : UInt8} {rest : Bytes} : (ascii "bfnrt\\/\"").contains b = true → Characters rest →
      Characters (0x5C :: b :: rest)
  | hex {digits rest : Bytes} : digits.length = 4 → (∀ b ∈ digits, isHexDigit b = true) →
      Characters rest → Characters (0x5C :: 0x75 :: (digits ++ rest))

/-- A form of text, with what the text stands for. -/
inductive Form where
  | value (v : Json)
  /-- A value between blanks. -/
  | element (v : Json)
  | elements (items : List Json)
  | member (key : Bytes) (v : Json)
  | members (members : List (Bytes × Json))

/-- The text has the form, and stands for what the form says. -/
inductive Spells : Form → Bytes → Prop where
  | null : Spells (.value null) (ascii "null")
  | bool (b : Bool) : Spells (.value (bool b)) (if b then ascii "true" else ascii "false")
  | number {literal : Bytes} : Number.isLiteral literal = true →
      Spells (.value (number literal)) literal
  | string {raw : Bytes} : Characters raw →
      Spells (.value (string (unquoteString raw))) (0x22 :: (raw ++ [0x22]))
  | emptyArray {gap : Bytes} : Gap gap → Spells (.value (array [])) (0x5B :: (gap ++ [0x5D]))
  | array {items : List Json} {text : Bytes} : Spells (.elements items) text →
      Spells (.value (array items)) (0x5B :: (text ++ [0x5D]))
  | emptyObject {gap : Bytes} : Gap gap → Spells (.value (object [])) (0x7B :: (gap ++ [0x7D]))
  | object {members : List (Bytes × Json)} {text : Bytes} : Spells (.members members) text →
      Spells (.value (object members)) (0x7B :: (text ++ [0x7D]))
  | element {before text after : Bytes} {v : Json} : Gap before → Spells (.value v) text →
      Gap after → Spells (.element v) (before ++ (text ++ after))
  | lastElement {v : Json} {text : Bytes} : Spells (.element v) text → Spells (.elements [v]) text
  | moreElements {v : Json} {items : List Json} {text more : Bytes} : Spells (.element v) text →
      Spells (.elements items) more → Spells (.elements (v :: items)) (text ++ 0x2C :: more)
  | member {before raw after text : Bytes} {v : Json} : Gap before → Characters raw → Gap after →
      Spells (.element v) text → Spells (.member (unquoteString raw) v)
        (before ++ 0x22 :: (raw ++ 0x22 :: (after ++ 0x3A :: text)))
  | lastMember {key : Bytes} {v : Json} {text : Bytes} : Spells (.member key v) text →
      Spells (.members [(key, v)]) text
  | moreMembers {key : Bytes} {v : Json} {members : List (Bytes × Json)} {text more : Bytes} :
      Spells (.member key v) text → Spells (.members members) more →
      Spells (.members ((key, v) :: members)) (text ++ 0x2C :: more)

/-- No number goes on from the literal to what follows it. -/
def Number.Stops (literal rest : Bytes) : Prop :=
  ∀ b ∈ rest.head?, ∀ more, Number.isLiteral (literal ++ b :: more) = false

namespace Reader

/-! ## Gaps -/

/-- The state passes over blanks. -/
def State.isWaiting (stack : List Level) : State → Bool
  | value | firstItem | firstKey | key | colon => true
  | after _ => !stack.isEmpty
  | string .. | word .. | number .. => false

variable {state : State} {stack : List Level} {text rest tail gap : Bytes} {v : Json}

theorem step_blank (h : state.isWaiting stack = true) {b : UInt8} (hb : isBlank b = true) :
    step b stack state = .proceed state stack := by
  cases state with
  | string | word | number => cases h
  | after v =>
    cases stack with
    | nil => cases h
    | cons level stack => cases level <;> simp [step, followValue, hb]
  | value | firstItem | firstKey | key | colon =>
    simp [step, startValue, startKey, takeColon, hb]

theorem run_gap (h : state.isWaiting stack = true) (hgap : Gap gap) (text : Bytes) :
    run state stack (gap ++ text) = run state stack text := by
  induction gap with
  | nil => rfl
  | cons b gap ih =>
    obtain ⟨hb, hgap⟩ := List.forall_mem_cons.1 hgap
    simp only [List.cons_append, run, step_blank h hb]
    exact ih hgap

theorem delimited_append (hgap : Gap gap) (h : Delimited tail) : Delimited (gap ++ tail) := by
  cases gap with
  | nil => exact h
  | cons b gap =>
    have hb := hgap b List.mem_cons_self
    simp only [isBlank, Bool.or_eq_true, beq_iff_eq] at hb
    rintro c ⟨⟩
    rcases hb with ((rfl | rfl) | rfl) | rfl <;> decide

/-! ## Strings and numbers -/

theorem stands_of_characters {raw : Bytes} (h : Characters raw) : Stands raw := by
  induction h with
  | nil => exact stands_nil
  | plain hquote hslash hcontrol _ ih => exact (stands_byte hquote hslash hcontrol).append ih
  | short hshort _ ih => exact (stands_short hshort).append ih
  | hex hlength hdigits _ ih => exact (stands_hexDigits hdigits hlength).append ih

variable {part : NumberPart}

theorem isFinal_of_continueNumber {b : UInt8} (h : continueNumber b part = .error none) :
    part.isFinal = true := by
  cases part with
  | zero | integer | fraction | exponentDigits => rfl
  | minus | point | exponent | exponentSign =>
    simp only [continueNumber] at h
    split_ifs at h
    all_goals cases h

theorem continueNumber_of_isFinal (h : part.isFinal = true) (b : UInt8) (place : Misfit) :
    continueNumber b part ≠ .error (some place) := by
  cases part with
  | minus | point | exponent | exponentSign => cases h
  | zero | integer | fraction | exponentDigits =>
    intro herror
    simp only [continueNumber] at herror
    split_ifs at herror
    all_goals cases herror

/-- From every part there is a way to the end of a literal. -/
theorem NumberPart.exists_rest? (part : NumberPart) : ∃ more, part.rest? more = some [] := by
  cases part with
  | zero | integer | fraction | exponentDigits => exact ⟨[], rfl⟩
  | minus | point | exponent | exponentSign => exact ⟨[0x30], rfl⟩

/-- Where a literal ends, nothing that follows can go on with it. -/
theorem NumberPart.exists_of_rest? (h : part.rest? text = some rest) :
    ∃ digits, text = digits ++ rest ∧ part.rest? digits = some [] ∧
      ∀ b ∈ rest.head?, ∀ more, part.rest? (digits ++ b :: more) ≠ some [] := by
  induction text generalizing part with
  | nil =>
    obtain rfl : rest = [] := by
      rw [rest?_nil] at h
      split at h <;> cases h
      rfl
    exact ⟨[], rfl, h, by rintro b ⟨⟩⟩
  | cons b text ih =>
    rw [rest?_cons] at h
    split at h
    · next next hstep =>
      obtain ⟨digits, rfl, hdigits, hstops⟩ := ih h
      refine ⟨b :: digits, rfl, ?_, ?_⟩
      · rwa [rest?_cons, hstep]
      · intro c hc more
        rw [List.cons_append, rest?_cons, hstep]
        exact hstops c hc more
    · next hstep =>
      cases h
      refine ⟨[], rfl, ?_, ?_⟩
      · rw [rest?_nil, if_pos (isFinal_of_continueNumber hstep)]
      · rintro c ⟨⟩ more hmore
        rw [List.nil_append, rest?_cons, hstep] at hmore
        cases hmore
    · cases h

/-- A literal ends where nothing that follows can go on with it. -/
theorem NumberPart.rest?_of_stops {digits : Bytes} (h : part.rest? digits = some [])
    (hstops : ∀ b ∈ rest.head?, ∀ more, part.rest? (digits ++ b :: more) ≠ some []) :
    part.rest? (digits ++ rest) = some rest := by
  induction digits generalizing part with
  | nil =>
    have hfinal : part.isFinal = true := by
      rw [rest?_nil] at h
      split at h
      · assumption
      · cases h
    cases rest with
    | nil => exact h
    | cons b rest =>
      rw [List.nil_append, rest?_cons]
      split
      · next next hstep =>
        obtain ⟨more, hmore⟩ := next.exists_rest?
        refine absurd ?_ (hstops b rfl more)
        rwa [List.nil_append, rest?_cons, hstep]
      · rfl
      · next place hstep => exact absurd hstep (continueNumber_of_isFinal hfinal b place)
  | cons d digits ih =>
    rw [rest?_cons] at h
    rw [List.cons_append, rest?_cons]
    split at h
    · next next hstep =>
      refine ih h fun b hb more hmore => hstops b hb more ?_
      rwa [List.cons_append, rest?_cons, hstep]
    · cases h
    · cases h

theorem after?_eq_some : Number.after? text = some rest ↔
    ∃ literal, text = literal ++ rest ∧ Number.isLiteral literal = true ∧
      Number.Stops literal rest := by
  simp only [Number.Stops, Number.isLiteral, decide_eq_true_eq, decide_eq_false_iff_not]
  constructor
  · intro h
    obtain ⟨b, digits, rfl, hb⟩ := Number.after?_head h
    obtain ⟨part, -, hafter⟩ := exists_startValue hb
    rw [hafter] at h
    obtain ⟨digits, rfl, hdigits, hstops⟩ := NumberPart.exists_of_rest? h
    refine ⟨b :: digits, rfl, (hafter digits).trans hdigits, fun c hc more => ?_⟩
    rw [List.cons_append, hafter]
    exact hstops c hc more
  · rintro ⟨literal, rfl, hliteral, hstops⟩
    obtain ⟨b, digits, rfl, hb⟩ := Number.after?_head hliteral
    obtain ⟨part, -, hafter⟩ := exists_startValue hb
    rw [hafter] at hliteral
    rw [List.cons_append, hafter]
    refine NumberPart.rest?_of_stops hliteral fun c hc more => ?_
    rw [← hafter]
    exact hstops c hc more

theorem stops_of_delimited {literal : Bytes} (h : Number.isLiteral literal = true)
    (htail : Delimited tail) : Number.Stops literal tail := by
  obtain ⟨literal', heq, -, hstops⟩ := after?_eq_some.1 (after?_append h htail)
  rwa [List.append_cancel_right heq]

theorem run_of_stops {literal : Bytes} (h : Number.isLiteral literal = true)
    (hstops : Number.Stops literal tail) (stack : List Level) :
    run .value stack (literal ++ tail) = run (.after (.number literal)) stack tail := by
  obtain ⟨literal', heq, hrun⟩ := run_of_after? (after?_eq_some.2 ⟨literal, rfl, h, hstops⟩)
  rw [hrun, List.append_cancel_right heq]

end Reader

/-! ## Values -/

namespace Spells

variable {text : Bytes}

/-- A value starts with a byte that neither is a blank nor closes an array. -/
theorem value_head {v : Json} (h : Spells (.value v) text) :
    ∃ b rest, text = b :: rest ∧ Reader.isBlank b = false ∧ b ≠ 0x5D := by
  cases h with
  | bool b => cases b <;> exact ⟨_, _, rfl, by decide⟩
  | null | string | emptyArray | array | emptyObject | object => exact ⟨_, _, rfl, by decide⟩
  | number hliteral =>
    obtain ⟨b, rest, rfl, hb⟩ := Number.after?_head (of_decide_eq_true hliteral)
    exact ⟨b, rest, rfl, Reader.not_blank_of_number hb⟩

theorem element_head {v : Json} (h : Spells (.element v) text) :
    ∃ gap b rest, text = gap ++ b :: rest ∧ Gap gap ∧ Reader.isBlank b = false ∧ b ≠ 0x5D := by
  cases h with
  | element hbefore hvalue hafter =>
    obtain ⟨b, rest, rfl, hb⟩ := hvalue.value_head
    exact ⟨_, b, rest ++ _, rfl, hbefore, hb⟩

theorem elements_head {items : List Json} (h : Spells (.elements items) text) :
    ∃ gap b rest, text = gap ++ b :: rest ∧ Gap gap ∧ Reader.isBlank b = false ∧ b ≠ 0x5D := by
  cases h with
  | lastElement helement => exact helement.element_head
  | @moreElements _ _ _ more helement _ =>
    obtain ⟨gap, b, rest, rfl, hb⟩ := helement.element_head
    exact ⟨gap, b, rest ++ 0x2C :: more, by simp, hb⟩

theorem member_head {key : Bytes} {v : Json} (h : Spells (.member key v) text) :
    ∃ gap rest, text = gap ++ 0x22 :: rest ∧ Gap gap := by
  cases h with
  | member hbefore _ _ _ => exact ⟨_, _, rfl, hbefore⟩

theorem members_head {members : List (Bytes × Json)} (h : Spells (.members members) text) :
    ∃ gap rest, text = gap ++ 0x22 :: rest ∧ Gap gap := by
  cases h with
  | lastMember hmember => exact hmember.member_head
  | @moreMembers _ _ _ _ more hmember _ =>
    obtain ⟨gap, rest, rfl, hgap⟩ := hmember.member_head
    exact ⟨gap, rest ++ 0x2C :: more, by simp, hgap⟩

end Spells

namespace Reader

/-- Where text of the form is due, the walk gets behind it. -/
def Passes (piece : Bytes) : Form → Prop
  | .value v => ∀ stack tail, stack.length + v.depth ≤ maxNesting →
      (∀ literal, v = .number literal → Number.Stops literal tail) →
        run .value stack (piece ++ tail) = run (.after v) stack tail
  | .element v => ∀ level stack tail, stack.length + 1 + v.depth ≤ maxNesting → Delimited tail →
      run .value (level :: stack) (piece ++ tail) = run (.after v) (level :: stack) tail
  | .elements items => ∀ found stack tail, stack.length + (array items).depth ≤ maxNesting →
      run .value (.array found :: stack) (piece ++ 0x5D :: tail) =
        run (.after (.array (found.reverse ++ items))) stack tail
  | .member key v => ∀ found before stack tail, stack.length + 1 + v.depth ≤ maxNesting →
      Delimited tail → run .key (.object found before :: stack) (piece ++ tail) =
        run (.after v) (.object found key :: stack) tail
  | .members members => ∀ found before stack tail,
      stack.length + (object members).depth ≤ maxNesting →
        run .key (.object found before :: stack) (piece ++ 0x7D :: tail) =
          run (.after (.object (found.reverse ++ members))) stack tail

variable {stack : List Level} {text more gap : Bytes} {v : Json} {items : List Json}
  {members : List (Bytes × Json)}

/-- A bracket is entered if one more level may be open. -/
theorem run_bracketed {opening : UInt8} {first : State} {level : Level}
    (hopen : step opening stack .value = enter first level stack)
    (hstack : stack.length + 1 ≤ maxNesting) (text : Bytes) (closing : UInt8) (tail : Bytes) :
    run .value stack (opening :: (text ++ [closing]) ++ tail) =
      run first (level :: stack) (text ++ closing :: tail) := by
  rw [List.cons_append, (reaches_of_enter hopen _).1 hstack, List.append_assoc,
    List.singleton_append]

theorem passes_emptyArray (hgap : Gap gap) :
    Passes (0x5B :: (gap ++ [0x5D])) (.value (.array [])) := by
  intro stack tail hdepth _
  rw [run_bracketed rfl hdepth, run_gap rfl hgap]
  exact run_of_leave rfl tail

theorem passes_emptyObject (hgap : Gap gap) :
    Passes (0x7B :: (gap ++ [0x7D])) (.value (.object [])) := by
  intro stack tail hdepth _
  rw [run_bracketed rfl hdepth, run_gap rfl hgap]
  exact run_of_leave rfl tail

theorem passes_array (h : Spells (.elements items) text) (ih : Passes text (.elements items)) :
    Passes (0x5B :: (text ++ [0x5D])) (.value (.array items)) := by
  intro stack tail hdepth _
  have hstack : stack.length + 1 ≤ maxNesting := by
    rw [depth] at hdepth
    omega
  -- The array might end at once, but its text starts with something else.
  have hfirst : run .firstItem (.array [] :: stack) (text ++ 0x5D :: tail) =
      run .value (.array [] :: stack) (text ++ 0x5D :: tail) := by
    obtain ⟨gap, b, rest, rfl, hgap, hblank, hclose⟩ := h.elements_head
    rw [List.append_assoc, run_gap rfl hgap, run_gap rfl hgap]
    simp [run, step, hblank, hclose]
  rw [run_bracketed rfl hstack, hfirst]
  exact ih [] stack tail hdepth

theorem passes_object (h : Spells (.members members) text) (ih : Passes text (.members members)) :
    Passes (0x7B :: (text ++ [0x7D])) (.value (.object members)) := by
  intro stack tail hdepth _
  have hstack : stack.length + 1 ≤ maxNesting := by
    rw [depth] at hdepth
    omega
  have hfirst : run .firstKey (.object [] [] :: stack) (text ++ 0x7D :: tail) =
      run .key (.object [] [] :: stack) (text ++ 0x7D :: tail) := by
    obtain ⟨gap, rest, rfl, hgap⟩ := h.members_head
    rw [List.append_assoc, run_gap rfl hgap, run_gap rfl hgap]
    rfl
  rw [run_bracketed rfl hstack, hfirst]
  exact ih [] [] stack tail hdepth

theorem passes_element {before after : Bytes} (hbefore : Gap before)
    (h : Spells (.value v) text) (hafter : Gap after) (ih : Passes text (.value v)) :
    Passes (before ++ (text ++ after)) (.element v) := by
  intro level stack tail hdepth htail
  have hstops : ∀ literal, v = .number literal → Number.Stops literal (after ++ tail) := by
    rintro literal rfl
    cases h with
    | number hliteral => exact stops_of_delimited hliteral (delimited_append hafter htail)
  rw [List.append_assoc, List.append_assoc, run_gap rfl hbefore,
    ih (level :: stack) (after ++ tail) hdepth hstops, run_gap rfl hafter]

theorem passes_lastElement (ih : Passes text (.element v)) : Passes text (.elements [v]) := by
  intro found stack tail hdepth
  simp only [depth, depthItems, Nat.max_zero] at hdepth
  have htail : Delimited (0x5D :: tail) := by
    rintro b ⟨⟩
    decide
  rw [ih _ stack _ (by omega) htail, run_of_leave rfl tail, List.reverse_cons]

theorem passes_moreElements (ih : Passes text (.element v))
    (ihm : Passes more (.elements items)) :
    Passes (text ++ 0x2C :: more) (.elements (v :: items)) := by
  intro found stack tail hdepth
  simp only [depth, depthItems] at hdepth
  have htail : Delimited (0x2C :: (more ++ 0x5D :: tail)) := by
    rintro b ⟨⟩
    decide
  calc run .value (.array found :: stack) (text ++ 0x2C :: more ++ 0x5D :: tail)
    _ = run .value (.array found :: stack) (text ++ 0x2C :: (more ++ 0x5D :: tail)) := by simp
    _ = run (.after v) (.array found :: stack) (0x2C :: (more ++ 0x5D :: tail)) :=
      ih _ stack _ (by omega) htail
    _ = run .value (.array (v :: found) :: stack) (more ++ 0x5D :: tail) := rfl
    _ = run (.after (.array ((v :: found).reverse ++ items))) stack tail :=
      ihm _ stack tail (by rw [depth]; omega)
    _ = run (.after (.array (found.reverse ++ v :: items))) stack tail := by simp

theorem passes_member {before raw after : Bytes} (hbefore : Gap before) (hraw : Characters raw)
    (hafter : Gap after) (ih : Passes text (.element v)) :
    Passes (before ++ 0x22 :: (raw ++ 0x22 :: (after ++ 0x3A :: text)))
      (.member (unquoteString raw) v) := by
  intro found before' stack tail hdepth htail
  have hkey := (stands_of_characters hraw).run_key found before' stack
    (after ++ 0x3A :: (text ++ tail))
  have hcolon : run .colon (.object found (unquoteString raw) :: stack) (0x3A :: (text ++ tail)) =
      run .value (.object found (unquoteString raw) :: stack) (text ++ tail) := rfl
  simp only [List.append_assoc, List.cons_append]
  rw [run_gap rfl hbefore, hkey, run_gap rfl hafter, hcolon, ih _ stack tail hdepth htail]

theorem passes_lastMember {key : Bytes} (ih : Passes text (.member key v)) :
    Passes text (.members [(key, v)]) := by
  intro found before stack tail hdepth
  simp only [depth, depthMembers, Nat.max_zero] at hdepth
  have htail : Delimited (0x7D :: tail) := by
    rintro b ⟨⟩
    decide
  rw [ih _ _ stack _ (by omega) htail, run_of_leave rfl tail, List.reverse_cons]

theorem passes_moreMembers {key : Bytes} (ih : Passes text (.member key v))
    (ihm : Passes more (.members members)) :
    Passes (text ++ 0x2C :: more) (.members ((key, v) :: members)) := by
  intro found before stack tail hdepth
  simp only [depth, depthMembers] at hdepth
  have htail : Delimited (0x2C :: (more ++ 0x7D :: tail)) := by
    rintro b ⟨⟩
    decide
  calc run .key (.object found before :: stack) (text ++ 0x2C :: more ++ 0x7D :: tail)
    _ = run .key (.object found before :: stack) (text ++ 0x2C :: (more ++ 0x7D :: tail)) := by simp
    _ = run (.after v) (.object found key :: stack) (0x2C :: (more ++ 0x7D :: tail)) :=
      ih found before stack _ (by omega) htail
    _ = run .key (.object ((key, v) :: found) [] :: stack) (more ++ 0x7D :: tail) := rfl
    _ = run (.after (.object (((key, v) :: found).reverse ++ members))) stack tail :=
      ihm _ _ stack tail (by rw [depth]; omega)
    _ = run (.after (.object (found.reverse ++ (key, v) :: members))) stack tail := by simp

/-- **What is spelled is read**, if there are levels enough for its depth. -/
theorem passes_of_spells {form : Form} (h : Spells form text) : Passes text form := by
  induction h with
  | null => exact fun stack tail _ _ => rfl
  | bool b =>
    intro stack tail _ _
    cases b <;> rfl
  | number hliteral => exact fun stack tail _ hstops => run_of_stops hliteral (hstops _ rfl) stack
  | string hraw =>
    intro stack tail _ _
    rw [List.cons_append, List.append_assoc]
    exact (stands_of_characters hraw).run_value stack tail
  | emptyArray hgap => exact passes_emptyArray hgap
  | array h ih => exact passes_array h ih
  | emptyObject hgap => exact passes_emptyObject hgap
  | object h ih => exact passes_object h ih
  | element hbefore h hafter ih => exact passes_element hbefore h hafter ih
  | lastElement _ ih => exact passes_lastElement ih
  | moreElements _ _ ih ihm => exact passes_moreElements ih ihm
  | member hbefore hraw hafter _ ih => exact passes_member hbefore hraw hafter ih
  | lastMember _ ih => exact passes_lastMember ih
  | moreMembers _ _ ih ihm => exact passes_moreMembers ih ihm

end Reader

end FilterQuery.Json
