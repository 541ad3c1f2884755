import FilterQuery.Proofs.CharacterClasses

/-!
# A lexer that keeps offsets

`Lexer` keeps the pieces of its input that are pending and unread. The lexer of this module keeps
numbers instead: where the next token starts, how far the input is read, and how wide the last
character was, so that reading it can be taken back once. Offsets may be any integers here, every
slice of the input is checked, and the tokens given out wait in a queue without a limit. That the
offsets stay in order, that no check fails and that the queue stays short has to be proved.

**Scanners.** A computation of `Scanning` changes the lexer and may break on a slice; then the
changes made before stay. `Ends` says that a computation gives a value and leaves the lexer at an
offset, whatever width it leaves behind. A loop that reads on while a class of characters lasts
leaves it behind the characters of that class (`At.ends_passRun`).

**Theorem (`recognizes_matchRule`).** A rule that is tried moves the lexer over its match if it
matches, and leaves it in place if it does not. So the rule that wins is the first one that matches
(`At.ends_tryRules`).
-/

namespace FilterQuery

/-- The bounds of a slice are not in order within its text. -/
structure OutOfBounds where
deriving Repr, DecidableEq

/-- The state of a lexical scan, by offsets. -/
structure OffsetLexer where
  rules : List Rule
  input : Bytes
  /-- Up to where the input is read. -/
  pos : Int
  /-- Where the next token starts. -/
  start : Int
  /-- The width of the character that was read last. -/
  width : Int
  /-- Tokens given out and not taken yet, the oldest one first. -/
  tokens : List Token
  /-- The lexical error, once there is one. -/
  error : Option LexError
  /-- Whether there is nothing more to scan. -/
  ended : Bool
deriving Repr

/-- Computations on the lexer that may break. -/
abbrev Scanning := EStateM OutOfBounds OffsetLexer

namespace OffsetLexer

/-- A lexer at the beginning of a text. The rules are completed first. -/
def ofText (rules : List Rule) (input : Bytes) : OffsetLexer where
  rules := completeRules rules
  input := input
  pos := 0
  start := 0
  width := 0
  tokens := []
  error := none
  ended := false

/-! ## Moving -/

/-- The part of a text between two offsets. -/
def slice (text : Bytes) (low high : Int) : Scanning Bytes :=
  if 0 ≤ low ∧ low ≤ high ∧ high ≤ text.length then
    return (text.take high.toNat).drop low.toNat
  else throw ⟨⟩

/-- Reads one character. -/
def next : Scanning (Option Nat) := do
  let l ← get
  if l.input.length ≤ l.pos then
    set { l with width := 0 }
    return none
  else
    let rest ← slice l.input l.pos l.input.length
    let (rune, width) := Utf8.decode rest
    set { l with pos := l.pos + width, width := width }
    return some rune

/-- Takes back the character that was read last. -/
def backup : Scanning Unit :=
  modify fun l => { l with pos := l.pos - l.width }

/-- Goes back to an earlier offset. -/
def reset (pos : Int) : Scanning Unit :=
  modify fun l => { l with pos := pos, width := 0 }

/-- The next character, which stays unread. -/
def peek : Scanning (Option Nat) := do
  let rune ← next
  backup
  return rune

/-- The next `count` bytes, or all there are. -/
def peekBytes (count : Int) : Scanning Bytes := do
  let l ← get
  if l.input.length < l.pos + count then slice l.input l.pos l.input.length
  else slice l.input l.pos (l.pos + count)

/-- Whether all input has been read. -/
def isEnd : Scanning Bool := do
  let l ← get
  return l.input.length ≤ l.pos

/-- Reads a character if it is one of those given. -/
def accept (valid : Bytes) : Scanning Bool := do
  let rune ← next
  if rune.any (isOneOf valid) then return true
  else
    backup
    return false

/-! ## Where the lexer stands -/

/-- The lexer has read the first part of its input, and the second part is left. -/
structure At (l : OffsetLexer) (taken rest : Bytes) : Prop where
  input : l.input = taken ++ rest
  pos : l.pos = taken.length

theorem exists_at {l : OffsetLexer} (hlow : 0 ≤ l.pos) (hhigh : l.pos ≤ l.input.length) :
    ∃ taken rest, l.At taken rest := by
  refine ⟨l.input.take l.pos.toNat, l.input.drop l.pos.toNat, ?_, ?_⟩
  · exact (List.take_append_drop ..).symm
  · rw [List.length_take]
    omega

theorem run_slice {text taken middle rest : Bytes} (h : text = taken ++ (middle ++ rest))
    {low high : Int} (hlow : low = taken.length) (hhigh : high = taken.length + middle.length)
    (l : OffsetLexer) : (slice text low high).run l = .ok middle l := by
  have hbounds : 0 ≤ low ∧ low ≤ high ∧ high ≤ text.length := by
    rw [h, List.length_append, List.length_append]
    omega
  have htake : (text.take high.toNat).drop low.toNat = middle := by
    rw [h, ← List.append_assoc, List.take_left' (by rw [List.length_append]; omega),
      List.drop_left' (by omega)]
  rw [slice, if_pos hbounds, EStateM.run_pure, htake]

namespace At

variable {l : OffsetLexer} {taken rest : Bytes}

theorem append {piece : Bytes} (h : l.At taken (piece ++ rest)) {pos : Int}
    (hpos : pos = l.pos + piece.length) (width : Int) :
    At { l with pos := pos, width := width } (taken ++ piece) rest := by
  refine ⟨?_, ?_⟩
  · rw [h.input, List.append_assoc]
  · simp [hpos, h.pos]

theorem cons {b : UInt8} (h : l.At taken (b :: rest)) (width : Int) :
    At { l with pos := l.pos + 1, width := width } (taken ++ [b]) rest := by
  have h : l.At taken ([b] ++ rest) := h
  exact h.append rfl width

theorem width (h : l.At taken rest) (width : Int) : At { l with width := width } taken rest :=
  ⟨h.input, h.pos⟩

theorem length (h : l.At taken rest) : (l.input.length : Int) = l.pos + rest.length := by
  rw [h.input, h.pos, List.length_append]
  omega

theorem run_slice (h : l.At taken rest) :
    (slice l.input l.pos l.input.length).run l = .ok rest l := by
  have hinput : l.input = taken ++ (rest ++ []) := by rw [List.append_nil, h.input]
  refine OffsetLexer.run_slice hinput h.pos ?_ l
  rw [h.length, h.pos]

theorem run_next_nil (h : l.At taken []) : next.run l = .ok none { l with width := 0 } := by
  have hend : (l.input.length : Int) ≤ l.pos := by
    simp [h.length]
  simp only [next, EStateM.run_bind, EStateM.run_get, if_pos hend, EStateM.run_set,
    EStateM.run_pure]

theorem run_next (h : l.At taken rest) (hne : rest ≠ []) :
    next.run l = .ok (some (Utf8.decode rest).1)
      { l with pos := l.pos + (Utf8.decode rest).2, width := (Utf8.decode rest).2 } := by
  have hend : ¬ (l.input.length : Int) ≤ l.pos := by
    have hpos := List.length_pos_iff.2 hne
    rw [h.length]
    omega
  simp only [next, EStateM.run_bind, EStateM.run_get, if_neg hend, h.run_slice, EStateM.run_set,
    EStateM.run_pure]

end At

/-- Reading a character leaves less to read. -/
theorem lt_of_next {l l' : OffsetLexer} {rune : Nat} (h : next.run l = .ok (some rune) l') :
    (l'.input.length - l'.pos).toNat < (l.input.length - l.pos).toNat := by
  by_cases hend : (l.input.length : Int) ≤ l.pos
  · simp only [next, EStateM.run_bind, EStateM.run_get, if_pos hend, EStateM.run_set,
      EStateM.run_pure] at h
    cases h
  by_cases hlow : 0 ≤ l.pos
  · obtain ⟨taken, rest, hat⟩ := exists_at hlow (by omega)
    have hlength := hat.length
    have hne : rest ≠ [] := by
      rintro rfl
      rw [List.length_nil] at hlength
      omega
    have hwidth := (Utf8.decode_pos hne).1
    rw [hat.run_next hne] at h
    cases h
    dsimp only
    omega
  · -- a negative offset breaks the slice
    have hbounds : ¬ (0 ≤ l.pos ∧ l.pos ≤ l.input.length ∧
        (l.input.length : Int) ≤ l.input.length) := fun hbounds => hlow hbounds.1
    simp only [next, EStateM.run_bind, EStateM.run_get, if_neg hend, slice, if_neg hbounds] at h
    cases h

/-! ## Scanners -/

/-- Reads on while the characters are of a class, and takes back the one behind them. -/
def passFrom (p : Nat → Bool) (l : OffsetLexer) : EStateM.Result OutOfBounds OffsetLexer Unit :=
  match _h : next.run l with
  | .error e l' => .error e l'
  | .ok none l' => backup.run l'
  | .ok (some rune) l' => if p rune then passFrom p l' else backup.run l'
termination_by (l.input.length - l.pos).toNat
decreasing_by exact lt_of_next ‹_›

/-- Reads the characters of a class. -/
def passRun (p : Nat → Bool) : Scanning Unit := fun l => passFrom p l

/-- Reads characters of those given, and says whether there were any. -/
def acceptRun (valid : Bytes) : Scanning Bool := do
  let before ← get
  passRun (isOneOf valid)
  let after ← get
  return before.pos < after.pos

/-- Reads white space. -/
def scanBlank : Scanning Bool := do
  let before ← get
  passRun Blank.isBlank
  let after ← get
  return before.pos < after.pos

/-- Reads a point and digits. A point without digits behind it is left alone. -/
def acceptFraction : Scanning Unit := do
  let mark ← get
  if ← accept [0x2E] then
    if !(← acceptRun decimalDigits) then reset mark.pos

/-- Reads a number that no word character follows. -/
def scanNumber : Scanning Bool := do
  let mark ← get
  if ← acceptRun decimalDigits then
    acceptFraction
    if (← peek).any isWordRune then
      reset mark.pos
      return false
    else return true
  else return false

/-- Reads an identity. -/
def scanIdentity : Scanning Bool := do
  if (← peek).any isLetterRune then
    passRun isIdentityRune
    return true
  else return false

/-- Reads a quoted string. -/
def scanString : Scanning Bool := do
  let mark ← get
  if ← accept [0x22] then
    let l ← get
    let rest ← slice l.input l.pos l.input.length
    match rest.idxOf? 0x22 with
    | none =>
      reset mark.pos
      return false
    | some i =>
      set { l with pos := l.pos + (i + 1) }
      return true
  else return false

/-- Reads text of a class. -/
def scan : Scan → Scanning Bool
  | .blank => scanBlank
  | .number => scanNumber
  | .identity => scanIdentity
  | .string => scanString

/-- Reads the given text. -/
def tryMatch (text : Bytes) : Scanning Bool := do
  let l ← get
  let rest ← slice l.input l.pos l.input.length
  if text.isPrefixOf rest then
    set { l with pos := l.pos + text.length }
    return true
  else return false

/-- Reads the given text, as a whole word if so required. -/
def matchLiteral (text : Bytes) (wholeWord : Bool) : Scanning Bool := do
  let mark ← get
  if ← tryMatch text then
    if wholeWord then
      if (← peek).any isWordRune then
        reset mark.pos
        return false
      else return true
    else return true
  else return false

/-- Tries one rule where the lexer stands. -/
def matchRule (r : Rule) : Scanning Bool :=
  match r.pattern with
  | .literal text wholeWord => matchLiteral text wholeWord
  | .scan kind => scan kind

/-- The first rule that matches where the lexer stands. -/
def tryRules : List Rule → Scanning (Option Rule)
  | [] => return none
  | r :: rules => do
    if ← matchRule r then return some r else tryRules rules

/-! ## Where a scanner leaves the lexer -/

/-- The computation gives a value and leaves the lexer at an offset. The width of the last
character is left open, and nothing else changes. -/
def Ends {α : Type} (x : Scanning α) (l : OffsetLexer) (value : α) (pos : Int) : Prop :=
  ∃ width, x.run l = .ok value { l with pos := pos, width := width }

namespace Ends

variable {α β : Type} {x : Scanning α} {f : α → Scanning β} {l : OffsetLexer} {a : α} {b : β}
  {pos pos' width : Int}

theorem of_run (hx : x.run l = .ok a { l with pos := pos, width := width })
    (hf : Ends (f a) { l with pos := pos, width := width } b pos') : Ends (x >>= f) l b pos' := by
  obtain ⟨width', hf⟩ := hf
  refine ⟨width', ?_⟩
  rw [EStateM.run_bind, hx]
  exact hf

theorem bind (h : Ends x l a pos)
    (hf : ∀ width, Ends (f a) { l with pos := pos, width := width } b pos') :
    Ends (x >>= f) l b pos' := by
  obtain ⟨width, hx⟩ := h
  exact of_run hx (hf width)

theorem pure (a : α) (l : OffsetLexer) : Ends (Pure.pure a) l a l.pos :=
  ⟨l.width, rfl⟩

theorem get {f : OffsetLexer → Scanning β} (h : Ends (f l) l b pos) :
    Ends (MonadState.get >>= f) l b pos :=
  h

theorem backup (h : l.pos = pos + l.width) : Ends OffsetLexer.backup l () pos := by
  refine ⟨l.width, ?_⟩
  obtain rfl : pos = l.pos - l.width := by omega
  rfl

theorem reset (pos : Int) (l : OffsetLexer) : Ends (OffsetLexer.reset pos) l () pos :=
  ⟨0, rfl⟩

end Ends

namespace At

variable {l : OffsetLexer} {taken rest : Bytes}

theorem ends_peek (h : l.At taken rest) : Ends peek l (Utf8.firstRune? rest) l.pos := by
  cases rest with
  | nil =>
    refine Ends.of_run h.run_next_nil ?_
    exact (Ends.backup (by simp)).bind fun _ => Ends.pure ..
  | cons b rest =>
    refine Ends.of_run (h.run_next (by simp)) ?_
    exact (Ends.backup (by simp)).bind fun _ => Ends.pure ..

theorem ends_accept {b : UInt8} (hb : b < 0x80) (h : l.At taken (b :: rest)) :
    Ends (accept [b]) l true (l.pos + 1) := by
  obtain ⟨hrune, hwidth⟩ := (asciiClass_single hb).decode b rest
  have hnext := h.run_next (by simp)
  rw [hwidth (beq_self_eq_true b)] at hnext
  refine Ends.of_run hnext ?_
  simp only [Option.any_some, hrune, beq_self_eq_true, if_true]
  exact Ends.pure ..

theorem ends_accept_of_ne {b : UInt8} (hb : b < 0x80) (h : l.At taken rest)
    (hne : rest.head? ≠ some b) : Ends (accept [b]) l false l.pos := by
  cases rest with
  | nil =>
    refine Ends.of_run h.run_next_nil ?_
    exact (Ends.backup (by simp)).bind fun _ => Ends.pure ..
  | cons c rest =>
    obtain ⟨hrune, -⟩ := (asciiClass_single hb).decode c rest
    have hc : (c == b) = false := by simpa using hne
    refine Ends.of_run (h.run_next (by simp)) ?_
    simp only [Option.any_some, hrune, hc, Bool.false_eq_true, if_false]
    exact (Ends.backup (by simp)).bind fun _ => Ends.pure ..

/-- **A loop reads the characters of its class.** -/
theorem ends_passRun (h : l.At taken rest) (p : Nat → Bool) :
    Ends (passRun p) l () (l.pos + (Utf8.lead p rest).length) := by
  induction rest using Utf8.decode_induction generalizing l taken with
  | nil =>
    have hback : Ends backup { l with width := 0 } () l.pos := Ends.backup (by simp)
    obtain ⟨width, hback⟩ := hback
    refine ⟨width, ?_⟩
    show passFrom p l = _
    rw [passFrom, h.run_next_nil]
    simpa using hback
  | char rune piece rest hne hdecode hlead ih =>
    have hnext := h.run_next (by simp [hne])
    rw [hdecode] at hnext
    rw [hlead]
    by_cases hp : p rune = true
    · obtain ⟨width, hrest⟩ := ih (h.append rfl piece.length)
      refine ⟨width, ?_⟩
      show passFrom p l = _
      rw [passFrom, hnext]
      simp only [hp, if_true]
      refine hrest.trans ?_
      simp [Int.add_assoc]
    · have hback : Ends backup { l with pos := l.pos + piece.length, width := piece.length } ()
          l.pos := Ends.backup (by simp)
      obtain ⟨width, hback⟩ := hback
      refine ⟨width, ?_⟩
      show passFrom p l = _
      rw [passFrom, hnext]
      simpa [hp] using hback

theorem ends_acceptRun (h : l.At taken rest) :
    Ends (acceptRun decimalDigits) l (!(rest.takeWhile isDigit).isEmpty)
      (l.pos + (rest.takeWhile isDigit).length) := by
  have hpass := h.ends_passRun (isOneOf decimalDigits)
  rw [asciiClass_digit.lead] at hpass
  have hvalue : (!(rest.takeWhile isDigit).isEmpty) =
      decide (l.pos < l.pos + (rest.takeWhile isDigit).length) := by
    cases rest.takeWhile isDigit with
    | nil => simp
    | cons b digits =>
      have hlt : l.pos < l.pos + (b :: digits).length := by
        simp only [List.length_cons]
        omega
      rw [decide_eq_true hlt]
      rfl
  rw [hvalue]
  exact Ends.get (hpass.bind fun _ => Ends.get (Ends.pure ..))

theorem ends_acceptFraction (h : l.At taken rest) :
    Ends acceptFraction l () (l.pos + (Scan.splitFraction rest).1.length) := by
  by_cases hpoint : rest.head? = some 0x2E
  · obtain ⟨rest, rfl⟩ := List.head?_eq_some_iff.1 hpoint
    refine Ends.get ((h.ends_accept (by decide)).bind fun width => ?_)
    refine (h.cons width).ends_acceptRun.bind fun width => ?_
    cases hdigits : rest.takeWhile isDigit with
    | nil =>
      have hfraction : Scan.splitFraction (0x2E :: rest) = ([], 0x2E :: rest) := by
        simp [Scan.splitFraction, hdigits]
      rw [hfraction, List.length_nil]
      simpa using Ends.reset l.pos _
    | cons b digits =>
      have hfraction : (Scan.splitFraction (0x2E :: rest)).1 = 0x2E :: b :: digits := by
        simp [Scan.splitFraction, hdigits]
      have hpos : l.pos + 1 + ((b :: digits).length : Nat) =
          l.pos + ((0x2E :: b :: digits : Bytes).length : Nat) := by
        simp only [List.length_cons]
        omega
      rw [hfraction, ← hpos]
      exact Ends.pure ..
  · have hfraction : Scan.splitFraction rest = ([], rest) := by
      cases rest with
      | nil => rfl
      | cons b rest =>
        have hb : (b == 0x2E) = false := by simpa using hpoint
        simp [Scan.splitFraction, hb]
    rw [hfraction, List.length_nil]
    refine Ends.get ((h.ends_accept_of_ne (by decide) hpoint).bind fun width => ?_)
    simpa using Ends.pure () { l with width := width }

end At

/-- The computation tells whether a piece can be split off the unread text, and reads that piece. -/
structure Recognizes (x : Scanning Bool) (split : Bytes → Option (Bytes × Bytes)) : Prop where
  accepts : ∀ {l : OffsetLexer} {taken text found rest : Bytes}, l.At taken text →
    split text = some (found, rest) → Ends x l true (l.pos + found.length)
  refuses : ∀ {l : OffsetLexer} {taken text : Bytes}, l.At taken text →
    split text = none → Ends x l false l.pos

theorem recognizes_scanBlank : Recognizes scanBlank Scan.splitBlank := by
  have hends : ∀ {l : OffsetLexer} {taken text : Bytes}, l.At taken text →
      Ends scanBlank l (decide (0 < Blank.run text)) (l.pos + Blank.run text) := by
    intro l taken text h
    have hpass := h.ends_passRun Blank.isBlank
    rw [Blank.length_lead] at hpass
    have hvalue : decide (0 < Blank.run text) = decide (l.pos < l.pos + Blank.run text) := by
      rw [decide_eq_decide]
      omega
    rw [hvalue]
    exact Ends.get (hpass.bind fun _ => Ends.get (Ends.pure ..))
  constructor
  · intro l taken text found rest h hsplit
    obtain ⟨rfl, hne, hgap, hrest⟩ := Scan.splitBlank_eq_some_iff.1 hsplit
    have hrun := Blank.run_blanks hgap hrest
    have hend := hends h
    rw [hrun] at hend
    simpa [List.length_pos_iff.2 hne] using hend
  · intro l taken text h hsplit
    have hrun : Blank.run text = 0 := by
      simp only [Scan.splitBlank] at hsplit
      split at hsplit
      · assumption
      · cases hsplit
    simpa [hrun] using hends h

theorem head?_any_isWordByte (text : Bytes) : text.head?.any isWordByte = startsWithWord text := by
  cases text <;> rfl

theorem At.ends_scanNumber {l : OffsetLexer} {taken text fraction rest : Bytes}
    (h : l.At taken text) (hne : text.takeWhile isDigit ≠ [])
    (hfraction : Scan.splitFraction (text.dropWhile isDigit) = (fraction, rest)) :
    Ends scanNumber l (!startsWithWord rest)
      (if startsWithWord rest then l.pos else l.pos + (text.takeWhile isDigit ++ fraction).length) := by
  have hrest : text.dropWhile isDigit = fraction ++ rest := by
    rw [← Scan.splitFraction_append (text.dropWhile isDigit), hfraction]
  have hdigits : (text.takeWhile isDigit).isEmpty = false := by simpa using hne
  refine Ends.get (h.ends_acceptRun.bind fun width => ?_)
  rw [hdigits]
  -- behind the digits
  have hat : At { l with pos := l.pos + (text.takeWhile isDigit).length, width := width }
      (taken ++ text.takeWhile isDigit) (fraction ++ rest) := by
    refine At.append ?_ rfl width
    rwa [← hrest, List.takeWhile_append_dropWhile]
  have hends := hat.ends_acceptFraction
  rw [← hrest, hfraction] at hends
  refine hends.bind fun width' => ?_
  -- behind the fraction
  refine (hat.append rfl width').ends_peek.bind fun width'' => ?_
  rw [asciiClass_word.firstRune?, head?_any_isWordByte]
  cases startsWithWord rest with
  | true => exact (Ends.reset ..).bind fun _ => Ends.pure ..
  | false =>
    rw [List.length_append, Int.natCast_add, ← Int.add_assoc]
    exact Ends.pure ..

theorem recognizes_scanNumber : Recognizes scanNumber Scan.splitNumber := by
  constructor
  · intro l taken text found rest h hsplit
    rcases hfraction : Scan.splitFraction (text.dropWhile isDigit) with ⟨fraction, tail⟩
    simp only [Scan.splitNumber, hfraction] at hsplit
    split at hsplit
    · cases hsplit
    · next hcond =>
      cases hsplit
      simp only [Bool.or_eq_true, List.isEmpty_iff, not_or] at hcond
      have hends := h.ends_scanNumber hcond.1 hfraction
      rwa [eq_false_of_ne_true hcond.2] at hends
  · intro l taken text h hsplit
    rcases hfraction : Scan.splitFraction (text.dropWhile isDigit) with ⟨fraction, tail⟩
    by_cases hdigits : text.takeWhile isDigit = []
    · refine Ends.get (h.ends_acceptRun.bind fun width => ?_)
      rw [hdigits]
      simpa using Ends.pure false { l with width := width }
    · have hends := h.ends_scanNumber hdigits hfraction
      have hword : startsWithWord tail = true := by
        simpa [Scan.splitNumber, hfraction, hdigits] using hsplit
      rwa [hword] at hends

theorem recognizes_scanIdentity : Recognizes scanIdentity Scan.splitIdentity := by
  constructor
  · intro l taken text found rest h hsplit
    cases text with
    | nil => cases hsplit
    | cons b text =>
      simp only [Scan.splitIdentity] at hsplit
      split at hsplit
      · next hb =>
        cases hsplit
        refine h.ends_peek.bind fun width => ?_
        rw [asciiClass_letter.firstRune?, List.head?_cons, Option.any_some, hb]
        -- the letter has not been read yet
        have hpass := (h.width width).ends_passRun isIdentityRune
        rw [asciiClass_identity.lead,
          List.takeWhile_cons_of_pos (isIdentityByte_of_isLetter hb)] at hpass
        exact hpass.bind fun _ => Ends.pure ..
      · cases hsplit
  · intro l taken text h hsplit
    have hletter : text.head?.any isLetter = false := by
      cases text with
      | nil => rfl
      | cons b text => simpa [Scan.splitIdentity] using hsplit
    refine h.ends_peek.bind fun width => ?_
    rw [asciiClass_letter.firstRune?, hletter]
    exact Ends.pure ..

theorem idxOf?_append {b : UInt8} {inner : Bytes} (h : b ∉ inner) (rest : Bytes) :
    (inner ++ b :: rest).idxOf? b = some inner.length := by
  have hnone : inner.findIdx? (· == b) = none := List.idxOf?_eq_none_iff.2 h
  rw [List.idxOf?, List.findIdx?_append, hnone, List.findIdx?_cons]
  simp

theorem recognizes_scanString : Recognizes scanString Scan.splitString := by
  constructor
  · intro l taken text found rest h hsplit
    obtain ⟨inner, hinner, rfl, rfl⟩ := Scan.splitString_eq_some.1 hsplit
    rw [List.append_assoc, List.cons_append, List.singleton_append] at h
    refine Ends.get ((h.ends_accept (by decide)).bind fun width => Ends.get ?_)
    refine Ends.of_run (h.cons width).run_slice ?_
    rw [idxOf?_append hinner]
    have hpos : l.pos + 1 + ((inner.length : Int) + 1) =
        l.pos + ((0x22 :: inner ++ [0x22] : Bytes).length : Nat) := by
      simp only [List.cons_append, List.length_cons, List.length_append, List.length_nil]
      omega
    rw [← hpos]
    exact ⟨width, rfl⟩
  · intro l taken text h hsplit
    by_cases hquote : text.head? = some 0x22
    · obtain ⟨rest, rfl⟩ := List.head?_eq_some_iff.1 hquote
      refine Ends.get ((h.ends_accept (by decide)).bind fun width => Ends.get ?_)
      have hindex : rest.idxOf? 0x22 = none := by
        rw [List.idxOf?_eq_none_iff]
        intro hmem
        obtain ⟨inner, tail, rfl, hinner⟩ := List.eq_append_cons_of_mem hmem
        have hsome : Scan.splitString (0x22 :: (inner ++ 0x22 :: tail)) =
            some (0x22 :: inner ++ [0x22], tail) :=
          Scan.splitString_eq_some.2 ⟨inner, hinner, rfl, by simp⟩
        rw [hsplit] at hsome
        cases hsome
      refine Ends.of_run (h.cons width).run_slice ?_
      rw [hindex]
      exact (Ends.reset ..).bind fun _ => Ends.pure ..
    · refine Ends.get ((h.ends_accept_of_ne (by decide) hquote).bind fun width => ?_)
      exact Ends.pure ..

theorem recognizes_scan (kind : Scan) : Recognizes (scan kind) kind.split := by
  cases kind with
  | blank => exact recognizes_scanBlank
  | number => exact recognizes_scanNumber
  | identity => exact recognizes_scanIdentity
  | string => exact recognizes_scanString

/-! ## Rules -/

namespace At

variable {l : OffsetLexer} {taken text rest : Bytes}

theorem ends_tryMatch (h : l.At taken (text ++ rest)) :
    Ends (tryMatch text) l true (l.pos + text.length) := by
  refine Ends.get (Ends.of_run h.run_slice ?_)
  rw [if_pos (List.isPrefixOf_iff_prefix.2 (List.prefix_append ..))]
  exact ⟨l.width, rfl⟩

theorem ends_tryMatch_of_not_prefix (h : l.At taken rest) (hnot : ¬ text <+: rest) :
    Ends (tryMatch text) l false l.pos := by
  refine Ends.get (Ends.of_run h.run_slice ?_)
  rw [if_neg (mt List.isPrefixOf_iff_prefix.1 hnot)]
  exact Ends.pure ..

theorem ends_matchLiteral (h : l.At taken (text ++ rest)) (wholeWord : Bool) :
    Ends (matchLiteral text wholeWord) l (!(wholeWord && startsWithWord rest))
      (if wholeWord && startsWithWord rest then l.pos else l.pos + text.length) := by
  refine Ends.get (h.ends_tryMatch.bind fun width => ?_)
  cases wholeWord with
  | false => exact Ends.pure ..
  | true =>
    refine (h.append rfl width).ends_peek.bind fun width => ?_
    rw [asciiClass_word.firstRune?, head?_any_isWordByte]
    cases startsWithWord rest with
    | true => exact (Ends.reset ..).bind fun _ => Ends.pure ..
    | false => exact Ends.pure ..

end At

theorem recognizes_matchLiteral (text : Bytes) (wholeWord : Bool) :
    Recognizes (matchLiteral text wholeWord) (Pattern.literal text wholeWord).split := by
  constructor
  · intro l taken text' found rest h hsplit
    obtain ⟨rfl, rfl, hword⟩ := Pattern.literal_split_eq_some.1 hsplit
    have hblock : (wholeWord && startsWithWord rest) = false := by
      cases wholeWord with
      | false => rfl
      | true => exact hword rfl
    have hends := h.ends_matchLiteral wholeWord
    rwa [hblock] at hends
  · intro l taken text' h hsplit
    by_cases hbegins : text <+: text'
    · obtain ⟨rest, rfl⟩ := hbegins
      have hblock : (wholeWord && startsWithWord rest) = true := by
        simpa [Pattern.split, Bytes.after?_eq_some.2 rfl] using hsplit
      have hends := h.ends_matchLiteral wholeWord
      rwa [hblock] at hends
    · exact Ends.get ((h.ends_tryMatch_of_not_prefix hbegins).bind fun _ => Ends.pure ..)

/-- **A rule that is tried moves over its match, or not at all.** -/
theorem recognizes_matchRule (r : Rule) : Recognizes (matchRule r) r.pattern.split := by
  rw [matchRule]
  cases r.pattern with
  | literal text wholeWord => exact recognizes_matchLiteral text wholeWord
  | scan kind => exact recognizes_scan kind

/-- **The lexer moves over the match of the rule that wins.** -/
theorem At.ends_tryRules {l : OffsetLexer} {taken text : Bytes} (h : l.At taken text)
    (rules : List Rule) :
    Ends (tryRules rules) l ((Rule.firstMatch rules text).map (·.1))
      (l.pos + ((Rule.firstMatch rules text).map (·.2.1.length)).getD 0) := by
  induction rules generalizing l with
  | nil => simpa [tryRules, Rule.firstMatch] using Ends.pure (none : Option Rule) l
  | cons r rules ih =>
    simp only [tryRules, Rule.firstMatch]
    rcases hsplit : r.pattern.split text with _ | ⟨found, rest⟩
    · exact ((recognizes_matchRule r).refuses h hsplit).bind fun width => ih (h.width width)
    · exact ((recognizes_matchRule r).accepts h hsplit).bind fun _ => Ends.pure ..

end OffsetLexer

end FilterQuery
