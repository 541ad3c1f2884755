import FilterQuery.Proofs.Layout
import Mathlib.Data.List.Induction
import Mathlib.Data.Prod.Lex
import Mathlib.Order.Interval.Set.Defs
import Mathlib.Order.Monotone.Basic

/-!
# Lines and columns

The lexer carries a position along the text and moves it byte by byte. Readers of a message see only
the line and the column, the address of the position. This module says that nothing is lost by that.

**Theorem (`address_faithful`).** The address of an offset is found by counting the line feeds
before it and the bytes behind the last of them. A later offset has a later address. In the text cut
at its line feeds, the line is the number of a segment and the column that of a byte in it, or of
its end; and each such pair is the address of an offset. So the addresses of the tokens of a text
increase and lead back to their offsets, and a lexical error comes after all tokens before it.

**Order.** One byte moves the address up, in the line or in the column (`address_lt_step`), hence
any text does.

**Segments.** The text before an offset is some lines with their line feeds and a piece without any.
Each line adds one to the line number and sets the column back to one (`advance_closed`), and each
is one segment (`segments_closed`); the piece is the beginning of the next segment.
-/

namespace FilterQuery

/-! ## Counting -/

namespace Bytes

/-- The offset of the last line feed of a text. -/
def lastFeed? (text : Bytes) : Option Nat :=
  (text.reverse.idxOf? 0x0A).map fun i => text.length - 1 - i

theorem lastFeed?_concat (text : Bytes) (b : UInt8) :
    lastFeed? (text ++ [b]) = if b = 0x0A then some text.length else lastFeed? text := by
  unfold lastFeed?
  rw [List.reverse_append, List.reverse_singleton, List.singleton_append, List.idxOf?_cons]
  by_cases hb : b = 0x0A
  · simp [hb]
  · simp only [beq_iff_eq, hb, if_false, Option.map_map, List.length_append, List.length_singleton]
    congr 1
    funext i
    simp only [Function.comp_apply]
    omega

theorem lastFeed?_le {text : Bytes} {i : Nat} (h : lastFeed? text = some i) : i ≤ text.length := by
  obtain ⟨k, -, rfl⟩ := Option.map_eq_some_iff.1 h
  omega

end Bytes

namespace Position

/-- The position behind a text, found by counting: the line is one more than the number of line
feeds, and the column is the distance from the last of them. -/
def counted (text : Bytes) : Position where
  offset := text.length
  line := 1 + text.count 0x0A
  column := match Bytes.lastFeed? text with
    | none => text.length + 1
    | some i => text.length - i

theorem counted_concat (text : Bytes) (b : UInt8) :
    counted (text ++ [b]) = (counted text).step b := by
  unfold counted step
  rw [Bytes.lastFeed?_concat, List.count_append, List.length_append, List.length_singleton]
  by_cases hb : b = 0x0A
  · simp [hb, Nat.add_assoc]
  · rw [List.count_singleton, if_neg hb, if_neg hb, if_neg (by simpa using hb)]
    cases hlast : Bytes.lastFeed? text with
    | none => rfl
    | some i =>
      have hle := Bytes.lastFeed?_le hlast
      simp only [mk.injEq, true_and, Nat.add_zero]
      omega

/-- **Moving byte by byte and counting lead to the same position.** -/
theorem advance_start_eq_counted (text : Bytes) : start.advance text = counted text := by
  induction text using List.reverseRecOn with
  | nil => rfl
  | append_singleton text b ih =>
    rw [counted_concat, ← ih, advance_append]
    rfl

/-! ## Order -/

/-- The line and the column of a position, in the order of reading. -/
def address (p : Position) : ℕ ×ₗ ℕ :=
  toLex (p.line, p.column)

/-- One byte moves the address up. -/
theorem address_lt_step (p : Position) (b : UInt8) : p.address < (p.step b).address := by
  unfold address step
  rw [Prod.Lex.toLex_lt_toLex]
  by_cases hb : b = 0x0A
  · rw [if_pos hb]
    exact .inl (Nat.lt_succ_self p.line)
  · rw [if_neg hb]
    exact .inr ⟨rfl, Nat.lt_succ_self p.column⟩

theorem address_le_advance (p : Position) (text : Bytes) : p.address ≤ (p.advance text).address := by
  induction text generalizing p with
  | nil => exact le_rfl
  | cons b text ih => exact (p.address_lt_step b).le.trans (ih (p.step b))

theorem address_lt_advance (p : Position) {text : Bytes} (h : text ≠ []) :
    p.address < (p.advance text).address := by
  obtain ⟨b, text, rfl⟩ := List.exists_cons_of_ne_nil h
  exact (p.address_lt_step b).trans_le ((p.step b).address_le_advance text)

/-- A later offset is reached by moving on from an earlier one. -/
theorem advance_ofOffset (text : Bytes) {p q : Nat} (h : p ≤ q) :
    ofOffset text q = (ofOffset text p).advance ((text.drop p).take (q - p)) := by
  unfold ofOffset
  rw [← advance_append, ← List.take_add, Nat.add_sub_cancel' h]

/-- **A later offset has a later address.** -/
theorem strictMonoOn_address (text : Bytes) :
    StrictMonoOn (fun offset => (ofOffset text offset).address) (Set.Iic text.length) := by
  intro p _ q hq hlt
  have hq : q ≤ text.length := hq
  have hne : (text.drop p).take (q - p) ≠ [] := by
    apply List.ne_nil_of_length_pos
    rw [List.length_take, List.length_drop]
    omega
  show (ofOffset text p).address < (ofOffset text q).address
  rw [advance_ofOffset text hlt.le]
  exact address_lt_advance _ hne

end Position

/-! ## Segments -/

namespace Bytes

/-- The pieces of a text between its line feeds. -/
def segments (text : Bytes) : List Bytes :=
  text.splitOn 0x0A

theorem exists_segments (text : Bytes) : ∃ head tail, segments text = head :: tail :=
  List.exists_cons_of_ne_nil (List.splitOn_ne_nil 0x0A text)

/-- Lines, each with the line feed that ends it. -/
def closed (lines : List Bytes) : Bytes :=
  lines.flatMap fun line => line ++ [0x0A]

theorem closed_cons (line : Bytes) (lines : List Bytes) :
    closed (line :: lines) = line ++ 0x0A :: closed lines := by
  simp [closed]

theorem closed_concat (lines : List Bytes) (line : Bytes) :
    closed (lines ++ [line]) = closed lines ++ (line ++ [0x0A]) := by
  simp [closed]

/-- Where a segment starts: behind the segments before it and their line feeds. -/
def segmentStart (text : Bytes) (i : Nat) : Nat :=
  (closed (text.segments.take i)).length

/-- Every text is some lines and a piece without a line feed. -/
theorem exists_closed (text : Bytes) : ∃ lines last, text = closed lines ++ last ∧
    (∀ line ∈ lines, 0x0A ∉ line) ∧ 0x0A ∉ last := by
  induction text using List.reverseRecOn with
  | nil => exact ⟨[], [], rfl, by simp, by simp⟩
  | append_singleton text b ih =>
    obtain ⟨lines, last, rfl, hlines, hlast⟩ := ih
    by_cases hb : b = 0x0A
    · -- the line feed ends the piece
      refine ⟨lines ++ [last], [], ?_, ?_, List.not_mem_nil⟩
      · simp [closed_concat, hb]
      · intro line hline
        rcases List.mem_append.1 hline with hline | hline
        · exact hlines line hline
        · exact List.mem_singleton.1 hline ▸ hlast
    · refine ⟨lines, last ++ [b], List.append_assoc .., hlines, ?_⟩
      simp [hlast, Ne.symm hb]

theorem segments_line {line : Bytes} (h : 0x0A ∉ line) (more : Bytes) :
    segments (line ++ 0x0A :: more) = line :: segments more := by
  unfold segments
  rw [List.splitOn_append_cons_self, List.splitOn_eq_singleton h, List.singleton_append]

/-- Each line is a segment. -/
theorem segments_closed {lines : List Bytes} (h : ∀ line ∈ lines, 0x0A ∉ line) (more : Bytes) :
    segments (closed lines ++ more) = lines ++ segments more := by
  induction lines with
  | nil => rfl
  | cons line lines ih =>
    obtain ⟨hline, hlines⟩ := List.forall_mem_cons.1 h
    rw [closed_cons, List.append_assoc, List.cons_append, segments_line hline, ih hlines,
      List.cons_append]

theorem segments_cons {b : UInt8} (hb : b ≠ 0x0A) {text head : Bytes} {tail : List Bytes}
    (h : segments text = head :: tail) : segments (b :: text) = (b :: head) :: tail := by
  unfold segments at h ⊢
  rw [List.splitOn_cons_eq_if_modifyHead, h, if_neg (by simpa using hb), List.modifyHead_cons]

/-- A piece without a line feed joins the segment behind it. -/
theorem segments_piece {piece : Bytes} (hpiece : 0x0A ∉ piece) {text head : Bytes}
    {tail : List Bytes} (h : segments text = head :: tail) :
    segments (piece ++ text) = (piece ++ head) :: tail := by
  induction piece with
  | nil => exact h
  | cons b piece ih =>
    obtain ⟨hb, hpiece⟩ := not_or.1 (mt List.mem_cons.2 hpiece)
    exact segments_cons (Ne.symm hb) (ih hpiece)

/-- The first segment is empty if there is no byte before the first line feed. If it is not, it
starts as the text does. -/
theorem head_segments {text head : Bytes} {tail : List Bytes} (h : segments text = head :: tail) :
    head = [] ∧ (text = [] ∨ text.head? = some 0x0A) ∨
      head ≠ [] ∧ text ≠ [] ∧ text.head? ≠ some 0x0A ∧ head.head? = text.head? := by
  cases text with
  | nil =>
    rw [segments, List.splitOn_nil] at h
    cases h
    exact .inl ⟨rfl, .inl rfl⟩
  | cons b text =>
    by_cases hb : b = 0x0A
    · subst hb
      have hfeed := segments_line List.not_mem_nil text
      cases h.symm.trans hfeed
      exact .inl ⟨rfl, .inr rfl⟩
    · obtain ⟨head', tail', htext⟩ := exists_segments text
      cases h.symm.trans (segments_cons hb htext)
      exact .inr ⟨by simp, by simp, by simpa using hb, rfl⟩

/-- The offset is that of byte `j` of segment `i`, or that of the end of the segment. -/
structure InSegment (text : Bytes) (offset i j : Nat) (segment : Bytes) : Prop where
  segment_eq : text.segments[i]? = some segment
  le_length : j ≤ segment.length
  offset_eq : offset = segmentStart text i + j
  byte : j < segment.length → text[offset]? = segment[j]?
  at_end : j = segment.length ↔ offset = text.length ∨ text[offset]? = some 0x0A

/-- A text cut at an offset, and the segment that the offset stands in. -/
theorem inSegment_cut {lines : List Bytes} {last after head : Bytes} {tail : List Bytes}
    (hlines : ∀ line ∈ lines, 0x0A ∉ line) (hlast : 0x0A ∉ last)
    (hafter : segments after = head :: tail) :
    InSegment (closed lines ++ last ++ after) (closed lines ++ last).length lines.length
      last.length (last ++ head) := by
  have hsegments : segments (closed lines ++ last ++ after) = lines ++ (last ++ head) :: tail := by
    rw [List.append_assoc, segments_closed hlines, segments_piece hlast hafter]
  have hbyte : (closed lines ++ last ++ after)[(closed lines ++ last).length]? = after.head? := by
    rw [List.getElem?_append_right le_rfl, Nat.sub_self, List.head?_eq_getElem?]
  have hend : (closed lines ++ last).length = (closed lines ++ last ++ after).length ↔
      after = [] := by
    simp only [List.length_append, Nat.left_eq_add, List.length_eq_zero_iff]
  refine ⟨?_, ?_, ?_, ?_, ?_⟩
  · rw [hsegments, List.getElem?_append_right le_rfl, Nat.sub_self, List.getElem?_cons_zero]
  · rw [List.length_append]
    exact Nat.le_add_right ..
  · rw [segmentStart, hsegments, List.take_left, List.length_append]
  · intro hlt
    rw [hbyte, List.getElem?_append_right le_rfl, Nat.sub_self, ← List.head?_eq_getElem?]
    rcases head_segments hafter with ⟨rfl, -⟩ | ⟨-, -, -, hhead⟩
    · simp at hlt
    · exact hhead.symm
  · rw [hbyte, hend, List.length_append, Nat.left_eq_add, List.length_eq_zero_iff]
    rcases head_segments hafter with ⟨rfl, hstart⟩ | ⟨hne, hnil, hfeed, -⟩
    · simp [hstart]
    · simp [hne, hnil, hfeed]

end Bytes

namespace Position

theorem advance_piece (p : Position) {piece : Bytes} (h : 0x0A ∉ piece) :
    p.advance piece = ⟨p.offset + piece.length, p.line, p.column + piece.length⟩ := by
  induction piece generalizing p with
  | nil => rfl
  | cons b piece ih =>
    obtain ⟨hb, hpiece⟩ := not_or.1 (mt List.mem_cons.2 h)
    have hstep : p.step b = ⟨p.offset + 1, p.line, p.column + 1⟩ := by
      rw [step, if_neg (Ne.symm hb)]
    show (p.step b).advance piece = _
    rw [ih _ hpiece, hstep, List.length_cons]
    simp only [mk.injEq, true_and]
    omega

/-- Each line leads to the beginning of the next one. -/
theorem advance_closed {lines : List Bytes} (h : ∀ line ∈ lines, 0x0A ∉ line) (offset line : Nat) :
    advance ⟨offset, line, 1⟩ (Bytes.closed lines) =
      ⟨offset + (Bytes.closed lines).length, line + lines.length, 1⟩ := by
  induction lines generalizing offset line with
  | nil => rfl
  | cons text lines ih =>
    obtain ⟨htext, hlines⟩ := List.forall_mem_cons.1 h
    rw [Bytes.closed_cons, advance_append, advance_piece _ htext]
    show advance ⟨offset + text.length + 1, line + 1, 1⟩ (Bytes.closed lines) = _
    rw [ih hlines, List.length_append, List.length_cons, List.length_cons]
    simp only [mk.injEq, and_true]
    omega

/-- **Line and column say where in which segment an offset is.** -/
theorem exists_inSegment {text : Bytes} {offset : Nat} (h : offset ≤ text.length) :
    ∃ i j segment, ofOffset text offset = ⟨offset, i + 1, j + 1⟩ ∧
      Bytes.InSegment text offset i j segment := by
  obtain ⟨lines, last, hbefore, hlines, hlast⟩ := Bytes.exists_closed (text.take offset)
  obtain ⟨head, tail, hafter⟩ := Bytes.exists_segments (text.drop offset)
  have hin := Bytes.inSegment_cut hlines hlast hafter
  rw [← hbefore, List.take_append_drop, List.length_take_of_le h] at hin
  refine ⟨_, _, _, ?_, hin⟩
  have hoffset : (Bytes.closed lines ++ last).length = offset := by
    rw [← hbefore, List.length_take_of_le h]
  rw [List.length_append] at hoffset
  rw [ofOffset, hbefore, advance_append, start, advance_closed hlines, advance_piece _ hlast]
  simp only [mk.injEq]
  omega

end Position

/-! ## From addresses back to offsets -/

namespace Bytes

variable {text : Bytes}

/-- The offset of a line and a column. -/
def offsetOf (text : Bytes) (line column : Nat) : Nat :=
  segmentStart text (line - 1) + (column - 1)

theorem segmentStart_succ {i : Nat} {segment : Bytes} (h : text.segments[i]? = some segment) :
    segmentStart text (i + 1) = segmentStart text i + (segment.length + 1) := by
  unfold segmentStart
  rw [List.take_add_one, h, Option.toList_some, closed_concat, List.length_append,
    List.length_append, List.length_singleton]

theorem segmentStart_mono (text : Bytes) : Monotone (segmentStart text) := by
  apply monotone_nat_of_le_succ
  intro i
  cases h : text.segments[i]? with
  | none => simp [segmentStart, List.take_add_one, h]
  | some segment =>
    rw [segmentStart_succ h]
    exact Nat.le_add_right ..

/-- All segments with their line feeds are one byte more than the text: the last one has no line
feed. -/
theorem segmentStart_length (text : Bytes) :
    segmentStart text text.segments.length = text.length + 1 := by
  obtain ⟨lines, last, rfl, hlines, hlast⟩ := exists_closed text
  have hsegments : segments (closed lines ++ last) = lines ++ [last] := by
    rw [segments_closed hlines, segments, List.splitOn_eq_singleton hlast]
  rw [segmentStart, List.take_length, hsegments, closed_concat, ← List.append_assoc,
    List.length_append, List.length_singleton]

/-- A place in an earlier segment has the smaller offset. -/
theorem lt_of_segment_lt {i i' j : Nat} {segment : Bytes}
    (hsegment : text.segments[i]? = some segment) (hj : j ≤ segment.length) (hlt : i < i')
    (j' : Nat) : segmentStart text i + j < segmentStart text i' + j' := by
  have hnext := segmentStart_mono text (Nat.succ_le_of_lt hlt)
  rw [Nat.succ_eq_add_one, segmentStart_succ hsegment] at hnext
  omega

theorem offset_le {i j : Nat} {segment : Bytes} (hsegment : text.segments[i]? = some segment)
    (hj : j ≤ segment.length) : segmentStart text i + j ≤ text.length := by
  have hlt := (List.getElem?_eq_some_iff.1 hsegment).1
  have hlast := lt_of_segment_lt hsegment hj hlt 0
  rw [segmentStart_length] at hlast
  omega

end Bytes

namespace Position

/-- **Each place in a segment is the address of an offset.** -/
theorem ofOffset_segment {text segment : Bytes} {i j : Nat}
    (hsegment : text.segments[i]? = some segment) (hj : j ≤ segment.length) :
    ofOffset text (Bytes.segmentStart text i + j) =
      ⟨Bytes.segmentStart text i + j, i + 1, j + 1⟩ := by
  obtain ⟨i', j', segment', hposition, hin⟩ := exists_inSegment (Bytes.offset_le hsegment hj)
  have hoffset := hin.offset_eq
  -- another segment would give another offset
  obtain rfl : i = i' := by
    rcases Nat.lt_trichotomy i i' with hlt | heq | hlt
    · have := Bytes.lt_of_segment_lt hsegment hj hlt j'
      omega
    · exact heq
    · have := Bytes.lt_of_segment_lt hin.segment_eq hin.le_length hlt j
      omega
  obtain rfl : j = j' := Nat.add_left_cancel hoffset
  exact hposition

theorem offsetOf_ofOffset {text : Bytes} {offset : Nat} (h : offset ≤ text.length) :
    Bytes.offsetOf text (ofOffset text offset).line (ofOffset text offset).column = offset := by
  obtain ⟨i, j, segment, hposition, hin⟩ := exists_inSegment h
  rw [hposition]
  exact hin.offset_eq.symm

end Position

/-! ## Tokens -/

/-- Where a token starts. -/
def Token.position (t : Token) : Position :=
  ⟨t.pos, t.line, t.column⟩

/-- The tokens stand in a text at increasing addresses, and each address leads back to the offset of
its token. -/
structure Addressed (text : Bytes) (tokens : List Token) : Prop where
  increasing : tokens.Pairwise fun t u => t.position.address < u.position.address
  position : ∀ t ∈ tokens, t.pos ≤ text.length ∧ t.position = .ofOffset text t.pos
  offset : ∀ t ∈ tokens, text.offsetOf t.line t.column = t.pos

theorem addressed_of_pos {text : Bytes} {tokens : List Token}
    (hplaced : ∀ t ∈ tokens, t.pos ≤ text.length ∧ t.position = .ofOffset text t.pos)
    (hpos : tokens.Pairwise fun t u => t.pos < u.pos) : Addressed text tokens := by
  refine ⟨?_, hplaced, ?_⟩
  · refine hpos.imp_of_mem fun {t u} ht hu hlt => ?_
    obtain ⟨hle, hposition⟩ := hplaced t ht
    obtain ⟨hle', hposition'⟩ := hplaced u hu
    rw [hposition, hposition']
    exact Position.strictMonoOn_address text hle hle' hlt
  · intro t ht
    obtain ⟨hle, hposition⟩ := hplaced t ht
    have hoffset := Position.offsetOf_ofOffset hle
    rwa [← hposition] at hoffset

namespace Token

variable {t : Token} {before : Bytes}

theorem pos_of_position (h : t.position = Position.start.advance before) :
    t.pos = before.length := by
  have hoffset := congrArg Position.offset h
  rw [Position.offset_advance] at hoffset
  exact hoffset.trans (Nat.zero_add _)

/-- A token behind the first part of a text stands at an offset of the text. -/
theorem placed (h : t.position = Position.start.advance before) (after : Bytes) :
    t.pos ≤ (before ++ after).length ∧ t.position = .ofOffset (before ++ after) t.pos := by
  rw [pos_of_position h, Position.ofOffset, List.take_left, List.length_append]
  exact ⟨Nat.le_add_right .., h⟩

end Token

namespace Laid

variable {p : Position} {text : Bytes} {tokens : List Token}

/-- Each token stands behind some part of the text. -/
theorem exists_before (h : Laid p text tokens) :
    ∀ t ∈ tokens, ∃ before after, text = before ++ after ∧ t.position = p.advance before := by
  induction h with
  | blank => simp
  | @token p gap text rest kind tokens _ _ _ _ ih =>
    intro t ht
    rcases List.mem_cons.1 ht with rfl | ht
    · exact ⟨gap, _, rfl, rfl⟩
    · obtain ⟨before, after, rfl, hposition⟩ := ih t ht
      refine ⟨gap ++ (lexeme kind text ++ before), after, by simp, ?_⟩
      rw [hposition, Position.advance_append, Position.advance_append]

theorem pos_lt (h : Laid p text tokens) : ∀ t ∈ tokens, t.pos < p.offset + text.length := by
  intro t ht
  obtain ⟨hle, hprefix⟩ := h.lexeme_isPrefix t ht
  have hlexeme := List.length_pos_iff.2 (h.spelled t ht).lexeme_ne_nil
  have hlength := hprefix.length_le
  rw [List.length_drop] at hlength
  omega

theorem pos_increasing (h : Laid p text tokens) : tokens.Pairwise fun t u => t.pos < u.pos := by
  refine h.pairwise.imp_of_mem fun {t u} ht _ hle => ?_
  have hlexeme := List.length_pos_iff.2 (h.spelled t ht).lexeme_ne_nil
  omega

/-- **A layout has its tokens at increasing addresses**, and so with a token at its end. -/
theorem addressed (h : Laid .start text tokens) {last : Token}
    (hlast : last.position = Position.start.advance text) (rest : Bytes) :
    Addressed (text ++ rest) (tokens ++ [last]) := by
  apply addressed_of_pos
  · intro t ht
    rcases List.mem_append.1 ht with ht | ht
    · obtain ⟨before, after, rfl, hposition⟩ := h.exists_before t ht
      rw [List.append_assoc]
      exact Token.placed hposition _
    · rw [List.mem_singleton.1 ht]
      exact Token.placed hlast rest
  · rw [List.pairwise_append]
    refine ⟨h.pos_increasing, List.pairwise_singleton .., ?_⟩
    intro t ht u hu
    rw [List.mem_singleton.1 hu, Token.pos_of_position hlast]
    exact (h.pos_lt t ht).trans_eq (Nat.zero_add _)

end Laid

/-! ## Faithful addresses -/

/-- **Line and column are a faithful address of an offset.** They are found by counting. Offsets up
to the end of the text are in the order of their addresses, and a line and a column are the address
of an offset exactly if they are a place in a segment. The tokens of a text, and those before a
lexical error with the error itself, have increasing addresses that lead back to their offsets. -/
theorem address_faithful (input : Bytes) :
    (∀ offset, Position.ofOffset input offset = .counted (input.take offset)) ∧
    (∀ p q, p ≤ input.length → q ≤ input.length →
      (p < q ↔ (Position.ofOffset input p).address < (Position.ofOffset input q).address)) ∧
    (∀ offset, offset ≤ input.length → ∃ i j segment,
      Position.ofOffset input offset = ⟨offset, i + 1, j + 1⟩ ∧
        input.InSegment offset i j segment) ∧
    (∀ i j segment, input.segments[i]? = some segment → j ≤ segment.length →
      Position.ofOffset input (input.segmentStart i + j) =
        ⟨input.segmentStart i + j, i + 1, j + 1⟩) ∧
    (∀ tokens, tokenize input = .ok tokens → Addressed input tokens) ∧
    ∀ e, tokenize input = .error e → ∃ found failure,
      (Lexer.ofText filterRules input).stream = (found, .closed failure (some e)) ∧
        e = ⟨input, failure.pos, failure.line, failure.column⟩ ∧
        Addressed input (found ++ [failure]) := by
  refine ⟨fun offset => Position.advance_start_eq_counted _, ?_, ?_, ?_, ?_, ?_⟩
  · intro p q hp hq
    exact ((Position.strictMonoOn_address input).lt_iff_lt hp hq).symm
  · intro offset hoffset
    exact Position.exists_inSegment hoffset
  · intro i j segment hsegment hj
    exact Position.ofOffset_segment hsegment hj
  · intro tokens h
    obtain ⟨found, hlaid, rfl⟩ := laid_of_tokenize h
    have hclosing : (Token.closing input).position = Position.start.advance input := rfl
    have haddressed := hlaid.addressed hclosing []
    rwa [List.append_nil] at haddressed
  · intro e h
    obtain ⟨taken, rest, found, rfl, -, hlaid, -, rfl, hlex⟩ := laid_of_tokenize_error h
    exact ⟨found, _, Lexer.stream_ofText hlex, rfl, hlaid.addressed rfl rest⟩

-- Two lines with an empty one between them. A line feed stands in the last column of the line that
-- it ends, and the end of the text is the beginning of a fourth line.
example : (List.range 6).map (fun offset =>
    let p := Position.ofOffset [0x61, 0x0A, 0x0A, 0x62, 0x0A] offset
    (p.line, p.column)) = [(1, 1), (1, 2), (2, 1), (3, 1), (3, 2), (4, 1)] := by
  decide

end FilterQuery
