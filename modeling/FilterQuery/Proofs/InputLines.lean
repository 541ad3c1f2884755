import FilterQuery.Command
import FilterQuery.Proofs.Layout

/-!
# Lines of input

The command finds its expressions on the lines of a text, with the white space at both ends taken
away. The two relations of this module say what that means without going over bytes.

**Lines.** `Lined text lines`: the text is these lines, each ended by a line feed, which the last
one may lack unless it is empty. Every text has exactly one such list of lines (`lined_iff`).

**Trimming.** `Trims line e`: `e` stands in the line with white space before and behind it, and does
not start or end with any itself. Every line has exactly one such part (`trims_iff`), although
trimming goes by chunks and the line may have stray bytes.
-/

namespace FilterQuery

/-! ## Lines -/

/-- The lines of a text. -/
inductive Lined : Bytes → List Bytes → Prop
  | nil : Lined [] []
  | last {line : Bytes} : line ≠ [] → 0x0A ∉ line → Lined line [line]
  | cons {line rest : Bytes} {lines : List Bytes} : 0x0A ∉ line → Lined rest lines →
      Lined (line ++ 0x0A :: rest) (line :: lines)

namespace Bytes

theorem consLine_feed (lines : List Bytes) : consLine 0x0A lines = [] :: lines := by
  cases lines <;> rfl

theorem consLine_nil {b : UInt8} (h : b ≠ 0x0A) : consLine b [] = [[b]] := by
  simp [consLine, h]

theorem consLine_cons {b : UInt8} (h : b ≠ 0x0A) (line : Bytes) (lines : List Bytes) :
    consLine b (line :: lines) = (b :: line) :: lines := by
  simp [consLine, h]

theorem lines_cons (b : UInt8) (text : Bytes) : lines (b :: text) = consLine b (lines text) :=
  rfl

theorem lines_append {line : Bytes} (h : 0x0A ∉ line) (rest : Bytes) :
    lines (line ++ 0x0A :: rest) = line :: lines rest := by
  induction line with
  | nil => exact consLine_feed _
  | cons b line ih =>
    obtain ⟨hb, hline⟩ := not_or.1 (mt List.mem_cons.2 h)
    rw [List.cons_append, lines_cons, ih hline, consLine_cons (Ne.symm hb)]

theorem lines_eq_singleton {line : Bytes} (hne : line ≠ []) (h : 0x0A ∉ line) :
    lines line = [line] := by
  induction line with
  | nil => exact absurd rfl hne
  | cons b line ih =>
    obtain ⟨hb, hline⟩ := not_or.1 (mt List.mem_cons.2 h)
    cases line with
    | nil => exact consLine_nil (Ne.symm hb)
    | cons c line => rw [lines_cons, ih (by simp) hline, consLine_cons (Ne.symm hb)]

theorem lined_lines (text : Bytes) : Lined text (lines text) := by
  induction text with
  | nil => exact .nil
  | cons b text ih =>
    rw [lines_cons]
    by_cases hb : b = 0x0A
    · rw [hb, consLine_feed]
      exact .cons List.not_mem_nil ih
    -- Another byte joins the first line, if there is one.
    generalize lines text = found at ih ⊢
    cases ih with
    | nil =>
      rw [consLine_nil hb]
      exact .last (by simp) (by simp [Ne.symm hb])
    | last hne hline =>
      rw [consLine_cons hb]
      exact .last (by simp) (by simp [Ne.symm hb, hline])
    | cons hline hrest =>
      rw [consLine_cons hb, ← List.cons_append]
      exact .cons (by simp [Ne.symm hb, hline]) hrest

end Bytes

/-- **Every text has one list of lines.** -/
theorem lined_iff {text : Bytes} {lines : List Bytes} :
    Lined text lines ↔ lines = Bytes.lines text := by
  constructor
  · intro h
    induction h with
    | nil => rfl
    | last hne hline => exact (Bytes.lines_eq_singleton hne hline).symm
    | cons hline _ ih => rw [Bytes.lines_append hline, ih]
  · rintro rfl
    exact Bytes.lined_lines text

/-! ## Trimming -/

/-- The text has white space at neither end. -/
def Bare (text : Bytes) : Prop :=
  ∀ n char rest, Utf8.Character n char → Blank.isBlank n = true →
    text ≠ char ++ rest ∧ text ≠ rest ++ char

/-- The part of a line between the white space at its ends. -/
def Trims (line e : Bytes) : Prop :=
  ∃ before after, line = before ++ (e ++ after) ∧ Blanks before ∧ Blanks after ∧ Bare e

theorem Blanks.singleton {n : Nat} {char : Bytes} (h : Utf8.Character n char)
    (hblank : Blank.isBlank n = true) : Blanks char := by
  have hcons := Blanks.cons h hblank .nil
  rwa [List.append_nil] at hcons

theorem exists_trims (line : Bytes) : ∃ e, Trims line e := by
  induction hlen : line.length using Nat.strong_induction_on generalizing line with
  | _ len ih =>
    by_cases hbare : Bare line
    · exact ⟨line, [], [], by simp, .nil, .nil, hbare⟩
    -- A character of white space can be taken away at one end.
    simp only [Bare, not_forall, not_and_or, not_not] at hbare
    obtain ⟨n, char, rest, hchar, hblank, rfl | rfl⟩ := hbare
    all_goals
      have hpos := List.length_pos_iff.2 hchar.ne_nil
      rw [List.length_append] at hlen
      obtain ⟨e, before, after, rfl, hbefore, hafter, he⟩ := ih rest.length (by omega) rest rfl
    · refine ⟨e, char ++ before, after, by simp, .cons hchar hblank hbefore, hafter, he⟩
    · refine ⟨e, before, after ++ char, by simp, hbefore, hafter.append ?_, he⟩
      exact .singleton hchar hblank

namespace Blank

theorem chunks_blanks {gap : Bytes} (h : Blanks gap) (rest : Bytes) :
    Utf8.chunks (gap ++ rest) = Utf8.chunks gap ++ Utf8.chunks rest ∧
      ∀ chunk ∈ Utf8.chunks gap, isBlankChunk chunk = true := by
  induction h with
  | nil => exact ⟨rfl, nofun⟩
  | cons hchar hblank _ ih =>
    obtain ⟨happend, hall⟩ := ih
    rw [List.append_assoc, Utf8.chunks_character hchar, Utf8.chunks_character hchar, happend]
    refine ⟨rfl, fun chunk hchunk => ?_⟩
    rcases List.mem_cons.1 hchunk with rfl | hchunk
    · exact hblank
    · exact hall chunk hchunk

theorem chunks_append_blanks {gap : Bytes} (h : Blanks gap) (text : Bytes) :
    Utf8.chunks (text ++ gap) = Utf8.chunks text ++ Utf8.chunks gap := by
  cases h with
  | nil => simp [Utf8.chunks, Utf8.chunksFrom]
  | cons hchar _ _ => exact Utf8.chunks_append hchar text _

/-- Neither the first nor the last chunk of a bare text is white space. -/
theorem chunks_bare {text : Bytes} (h : Bare text) {chunk : Utf8.Chunk} {others : List Utf8.Chunk}
    (hchunks : Utf8.chunks text = chunk :: others ∨ Utf8.chunks text = others ++ [chunk]) :
    isBlankChunk chunk = false := by
  by_contra hblank
  obtain ⟨n, hcode, hn⟩ := (Option.any_eq_true ..).1 (Bool.not_eq_false _ ▸ hblank)
  have hmem : chunk ∈ Utf8.chunks text := by
    rcases hchunks with hchunks | hchunks <;> simp [hchunks]
  have hchar := Utf8.character_of_mem_chunks hmem hcode
  have htext := Utf8.flatMap_chunks text
  obtain ⟨hfirst, hlast⟩ := h n chunk.bytes (others.flatMap (·.bytes)) hchar hn
  rcases hchunks with hchunks | hchunks
  · rw [hchunks, List.flatMap_cons] at htext
    exact hfirst htext.symm
  · rw [hchunks, List.flatMap_append, List.flatMap_singleton] at htext
    exact hlast htext.symm

/-- Taking away what satisfies `p` at both ends leaves what does not start or end with it. -/
theorem dropWhile_ends {α : Type} {p : α → Bool} {middle before after : List α}
    (hfirst : ∀ x others, middle = x :: others → p x = false)
    (hlast : ∀ x others, middle = others ++ [x] → p x = false)
    (hbefore : ∀ x ∈ before, p x = true) (hafter : ∀ x ∈ after, p x = true) :
    (((before ++ (middle ++ after)).dropWhile p).reverse.dropWhile p).reverse = middle := by
  rw [List.dropWhile_append_of_pos hbefore]
  cases middle with
  | nil => rw [List.nil_append, List.dropWhile_eq_nil_iff.2 hafter]; rfl
  | cons x others =>
    have hx := hfirst x others rfl
    rw [List.cons_append, List.dropWhile_cons_of_neg (by simp [hx]), ← List.cons_append,
      List.reverse_append, List.dropWhile_append_of_pos (by simpa using hafter)]
    obtain ⟨init, y, hinit⟩ := ((x :: others).eq_nil_or_concat).resolve_left (by simp)
    rw [List.concat_eq_append] at hinit
    have hy := hlast y init hinit
    rw [hinit, List.reverse_append, List.reverse_singleton, List.singleton_append,
      List.dropWhile_cons_of_neg (by simp [hy])]
    simp

theorem trim_eq {line e : Bytes} (h : Trims line e) : trim line = e := by
  obtain ⟨before, after, rfl, hbefore, hafter, he⟩ := h
  obtain ⟨hchunks, hblank⟩ := chunks_blanks hbefore (e ++ after)
  have hblank' := (chunks_blanks hafter []).2
  rw [trim, hchunks, chunks_append_blanks hafter,
    dropWhile_ends (fun _ _ h => chunks_bare he (.inl h)) (fun _ _ h => chunks_bare he (.inr h))
      hblank hblank', Utf8.flatMap_chunks]

end Blank

/-- **Every line has one part between its white space.** -/
theorem trims_iff {line e : Bytes} : Trims line e ↔ e = Blank.trim line := by
  constructor
  · exact fun h => (Blank.trim_eq h).symm
  · rintro rfl
    obtain ⟨e, he⟩ := exists_trims line
    rwa [Blank.trim_eq he]

end FilterQuery
