import FilterQuery.Proofs.Depth
import FilterQuery.Proofs.Outcome
import Mathlib.Data.List.Forall2

/-!
# Runs of one connective

Comparisons with one connective between them, `a and b and c …` or `a or b or c …`, are a run. A run
is no deeper for the limits on expressions and filters than its members are, however long it is.
Its document is: every connective puts what stands on its left three levels further in.

**Theorem (`compile_run`).** The root filter of a run nests lists of two filters to the left, in the
order of the members. The run compiles just when every member but the first can stand one level
deeper and the document is not nested deeper than JSON is read. Up to 3331 members always are within
that bound, and 3333 or more never are; such a run fails in the check of its own document.

**Texts.** Two texts with a connective between them are laid out as the two layouts one after the
other (`Laid.joined`); the tokens of the second text only change their places.

**Steps.** `IsRun` says what is known of the text of a run, its derivation and its filter.
`IsRun.link` adds one member to a run, `IsRun.exists_links` all of them.
-/

namespace FilterQuery

/-! ## Layouts one after the other -/

namespace Laid

variable {p : Position} {text more : Bytes} {tokens tokens' : List Token}

/-- A layout may stand anywhere: its tokens are the same, and their offsets move along. -/
theorem exists_moved (h : Laid p text tokens) (p' : Position) : ∃ tokens' : List Token,
    Laid p' text tokens' ∧ List.Forall₂ (fun t t' : Token =>
      t'.unplaced = t.unplaced ∧ t'.pos + p.offset = t.pos + p'.offset) tokens tokens' := by
  induction h generalizing p' with
  | blank hgap => exact ⟨[], .blank hgap, .nil⟩
  | @token p gap text rest kind tokens hgap hspelled hapart _ ih =>
    obtain ⟨tokens', hlaid, hmoved⟩ := ih ((p'.advance gap).advance (lexeme kind text))
    have hoffset (q : Position) : (Token.located (q.advance gap) kind text).pos =
        q.offset + gap.length := q.offset_advance gap
    refine ⟨_, .token hgap hspelled hapart hlaid, .cons ⟨rfl, ?_⟩ (hmoved.imp ?_)⟩
    · rw [hoffset, hoffset]
      omega
    · intro t t' ht
      rw [Position.offset_advance, Position.offset_advance, Position.offset_advance,
        Position.offset_advance] at ht
      exact ⟨ht.1, by omega⟩

theorem relocate (h : Laid p text tokens) (p' : Position) : ∃ tokens' : List Token,
    Laid p' text tokens' ∧ tokens'.map Token.unplaced = tokens.map Token.unplaced := by
  obtain ⟨tokens', hlaid, hmoved⟩ := h.exists_moved p'
  refine ⟨tokens', hlaid, List.forall₂_eq_eq_eq ▸ ?_⟩
  rw [List.forall₂_map_left_iff, List.forall₂_map_right_iff]
  exact hmoved.flip.imp fun t t' ht => ht.1

/-- A detached text may follow a layout. -/
theorem append_detached (h : Laid p text tokens) (hdetached : Detached more)
    (hmore : Laid (p.advance text) more tokens') : Laid p (text ++ more) (tokens ++ tokens') := by
  induction h with
  | blank hblank => exact blank_append hblank hmore
  | token hblank hspelled hapart _ ih =>
    rw [Position.advance_append, Position.advance_append] at hmore
    rw [List.append_assoc, List.append_assoc]
    exact .token hblank hspelled (hapart.append_detached hdetached) (ih hmore)

/-- White space keeps two layouts apart. -/
theorem append {gap : Bytes} (h : Laid p text tokens) (hgap : Blanks gap) (hne : gap ≠ [])
    (hmore : Laid ((p.advance text).advance gap) more tokens') :
    Laid p (text ++ (gap ++ more)) (tokens ++ tokens') :=
  h.append_detached (hgap.detached hne more) (blank_append hgap hmore)

end Laid

/-- Tokens at other places make the same phrase up to places. -/
theorem Phrase.exists_tokens {q : Phrase} {found : List Token}
    (h : found.map Token.unplaced = q.tokens.map Token.unplaced) :
    ∃ q' : Phrase, q'.tokens = found ∧ q'.unplaced = q.unplaced := by
  induction q generalizing found with
  | literal t =>
    obtain ⟨t', rfl, ht⟩ := List.map_eq_singleton_iff.1 h
    exact ⟨.literal t', rfl, by rw [unplaced, unplaced, ht]⟩
  | group opening inner closing ih =>
    simp only [tokens, List.cons_append, List.map_cons, List.map_append, List.map_nil] at h
    obtain ⟨opening', rest, rfl, ho, hrest⟩ := List.map_eq_cons_iff.1 h
    obtain ⟨found, last, rfl, hfound, hlast⟩ := List.map_eq_append_iff.1 hrest
    obtain ⟨closing', rfl, hc⟩ := List.map_eq_singleton_iff.1 hlast
    obtain ⟨inner', rfl, hinner⟩ := ih hfound
    exact ⟨.group opening' inner' closing', rfl, by rw [unplaced, unplaced, ho, hinner, hc]⟩
  | applied op arg ih =>
    obtain ⟨op', rest, rfl, hop, hrest⟩ := List.map_eq_cons_iff.1 h
    obtain ⟨arg', rfl, harg⟩ := ih hrest
    exact ⟨.applied op' arg', rfl, by rw [unplaced, unplaced, hop, harg]⟩
  | joined left op right ihl ihr =>
    simp only [tokens, List.map_append, List.map_cons] at h
    obtain ⟨found, rest, rfl, hfound, hrest⟩ := List.map_eq_append_iff.1 h
    obtain ⟨op', rest, rfl, hop, hrest⟩ := List.map_eq_cons_iff.1 hrest
    obtain ⟨left', rfl, hleft⟩ := ihl hfound
    obtain ⟨right', rfl, hright⟩ := ihr hrest
    exact ⟨.joined left' op' right', rfl, by rw [unplaced, unplaced, hleft, hop, hright]⟩
  | matched left op pattern ih =>
    simp only [tokens, List.map_append, List.map_cons, List.map_nil] at h
    obtain ⟨found, rest, rfl, hfound, hrest⟩ := List.map_eq_append_iff.1 h
    obtain ⟨op', rest, rfl, hop, hrest⟩ := List.map_eq_cons_iff.1 hrest
    obtain ⟨pattern', rfl, hpattern⟩ := List.map_eq_singleton_iff.1 hrest
    obtain ⟨left', rfl, hleft⟩ := ih hfound
    exact ⟨.matched left' op' pattern', rfl, by rw [unplaced, unplaced, hleft, hop, hpattern]⟩

/-- What stands between two members of a run: the word of the connective between two blanks. -/
def TokenKind.link (kind : TokenKind) : Bytes :=
  [0x20] ++ (kind.keyword ++ [0x20])

/-- A text, an operator and another text are laid out as the operator joins their phrases. -/
theorem Laid.joined {p p' : Position} {kind : TokenKind} (hfixed : kind.isFixed = true)
    {text more : Bytes} {left right : Phrase} (hleft : Laid p text left.tokens)
    (hright : Laid p' more right.tokens) :
    ∃ (op : Token) (right' : Phrase), op.kind = kind ∧ right'.unplaced = right.unplaced ∧
      Laid p (text ++ kind.link ++ more) (Phrase.joined left op right').tokens := by
  let middle := (p.advance text).advance [0x20]
  obtain ⟨found, hfound, hsame⟩ :=
    hright.relocate (((middle.advance []).advance kind.keyword).advance [0x20])
  obtain ⟨right', rfl, hplace⟩ := Phrase.exists_tokens hsame
  have hlexeme : lexeme kind kind.keyword = kind.keyword := lexeme_fixed hfixed _
  have hword : Laid middle ([] ++ (lexeme kind kind.keyword ++ ([0x20] ++ more)))
      (.located (middle.advance []) kind kind.keyword :: right'.tokens) := by
    refine .token .nil ((spelled_fixed hfixed).2 rfl) ?_ ?_
    · exact Detached.apart fun _ => detached_blank more
    · rw [hlexeme]
      exact hfound.blank_append blanks_blank
  rw [hlexeme, List.nil_append] at hword
  refine ⟨.located (middle.advance []) kind kind.keyword, right', rfl, hplace, ?_⟩
  have hall := hleft.append blanks_blank (by simp) hword
  simpa [TokenKind.link, Phrase.tokens] using hall

/-! ## Runs -/

theorem Bytes.join_cons_cons (sep first second : Bytes) (parts : List Bytes) :
    join sep (first :: second :: parts) = join sep ((first ++ sep ++ second) :: parts) := by
  cases parts with
  | nil => rfl
  | cons third parts => simp [join]

namespace Filter

/-- Lists of two filters, nested to the left. -/
def run (occur : Occur) (first : Filter) (rest : List Filter) : Filter :=
  rest.foldl (fun left right => list occur [left, right]) first

end Filter

/-- The text is a comparison, and compiles to the filter on its own. -/
def Compares (text : Bytes) (filter : Filter) : Prop :=
  ∃ op left right paren c, parse defaultDepth text = .ok (.binary op left right paren) ∧
    op.kind.isComparison = true ∧ compile {} text = .ok c ∧ c.query = .ofFilter filter

/-- The text is laid out as a phrase whose expression has the filter, at the top and on the left of
the connective, and the filter can be written. -/
structure IsRun (kind : TokenKind) (s : Stratum) (text : Bytes) (q : Phrase) (filter : Filter) :
    Prop where
  laid : Laid .start text q.tokens
  derives : Derives s q
  top : q.tree.filterAt defaultFilterDepth 0 = .ok filter
  left : q.tree.filterAt defaultFilterDepth (if q.tree.continuesRun kind then 0 else 1) =
    .ok filter
  writable : filter.toJson.badNumber? = none

/-- A phrase for a comparison is at least as tight as an equality. -/
theorem Derives.equality_of_comparison {s : Stratum} {q : Phrase} (h : Derives s q) {paren b : Bool}
    {op : Token} {left right : Expr} (htree : q.treeIn paren = .binary op left right b)
    (hop : op.kind.isComparison = true) : Derives .equality q := by
  induction h with
  | @literal t ht =>
    simp only [Phrase.treeIn, Phrase.literalTree] at htree
    split at htree <;> cases htree
  | group ho hp hc _ => exact (Derives.group ho hp hc).mono (by decide)
  | applied => cases htree
  | matched hp hpat htext _ => exact (Derives.matched hp hpat htext).mono (by decide)
  | @joined s p q op' hp hop' hq _ _ =>
    cases htree
    refine (Derives.joined hp hop' hq).mono ?_
    cases s with
    | disjunction | conjunction =>
      simp only [Stratum.operators, List.mem_singleton] at hop'
      rw [hop'] at hop
      cases hop
    | _ => decide
  | tighter _ ih => exact ih htree

/-- The filter of a comparison is the same at every depth within the limit. -/
theorem Expr.filterAt_comparison_eq_ok {limit : Int} {depth : Nat} {op : Token}
    {left right : Expr} {paren : Bool} {filter : Filter} (hop : op.kind.isComparison = true) :
    (binary op left right paren).filterAt limit depth = .ok filter ↔ (depth : Int) ≤ limit ∧
      ∃ field, left.field = .ok field ∧ op.kind.filter field right = .ok filter := by
  simp [filterAt_binary_eq_ok, hop]

/-- What a comparison that compiles has gone through. -/
theorem Compares.exists_filterAt {text : Bytes} {filter : Filter} (h : Compares text filter) :
    ∃ op left right paren, parse defaultDepth text = .ok (.binary op left right paren) ∧
      op.kind.isComparison = true ∧
      (Expr.binary op left right paren).filterAt defaultFilterDepth 0 = .ok filter ∧
      filter.toJson.badNumber? = none := by
  obtain ⟨op, left, right, paren, c, hparse, hop, hcompile, hquery⟩ := h
  obtain ⟨e, filter', hparse', hfilter, hmade, hencode, -⟩ := compile_eq_ok.1 hcompile
  obtain rfl : Expr.binary op left right paren = e := Except.ok.inj (hparse.symm.trans hparse')
  obtain rfl : filter = filter' := by
    rw [hquery] at hmade
    simpa [Query.ofFilter] using hmade
  rw [hquery] at hencode
  exact ⟨op, left, right, paren, hparse, hop, hfilter,
    (Query.badNumber?_ofFilter filter).1 (Json.encode_eq_ok.1 hencode).1⟩

/-- A comparison is a run of its own. -/
theorem Compares.exists_isRun {text : Bytes} {filter : Filter} (h : Compares text filter)
    {kind : TokenKind} (hkind : kind.isComparison = false) :
    ∃ q, IsRun kind .equality text q filter ∧ q.tree.continuesRun kind = false ∧
      (q.nesting : Int) ≤ defaultDepth := by
  obtain ⟨op, left, right, paren, hparse, hop, hfilter, hwritable⟩ := h.exists_filterAt
  obtain ⟨q, p, hlex, hq, hnesting, htree⟩ := exists_phrase hparse
  have hcontinues : q.tree.continuesRun kind = false := by
    have hne : op.kind ≠ kind := by
      rintro rfl
      rw [hkind] at hop
      cases hop
    simp [htree, Expr.continuesRun, hne]
  refine ⟨q, ⟨hlex.laid_of_finished.1, hq.equality_of_comparison htree hop, ?_, ?_, hwritable⟩,
    hcontinues, hnesting⟩
  · rw [htree]
    exact hfilter
  · rw [hcontinues, htree]
    have hmade := ((Expr.filterAt_comparison_eq_ok hop).1 hfilter).2
    exact (Expr.filterAt_comparison_eq_ok hop).2 ⟨by decide, hmade⟩

namespace IsRun

variable {kind : TokenKind} {occur : Occur} {s : Stratum} {text more : Bytes} {left right : Phrase}
  {first second : Filter}

theorem mono {s' : Stratum} (h : IsRun kind s text left first) (hle : s'.level ≤ s.level) :
    IsRun kind s' text left first :=
  { h with derives := h.derives.mono hle }

theorem parse_eq_ok (h : IsRun kind s text left first) {limit : Int} {e : Expr} :
    parse limit text = .ok e ↔ (left.nesting : Int) ≤ limit ∧ left.tree = e :=
  (h.derives.mono s.disjunction_level_le).parse_eq_ok (h.laid.lexes text)

/-- One more comparison makes a longer run. -/
theorem link (hoccur : connective? kind = some occur) (hs : kind ∈ s.operators)
    (hle : s.tighter.level ≤ Stratum.equality.level) (h : IsRun kind s text left first)
    (hmore : IsRun kind .equality more right second)
    (hcontinues : right.tree.continuesRun kind = false) :
    ∃ q, IsRun kind s (text ++ kind.link ++ more) q (.list occur [first, second]) ∧
      q.nesting = max left.nesting (right.nesting + 1) := by
  obtain ⟨op, right', rfl, hplace, hlaid⟩ :=
    h.laid.joined (isFixed_of_infixOp? (infixOp?_of_mem hs)) hmore.laid
  have hnone := isComparison_of_connective hoccur
  -- The comparison stands where it would if it were on the left: one level below the run.
  have hright : right'.tree.filterAt defaultFilterDepth 1 = .ok second := by
    have hfilter := hmore.left
    rw [if_neg (by simp [hcontinues])] at hfilter
    rw [← Expr.filterAt_unplaced, Phrase.tree_of_unplaced hplace, Expr.filterAt_unplaced, hfilter]
  have hfilter : (Phrase.joined left op right').tree.filterAt defaultFilterDepth 0 =
      .ok (.list occur [first, second]) :=
    Expr.filterAt_binary_eq_ok.2
      ⟨by decide, .inr ⟨hnone, occur, first, second, hoccur, h.left, hright, rfl⟩⟩
  have hcontinued : (Phrase.joined left op right').tree.continuesRun op.kind = true := by
    simp [Phrase.tree, Phrase.treeIn, Expr.continuesRun]
  refine ⟨.joined left op right', ⟨hlaid, ?_, hfilter, ?_, ?_⟩, ?_⟩
  · exact .joined h.derives hs ((hmore.derives.of_unplaced hplace).mono hle)
  · rwa [if_pos hcontinued]
  · rw [Filter.badNumber?_list]
    simp [Filter.toJsonList, h.writable, hmore.writable]
  · simp only [Phrase.nesting, Phrase.inside, Phrase.inside_of_unplaced hplace]
    omega

/-- A run needs one level more than each of its members but the first. -/
theorem exists_links (hoccur : connective? kind = some occur) (hs : kind ∈ s.operators)
    (hle : s.tighter.level ≤ Stratum.equality.level) (h : IsRun kind s text left first)
    {rest : List (Bytes × Filter)} (hrest : ∀ m ∈ rest, Compares m.1 m.2) :
    ∃ q, IsRun kind s (Bytes.join kind.link (text :: rest.map Prod.fst)) q
        (.run occur first (rest.map Prod.snd)) ∧
      ∀ limit : Int, (q.nesting : Int) ≤ limit ↔ (left.nesting : Int) ≤ limit ∧
        ∀ m ∈ rest, ∃ e, parse (limit - 1) m.1 = .ok e := by
  induction rest generalizing text left first with
  | nil => exact ⟨left, h, by simp⟩
  | cons m rest ih =>
    obtain ⟨hmember, hrest⟩ := List.forall_mem_cons.1 hrest
    obtain ⟨r, hr, hcontinues, -⟩ := hmember.exists_isRun (isComparison_of_connective hoccur)
    -- The run takes in its next member, and is then the first one of a shorter list.
    obtain ⟨q, hq, hnesting⟩ := h.link hoccur hs hle hr hcontinues
    obtain ⟨q', hq', hlimit⟩ := ih hq hrest
    refine ⟨q', ?_, fun limit => ?_⟩
    · rwa [List.map_cons, List.map_cons, Bytes.join_cons_cons]
    · have hfits : (∃ e, parse (limit - 1) m.1 = .ok e) ↔ (r.nesting : Int) ≤ limit - 1 := by
        simp [hr.parse_eq_ok]
      rw [hlimit, hnesting, List.forall_mem_cons, hfits, ← and_assoc]
      refine and_congr_left' ?_
      omega

/-- Once a run parses, nothing but the check of its document can fail. -/
theorem compile_of_nesting (h : IsRun kind s text left first)
    (hnesting : (left.nesting : Int) ≤ defaultDepth) :
    ((Query.ofFilter first).toJson.depth ≤ Json.Reader.maxNesting → compile {} text =
      .ok ⟨.ofFilter first, (Query.ofFilter first).toJson.render⟩) ∧
    (Json.Reader.maxNesting < (Query.ofFilter first).toJson.depth → ∃ b, compile {} text =
      .error (.malformed
        ⟨(Query.ofFilter first).toJson.render, .unreadable (.misfit b .nesting)⟩)) := by
  have hparse : parse defaultDepth text = .ok left.tree := h.parse_eq_ok.2 ⟨hnesting, rfl⟩
  obtain ⟨members, hobject⟩ := (Expr.filterAt_toJson (numeral_of_parse hparse) h.top).1
  have hencode : (Query.ofFilter first).toJson.encode =
      .ok (Query.ofFilter first).toJson.render :=
    Json.encode_eq_ok.2 ⟨(Query.badNumber?_ofFilter first).2 h.writable, rfl⟩
  constructor
  · intro hdepth
    have hvalid := (Query.validate_ofFilter hobject h.writable).2 hdepth
    simp only [compile, hparse, generate, h.top, Except.map, hencode, hvalid]
  · intro hdeep
    obtain ⟨b, herror⟩ := Query.validate_of_deep h.writable hdeep
    exact ⟨b, by simp only [compile, hparse, generate, h.top, Except.map, hencode, herror]⟩

end IsRun

/-! ## The depth of a document -/

namespace Filter

@[simp] theorem depth_wrap (key : Bytes) (v : Json) : (wrap key v).depth = 1 + v.depth := by
  simp [wrap, Json.depth, Json.depthMembers]

theorem depth_pair (occur : Occur) (left right : Filter) :
    (list occur [left, right]).toJson.depth = 3 + max left.toJson.depth right.toJson.depth := by
  simp only [toJson, wrapBool, depth_wrap, toJsonList, Json.depth, Json.depthItems]
  omega

/-- Every connective of a run adds three levels. -/
theorem depth_run (occur : Occur) {first : Filter} {rest : List Filter} {bound : Nat}
    (hfirst : first.toJson.depth ≤ bound) (hrest : ∀ f ∈ rest, f.toJson.depth ≤ bound) :
    3 * rest.length + first.toJson.depth ≤ (run occur first rest).toJson.depth ∧
      (run occur first rest).toJson.depth ≤ 3 * rest.length + bound := by
  induction rest generalizing first bound with
  | nil => simpa [run] using hfirst
  | cons second rest ih =>
    obtain ⟨hsecond, hrest⟩ := List.forall_mem_cons.1 hrest
    have hpair := depth_pair occur first second
    have hle : (list occur [first, second]).toJson.depth ≤ bound + 3 := by omega
    have hstep := ih hle fun f hf => Nat.le_add_right_of_le (hrest f hf)
    rw [run, List.foldl_cons, ← run, List.length_cons]
    omega

end Filter

theorem Query.depth_ofFilter (filter : Filter) :
    (ofFilter filter).toJson.depth = 4 + filter.toJson.depth := by
  simp only [ofFilter, toJson, Filter.depth_wrap, Filter.toJsonList, Json.depth, Json.depthItems]
  omega

theorem Expr.depth_of_value? {e : Expr} {v : Json} (h : e.value? = some v) : v.depth = 0 := by
  rcases value?_cases h with ⟨text, rfl⟩ | ⟨-, rfl | ⟨b, rfl⟩ | ⟨text, -, rfl⟩⟩ <;> rfl

/-- The filter of a comparison has two levels for a term, three for a bound, and two more than the
filter in it if it stands under an occurrence. -/
theorem TokenKind.depth_filter {kind : TokenKind} {field : Bytes} {right : Expr} {filter : Filter}
    (h : kind.filter field right = .ok filter) :
    2 ≤ filter.toJson.depth ∧ filter.toJson.depth ≤ 4 := by
  rcases filter_eq_ok.1 h with ⟨value, hvalue, hfilter⟩ | ⟨pattern, -, hfilter⟩
  · have hzero := Expr.depth_of_value? hvalue
    rcases hfilter with ⟨-, rfl⟩ | ⟨-, rfl⟩ | ⟨bound, -, rfl⟩ <;>
      simp [Filter.toJson, Filter.mustNot, Filter.isMissing, Filter.wrapBool, hzero]
  · rcases hfilter with ⟨-, rfl⟩ | ⟨-, rfl⟩ <;>
      simp [Filter.toJson, Filter.must, Filter.mustNot, Filter.isMissing, Filter.wrapBool,
        Json.depth]

theorem Compares.depth {text : Bytes} {filter : Filter} (h : Compares text filter) :
    2 ≤ filter.toJson.depth ∧ filter.toJson.depth ≤ 4 := by
  obtain ⟨op, left, right, paren, -, hop, hfilter, -⟩ := h.exists_filterAt
  obtain ⟨-, field, -, hmade⟩ := (Expr.filterAt_comparison_eq_ok hop).1 hfilter
  exact TokenKind.depth_filter hmade

/-- The length of a run gives the depth of its document up to two levels. -/
theorem depth_of_compares (occur : Occur) {text : Bytes} {filter : Filter}
    {rest : List (Bytes × Filter)} (hfirst : Compares text filter)
    (hrest : ∀ m ∈ rest, Compares m.1 m.2) :
    3 * rest.length + 6 ≤ (Query.ofFilter (.run occur filter (rest.map Prod.snd))).toJson.depth ∧
      (Query.ofFilter (.run occur filter (rest.map Prod.snd))).toJson.depth ≤
        3 * rest.length + 8 := by
  obtain ⟨hlow, hhigh⟩ := hfirst.depth
  have hall : ∀ f ∈ rest.map Prod.snd, f.toJson.depth ≤ 4 :=
    List.forall_mem_map.2 fun m hm => (hrest m hm).depth.2
  obtain ⟨hfrom, hto⟩ := Filter.depth_run occur hhigh hall
  rw [List.length_map] at hfrom hto
  rw [Query.depth_ofFilter]
  omega

/-! ## Runs of any length -/

theorem exists_stratum_of_connective {kind : TokenKind} {occur : Occur}
    (h : connective? kind = some occur) :
    ∃ s : Stratum, kind ∈ s.operators ∧ s.tighter.level ≤ Stratum.equality.level := by
  cases kind with
  | and => exact ⟨.conjunction, by decide, by decide⟩
  | or => exact ⟨.disjunction, by decide, by decide⟩
  | _ => cases h

/-- **Long runs.** Comparisons that compile one by one are joined by a connective. If one of them,
other than the first, cannot stand a level deeper, the run does not parse. Else it compiles to the
filters of its members, in order and nested to the left, as long as the document is at most 10000
levels deep, and beyond that the document fails its own check. A run of at most 3331 members keeps
to that depth, and one of 3333 or more never does. -/
theorem compile_run {kind : TokenKind} {occur : Occur} (hkind : connective? kind = some occur)
    {text : Bytes} {filter : Filter} {rest : List (Bytes × Filter)} (hfirst : Compares text filter)
    (hrest : ∀ m ∈ rest, Compares m.1 m.2) :
    let joined := Bytes.join kind.link (text :: rest.map Prod.fst)
    let query := Query.ofFilter (.run occur filter (rest.map Prod.snd))
    ((∃ m ∈ rest, ∀ e, parse (defaultDepth - 1) m.1 ≠ .ok e) →
      ∃ error, compile {} joined = .error (.parse error)) ∧
    ((∀ m ∈ rest, ∃ e, parse (defaultDepth - 1) m.1 = .ok e) →
      (query.toJson.depth ≤ 10000 → compile {} joined = .ok ⟨query, query.toJson.render⟩) ∧
      (10000 < query.toJson.depth → ∃ b, compile {} joined =
        .error (.malformed ⟨query.toJson.render, .unreadable (.misfit b .nesting)⟩))) ∧
    (rest.length + 1 ≤ 3331 → query.toJson.depth ≤ 10000) ∧
    (3333 ≤ rest.length + 1 → 10000 < query.toJson.depth) := by
  intro joined query
  obtain ⟨s, hs, hle⟩ := exists_stratum_of_connective hkind
  obtain ⟨q, hq, -, hnesting⟩ := hfirst.exists_isRun (isComparison_of_connective hkind)
  obtain ⟨q', hq', hlimit⟩ :=
    (hq.mono (s.level_le_tighter.trans hle)).exists_links hkind hs hle hrest
  have hfits : (q'.nesting : Int) ≤ defaultDepth ↔
      ∀ m ∈ rest, ∃ e, parse (defaultDepth - 1) m.1 = .ok e := by
    rw [hlimit, and_iff_right hnesting]
  obtain ⟨hfrom, hto⟩ := depth_of_compares occur hfirst hrest
  refine ⟨?_, fun hdeeper => hq'.compile_of_nesting (hfits.2 hdeeper), fun hlength => ?_,
    fun hlength => ?_⟩
  · rintro ⟨m, hm, hfails⟩
    cases hparse : parse defaultDepth joined with
    | error error => exact ⟨error, compile_eq_parse_error.2 hparse⟩
    | ok e =>
      obtain ⟨e', he'⟩ := hfits.1 (hq'.parse_eq_ok.1 hparse).1 m hm
      exact absurd he' (hfails e')
  · exact hto.trans (by omega)
  · exact Nat.lt_of_lt_of_le (by omega) hfrom

theorem compares_isOne : Compares (ascii "a == 1") (.term (ascii "a") (.number (ascii "1"))) := by
  have hparse : parse defaultDepth (ascii "a == 1") = .ok (.binary (.onLine 2 .equal "==")
      (.identity (ascii "a")) (.number (ascii "1")) false) := by decide
  let query := Query.ofFilter (.term (ascii "a") (.number (ascii "1")))
  refine ⟨_, _, _, _, ⟨query, query.toJson.render⟩, hparse, rfl,
    compile_eq_ok_iff.2 ⟨_, hparse, rfl, ?_, ?_, rfl⟩, rfl⟩
  · decide
  · decide

/-- A run of 3333 comparisons `a == 1` does not compile, although each of them does. -/
theorem compile_run_isOne :
    Compares (ascii "a == 1") (.term (ascii "a") (.number (ascii "1"))) ∧
    ∃ doc b, compile {} (Bytes.join (TokenKind.link .and)
        (List.replicate 3333 (ascii "a == 1"))) =
      .error (.malformed ⟨doc, .unreadable (.misfit b .nesting)⟩) := by
  let member : Bytes × Filter := (ascii "a == 1", .term (ascii "a") (.number (ascii "1")))
  have hmembers : ∀ m ∈ List.replicate 3332 member, Compares m.1 m.2 := fun m hm => by
    rw [List.eq_of_mem_replicate hm]
    exact compares_isOne
  have hdeeper : ∀ m ∈ List.replicate 3332 member, ∃ e, parse (defaultDepth - 1) m.1 = .ok e :=
    fun m hm => by
      rw [List.eq_of_mem_replicate hm]
      exact ⟨.binary (.onLine 2 .equal "==") (.identity (ascii "a")) (.number (ascii "1")) false,
        by decide⟩
  have hkind : connective? .and = some .must := rfl
  obtain ⟨-, hrun, -, hdeep⟩ := compile_run hkind compares_isOne hmembers
  rw [List.length_replicate] at hdeep
  obtain ⟨b, herror⟩ := (hrun hdeeper).2 (hdeep (by decide))
  rw [List.map_replicate, ← List.replicate_succ] at herror
  exact ⟨compares_isOne, _, b, herror⟩

end FilterQuery
