import FilterQuery.Proofs.FirstValue
import FilterQuery.Proofs.Outcome

/-!
# The validator accepts exactly the envelope

**Theorem (`validate_envelope`).** A document passes the check exactly if it starts with a value
that is an envelope: `query`, `filtered` and `filter` one inside the other, each the only key of its
object, around an array with one object. Otherwise the error holds the document as it is, and either
the violations, of which there is at least one, or the reason why no value can be read. A written
query passes exactly if its filter is an object and it is not nested too deep.

**Reading.** The first value of a text is what the grammar finds there (`Json.readFirst_eq_ok`), and
what the schema accepts of the values are the envelopes (`Query.accepts_schema`).
-/

namespace FilterQuery

/-! ## Documents -/

namespace Query

/-- The envelope of a written query holds the filter, which has to be an object. -/
theorem envelope_ofFilter {filter : Filter} (h : Envelope (ofFilter filter).toJson.reread) :
    ∃ members, filter.toJson = .object members := by
  obtain ⟨query, filtered, content, hquery, hfiltered, hfilter⟩ := h
  simp only [ofFilter, toJson, Filter.toJsonList, Filter.wrap, Json.reread, Json.rereadMembers,
    Json.rereadItems] at hquery
  rw [hquery.eq_of_singleton] at hfiltered
  rw [hfiltered.eq_of_singleton] at hfilter
  have hcontent := hfilter.eq_of_singleton
  cases hjson : filter.toJson with
  | object members => exact ⟨members, rfl⟩
  | null | bool | number | string | array => simp [hjson, Json.reread] at hcontent

end Query

variable {doc : Bytes}

theorem validate_of_readFirst {v : Json} {rest : Bytes} (h : Json.readFirst doc = .ok (v, rest)) :
    (validate doc = .ok () ↔ Query.Envelope v) ∧
      (¬ Query.Envelope v → Query.schema.check [] v ≠ [] ∧
        validate doc = .error ⟨doc, .violations (Query.schema.check [] v)⟩) := by
  rw [← Query.check_eq_nil]
  cases hcheck : Query.schema.check [] v with
  | nil => simp [validate, h, hcheck]
  | cons found more => simp [validate, h, hcheck]

theorem validate_eq_ok : validate doc = .ok () ↔
    ∃ v rest, Json.readFirst doc = .ok (v, rest) ∧ Query.Envelope v := by
  constructor
  · intro h
    cases hread : Json.readFirst doc with
    | error e =>
      rw [validate, hread] at h
      cases h
    | ok out => exact ⟨out.1, out.2, rfl, (validate_of_readFirst hread).1.1 h⟩
  · rintro ⟨v, rest, hread, hv⟩
    exact (validate_of_readFirst hread).1.2 hv

-- Of two members with the key the last one counts, and what follows the value does not.
example : (validate (ascii "\x7b\"query\":1,\"query\":\x7b\"filtered\":\x7b\"filter\":[\x7b\x7d]" ++
    ascii "\x7d\x7d\x7d and so on")).isOk = true := by
  decide +kernel

/-- A written query passes the check exactly if its filter is an object and it is not nested too
deep. -/
theorem Query.validate_document {filter : Filter} {document : Bytes}
    (h : (ofFilter filter).toJson.encode = .ok document) :
    validate document = .ok () ↔ (∃ members, filter.toJson = .object members) ∧
      (ofFilter filter).toJson.depth ≤ Json.Reader.maxNesting := by
  obtain ⟨hbad, rfl⟩ := Json.encode_eq_ok.1 h
  have hbad' := (badNumber?_ofFilter filter).1 hbad
  constructor
  · intro hvalid
    have hobject : ∃ members, filter.toJson = .object members := by
      obtain ⟨v, rest, hread, hv⟩ := validate_eq_ok.1 hvalid
      by_cases hdepth : (ofFilter filter).toJson.depth ≤ Json.Reader.maxNesting
      · rw [(Json.readFirst_render hbad).1 hdepth] at hread
        cases hread
        exact envelope_ofFilter hv
      · obtain ⟨b, herror⟩ := (Json.readFirst_render hbad).2 (Nat.not_le.1 hdepth)
        rw [herror] at hread
        cases hread
    obtain ⟨members, hmembers⟩ := hobject
    exact ⟨⟨members, hmembers⟩, (validate_ofFilter hmembers hbad').1 hvalid⟩
  · rintro ⟨⟨members, hmembers⟩, hdepth⟩
    exact (validate_ofFilter hmembers hbad').2 hdepth

/-- **The validator accepts exactly the envelope.** The values that satisfy the schema are the
envelopes. The first value of a text is the one that the grammar finds there, nested at most 10000
deep. A document passes if and only if that value is an
envelope. A document that does not pass is in the error as it is, with at least one violation if
there is a first value and with the reader's error if there is none. So a query that can be written
passes if and only if its filter is an object and the document is nested at most 10000 deep. -/
theorem validate_envelope :
    (∀ v, Query.schema.Accepts v ↔ Query.Envelope v) ∧
    (∀ text v rest, Json.readFirst text = .ok (v, rest) ↔ Json.FirstValue 10000 text v rest) ∧
    (∀ doc, validate doc = .ok () ↔
      ∃ v rest, Json.FirstValue 10000 doc v rest ∧ Query.Envelope v) ∧
    (∀ doc, validate doc ≠ .ok () →
      (∃ v rest, Json.FirstValue 10000 doc v rest ∧ Query.schema.check [] v ≠ [] ∧
        validate doc = .error ⟨doc, .violations (Query.schema.check [] v)⟩) ∨
      ((∀ v rest, ¬ Json.FirstValue 10000 doc v rest) ∧
        ∃ e, Json.readFirst doc = .error e ∧ validate doc = .error ⟨doc, .unreadable e⟩)) ∧
    (∀ filter document, (Query.ofFilter filter).toJson.encode = .ok document →
      (validate document = .ok () ↔ (∃ members, filter.toJson = .object members) ∧
        (Query.ofFilter filter).toJson.depth ≤ 10000)) := by
  have hfirst : ∀ text v rest, Json.readFirst text = .ok (v, rest) ↔
      Json.FirstValue 10000 text v rest := fun text v rest => Json.readFirst_eq_ok
  refine ⟨fun v => Query.accepts_schema, hfirst, fun doc => ?_, fun doc hfails => ?_,
    fun filter document hencode => ?_⟩
  · simp only [validate_eq_ok, hfirst]
  · cases hread : Json.readFirst doc with
    | ok out =>
      have hv : ¬ Query.Envelope out.1 := fun hv => hfails ((validate_of_readFirst hread).1.2 hv)
      obtain ⟨hfound, herror⟩ := (validate_of_readFirst hread).2 hv
      exact .inl ⟨out.1, out.2, (hfirst doc out.1 out.2).1 hread, hfound, herror⟩
    | error e =>
      refine .inr ⟨fun v rest hvalue => ?_, e, rfl, by rw [validate, hread]⟩
      rw [(hfirst doc v rest).2 hvalue] at hread
      cases hread
  · exact Query.validate_document hencode

end FilterQuery
