import FilterQuery.Query.Schema

/-!
# What schemas accept

**Theorem (`Schema.check_eq_nil`).** The check of a value against a schema finds no violation
exactly if the value satisfies every keyword of the schema (`Schema.Accepts`). The theorem is about
all schemas, by induction on the schema.

**Theorem (`Query.accepts_schema`).** The schema that is worked out from the type of query documents
accepts exactly the envelopes: `query`, `filtered` and `filter` one inside the other, each the only
key of its object, around an array with one object.

**Repeated keys.** An object may have its only key several times, and the last member counts
(`Json.Holds`). The check looks at the distinct keys, which are the keys (`Json.mem_keys_distinct`).
-/

namespace FilterQuery

/-! ## Keywords -/

namespace Schema

/-- The value satisfies every keyword of the schema. Those about objects and those about arrays say
nothing of other values. -/
inductive Accepts : Schema → Json → Prop
  | object {s : Schema} {members : List (Bytes × Json)} :
      (∀ name, s.type = some name → (Json.object members).hasType name = true) →
      (∀ key ∈ s.required, ∃ v, Json.find? key members = some v) →
      (s.additionalProperties = some false →
        ∀ member ∈ members, ∃ property ∈ s.properties, property.1 = member.1) →
      (∀ key inner, (key, inner) ∈ s.properties → ∀ v, Json.find? key members = some v →
        Accepts inner v) →
      Accepts s (.object members)
  | array {s : Schema} {elements : List Json} :
      (∀ name, s.type = some name → (Json.array elements).hasType name = true) →
      (∀ inner, s.items = some inner → ∀ v ∈ elements, Accepts inner v) →
      (∀ n, s.minItems = some n → n ≤ elements.length) →
      (∀ n, s.maxItems = some n → elements.length ≤ n) →
      Accepts s (.array elements)
  | other {s : Schema} {v : Json} : (∀ members, v ≠ .object members) →
      (∀ elements, v ≠ .array elements) →
      (∀ name, s.type = some name → v.hasType name = true) → Accepts s v

end Schema

/-! ## Objects with one key -/

namespace Json

/-- The value is an object that has only this key, and holds the inner value under it; if the key is
repeated, its last member counts. -/
def Holds (key : Bytes) (inner v : Json) : Prop :=
  ∃ earlier, v = .object (earlier ++ [(key, inner)]) ∧ ∀ member ∈ earlier, member.1 = key

variable {key : Bytes} {members : List (Bytes × Json)}

/-- Replacing a member by a later one with its key leaves the keys as they are. -/
theorem map_fst_replace (kept : List (Bytes × Json)) (key : Bytes) (v : Json) :
    (kept.map fun member => if member.1 == key then (key, v) else member).map (·.1) =
      kept.map (·.1) := by
  rw [List.map_map]
  refine List.map_congr_left fun member _ => ?_
  by_cases hkey : member.1 = key
  · simp [hkey]
  · simp [hkey]

/-- If every step of a fold adds the key of its member, all keys have been added in the end. -/
theorem mem_keys_foldl {f : List (Bytes × Json) → Bytes × Json → List (Bytes × Json)}
    (hf : ∀ kept member,
      key ∈ (f kept member).map (·.1) ↔ key ∈ kept.map (·.1) ∨ key = member.1)
    (kept : List (Bytes × Json)) :
    key ∈ (members.foldl f kept).map (·.1) ↔ key ∈ kept.map (·.1) ∨ key ∈ members.map (·.1) := by
  induction members generalizing kept with
  | nil => simp
  | cons member members ih =>
    rw [List.foldl_cons, ih, hf, List.map_cons, List.mem_cons, or_assoc]

theorem mem_keys_distinct : key ∈ (distinct members).map (·.1) ↔ key ∈ members.map (·.1) := by
  rw [distinct, mem_keys_foldl]
  · simp
  intro kept member
  by_cases hany : kept.any (·.1 == member.1) = true
  · have hmem : member.1 ∈ kept.map (·.1) := by simpa using hany
    simp only [hany, if_true, map_fst_replace]
    constructor
    · exact .inl
    · rintro (hkey | rfl)
      · exact hkey
      · exact hmem
  · simp only [hany, Bool.false_eq_true, if_false, List.map_append, List.mem_append,
      List.map_cons, List.map_nil, List.mem_singleton]

theorem find?_append_singleton (earlier : List (Bytes × Json)) (inner : Json) :
    find? key (earlier ++ [(key, inner)]) = some inner := by
  induction earlier with
  | nil => simp [find?]
  | cons member earlier ih => simp only [List.cons_append, find?, ih]

/-- What an object holds under its only key is what is found there. -/
theorem holds_object {inner : Json} :
    Holds key inner (.object members) ↔
      (∀ member ∈ members, member.1 = key) ∧ find? key members = some inner := by
  constructor
  · rintro ⟨earlier, heq, hkeys⟩
    cases heq
    refine ⟨?_, find?_append_singleton earlier inner⟩
    exact List.forall_mem_append.2 ⟨hkeys, by simp⟩
  · rintro ⟨hkeys, hfound⟩
    rcases List.eq_nil_or_concat members with rfl | ⟨earlier, ⟨last, value⟩, rfl⟩
    · cases hfound
    · rw [List.concat_eq_append] at hkeys hfound ⊢
      obtain ⟨hearlier, hlast⟩ := List.forall_mem_append.1 hkeys
      obtain rfl : last = key := hlast _ (List.mem_singleton_self _)
      rw [find?_append_singleton] at hfound
      cases hfound
      exact ⟨earlier, rfl, hearlier⟩

theorem Holds.eq_of_singleton {inner v : Json} {k : Bytes}
    (h : Holds key inner (.object [(k, v)])) : inner = v := by
  obtain ⟨hkeys, hfound⟩ := holds_object.1 h
  obtain rfl : k = key := hkeys (k, v) (List.mem_singleton_self _)
  simpa [find?, eq_comm] using hfound

end Json

/-! ## The check -/

namespace Schema

variable {path : List Bytes} {members : List (Bytes × Json)} {elements : List Json}

theorem checkType_eq_nil {type : Option Bytes} {v : Json} :
    checkType path type v = [] ↔ ∀ name, type = some name → v.hasType name = true := by
  cases type with
  | none => simp [checkType]
  | some name => by_cases h : v.hasType name = true <;> simp [checkType, h]

theorem checkRequired_eq_nil {required : List Bytes} :
    checkRequired path required members = [] ↔
      ∀ key ∈ required, ∃ v, Json.find? key members = some v := by
  simp [checkRequired, Option.ne_none_iff_exists', ← Option.isSome_iff_exists]

theorem checkAdditional_eq_nil {allowed : Option Bool} {properties : List (Bytes × Schema)} :
    checkAdditional path allowed (properties.map (·.1)) members = [] ↔
      (allowed = some false →
        ∀ member ∈ members, ∃ property ∈ properties, property.1 = member.1) := by
  by_cases hallowed : allowed = some false
  · have hkeys : (∀ k ∈ (Json.distinct members).map (·.1), k ∈ properties.map (·.1)) ↔
        ∀ k ∈ members.map (·.1), k ∈ properties.map (·.1) := by
      simp only [Json.mem_keys_distinct]
    simpa [checkAdditional, hallowed] using hkeys
  · simp [checkAdditional, hallowed]

theorem checkMinItems_eq_nil {least : Option Nat} :
    checkMinItems path least elements = [] ↔ ∀ n, least = some n → n ≤ elements.length := by
  cases least with
  | none => simp [checkMinItems]
  | some n =>
    by_cases h : elements.length < n
    · simp [checkMinItems, h]
    · simpa [checkMinItems, h] using Nat.not_lt.1 h

theorem checkMaxItems_eq_nil {most : Option Nat} :
    checkMaxItems path most elements = [] ↔ ∀ n, most = some n → elements.length ≤ n := by
  cases most with
  | none => simp [checkMaxItems]
  | some n =>
    by_cases h : n < elements.length
    · simp [checkMaxItems, h]
    · simpa [checkMaxItems, h] using Nat.not_lt.1 h

theorem Accepts.typed {s : Schema} {v : Json} (h : s.Accepts v) :
    ∀ name, s.type = some name → v.hasType name = true := by
  cases h with
  | object htype _ _ _ | array htype _ _ _ | other _ _ htype => exact htype

mutual

/-- **No violation is found exactly if the value satisfies every keyword**, wherever it stands. -/
theorem check_eq_nil (s : Schema) (path : List Bytes) (v : Json) :
    s.check path v = [] ↔ s.Accepts v := by
  match s with
  | ⟨items, properties, additional, type, most, least, required⟩ =>
    by_cases htype : checkType path type v = []
    · have htyped := checkType_eq_nil.1 htype
      cases v with
      | object members =>
        simp only [check, htype, List.append_eq_nil_iff, checkRequired_eq_nil,
          checkAdditional_eq_nil, checkProperties_eq_nil properties path members]
        constructor
        · rintro ⟨⟨hrequired, hadditional⟩, hproperties⟩
          exact .object htyped hrequired hadditional hproperties
        · intro h
          cases h with
          | object _ hrequired hadditional hproperties =>
            exact ⟨⟨hrequired, hadditional⟩, hproperties⟩
          | other hne => exact absurd rfl (hne members)
      | array elements =>
        simp only [check, htype, List.append_eq_nil_iff, checkMinItems_eq_nil,
          checkMaxItems_eq_nil, checkItems_eq_nil items path elements]
        constructor
        · rintro ⟨⟨hitems, hleast⟩, hmost⟩
          exact .array htyped hitems hleast hmost
        · intro h
          cases h with
          | array _ hitems hleast hmost => exact ⟨⟨hitems, hleast⟩, hmost⟩
          | other _ hne => exact absurd rfl (hne elements)
      | null | bool | number | string =>
        simp only [check, htype, true_iff]
        exact .other (by simp) (by simp) htyped
    · obtain ⟨wrong, more, hwrong⟩ := List.exists_cons_of_ne_nil htype
      simp only [check, hwrong]
      constructor
      · intro h
        cases h
      · intro h
        exact absurd (checkType_eq_nil.2 h.typed) htype

theorem checkProperties_eq_nil (properties : List (Bytes × Schema)) (path : List Bytes)
    (members : List (Bytes × Json)) :
    checkProperties path properties members = [] ↔ ∀ key inner, (key, inner) ∈ properties →
      ∀ v, Json.find? key members = some v → inner.Accepts v := by
  match properties with
  | [] => simp [checkProperties]
  | (key, s) :: properties =>
    have hhere := check_eq_nil s (path ++ [key])
    have hmore := checkProperties_eq_nil properties path members
    simp only [checkProperties, List.append_eq_nil_iff, hmore, List.mem_cons, Prod.mk.injEq]
    cases hfound : Json.find? key members with
    | none => 
      constructor
      · rintro ⟨-, h⟩ key' inner (⟨rfl, rfl⟩ | hmem) v hv
        · rw [hfound] at hv
          cases hv
        · exact h key' inner hmem v hv
      · intro h
        exact ⟨rfl, fun key' inner hmem => h key' inner (.inr hmem)⟩
    | some w =>
      simp only [hhere]
      constructor
      · rintro ⟨hw, h⟩ key' inner (⟨rfl, rfl⟩ | hmem) v hv
        · rw [hfound] at hv
          cases hv
          exact hw
        · exact h key' inner hmem v hv
      · intro h
        exact ⟨h key s (.inl ⟨rfl, rfl⟩) w hfound, fun key' inner hmem => h key' inner (.inr hmem)⟩

theorem checkItems_eq_nil (items : Option Schema) (path : List Bytes) (elements : List Json) :
    checkItems path items elements = [] ↔
      ∀ inner, items = some inner → ∀ v ∈ elements, inner.Accepts v := by
  match items with
  | none => simp [checkItems]
  | some s =>
    have helement := check_eq_nil s
    simp only [checkItems, List.flatMap_eq_nil_iff, helement, Option.some.injEq, forall_eq']
    constructor
    · intro h v hv
      obtain ⟨i, hi, rfl⟩ := List.getElem_of_mem hv
      exact h (elements[i], i) (List.mem_zipIdx_iff_getElem?.2 (by simp [hi]))
    · rintro h ⟨v, i⟩ hv
      exact h v (List.fst_mem_of_mem_zipIdx hv)

end

end Schema

/-! ## Query documents -/

namespace Json

theorem hasType_object {v : Json} :
    v.hasType (ascii "object") = true ↔ ∃ members, v = .object members := by
  cases v with
  | object members => simp [hasType, typeName]
  | number literal =>
    simp only [hasType, typeName]
    split <;> simp [ascii]
  | null | bool | string | array => simp [hasType, typeName, ascii]

theorem hasType_array {v : Json} :
    v.hasType (ascii "array") = true ↔ ∃ elements, v = .array elements := by
  cases v with
  | array elements => simp [hasType, typeName]
  | number literal =>
    simp only [hasType, typeName]
    split <;> simp [ascii]
  | null | bool | string | object => simp [hasType, typeName, ascii]

end Json

namespace Schema

/-- The schema of the objects. -/
def anyObject : Schema where
  type := some (ascii "object")

/-- The schema of the arrays with one element. -/
def oneElement (inner : Schema) : Schema where
  type := some (ascii "array")
  items := some inner
  minItems := some 1
  maxItems := some 1

/-- The schema of the records with one field. -/
def oneField (key : Bytes) (inner : Schema) : Schema where
  type := some (ascii "object")
  properties := [(key, inner)]
  additionalProperties := some false
  required := [key]

variable {v : Json}

theorem accepts_anyObject : anyObject.Accepts v ↔ ∃ members, v = .object members := by
  constructor
  · intro h
    exact Json.hasType_object.1 (h.typed _ rfl)
  · rintro ⟨members, rfl⟩
    exact .object (by rintro _ ⟨⟩; rfl) (by simp [anyObject]) (by simp [anyObject])
      (by simp [anyObject])

theorem accepts_oneElement {inner : Schema} :
    (oneElement inner).Accepts v ↔ ∃ element, v = .array [element] ∧ inner.Accepts element := by
  constructor
  · intro h
    obtain ⟨elements, rfl⟩ := Json.hasType_array.1 (h.typed _ rfl)
    cases h with
    | array _ hitems hleast hmost =>
      obtain ⟨element, rfl⟩ := List.length_eq_one_iff.1
        (Nat.le_antisymm (hmost 1 rfl) (hleast 1 rfl))
      exact ⟨element, rfl, hitems inner rfl element (List.mem_singleton_self _)⟩
    | other _ hne => exact absurd rfl (hne elements)
  · rintro ⟨element, rfl, helement⟩
    refine .array (by rintro _ ⟨⟩; rfl) ?_ (by simp [oneElement]) (by simp [oneElement])
    rintro _ ⟨⟩ v hv
    rwa [List.mem_singleton.1 hv]

theorem accepts_oneField {key : Bytes} {inner : Schema} :
    (oneField key inner).Accepts v ↔ ∃ value, Json.Holds key value v ∧ inner.Accepts value := by
  constructor
  · intro h
    obtain ⟨members, rfl⟩ := Json.hasType_object.1 (h.typed _ rfl)
    cases h with
    | object _ hrequired hadditional hproperties =>
      obtain ⟨value, hvalue⟩ := hrequired key (List.mem_singleton_self _)
      refine ⟨value, Json.holds_object.2 ⟨?_, hvalue⟩,
        hproperties key inner (List.mem_singleton_self _) value hvalue⟩
      intro member hmember
      obtain ⟨property, hproperty, hkey⟩ := hadditional rfl member hmember
      rw [← hkey, List.mem_singleton.1 hproperty]
    | other hne => exact absurd rfl (hne members)
  · rintro ⟨value, hholds, hvalue⟩
    obtain ⟨earlier, rfl, -⟩ := id hholds
    obtain ⟨hkeys, hfound⟩ := Json.holds_object.1 hholds
    refine .object (by rintro _ ⟨⟩; rfl) ?_ ?_ ?_
    · intro k hk
      rw [List.mem_singleton.1 hk]
      exact ⟨value, hfound⟩
    · intro _ member hmember
      exact ⟨(key, inner), List.mem_singleton_self _, (hkeys member hmember).symm⟩
    · intro k s hk w hw
      cases List.mem_singleton.1 hk
      rw [hfound] at hw
      cases hw
      exact hvalue

end Schema

namespace Query

/-- The value is an envelope around one object. -/
def Envelope (v : Json) : Prop :=
  ∃ query filtered content, Json.Holds (ascii "query") query v ∧
    Json.Holds (ascii "filtered") filtered query ∧
    Json.Holds (ascii "filter") (.array [.object content]) filtered

/-- Reflection gives three records with one field each, around an array with one object. -/
theorem schema_eq : schema = .oneField (ascii "query") (.oneField (ascii "filtered")
    (.oneField (ascii "filter") (.oneElement .anyObject))) :=
  rfl

/-- **The schema accepts exactly the envelopes.** -/
theorem accepts_schema {v : Json} : schema.Accepts v ↔ Envelope v := by
  rw [schema_eq]
  simp only [Schema.accepts_oneField, Schema.accepts_oneElement, Schema.accepts_anyObject]
  constructor
  · rintro ⟨query, hquery, filtered, hfiltered, _, hfilter, _, rfl, content, rfl⟩
    exact ⟨query, filtered, content, hquery, hfiltered, hfilter⟩
  · rintro ⟨query, filtered, content, hquery, hfiltered, hfilter⟩
    exact ⟨query, hquery, filtered, hfiltered, _, hfilter, _, rfl, content, rfl⟩

theorem check_eq_nil {v : Json} : schema.check [] v = [] ↔ Envelope v := by
  rw [Schema.check_eq_nil, accepts_schema]

end Query

end FilterQuery
