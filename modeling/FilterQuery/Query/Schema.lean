import FilterQuery.Json.Decimal
import FilterQuery.Json.Write

/-!
# Schemas

A schema constrains JSON values by keywords. Each keyword has a meaning of its own, and most of them
speak about objects or about arrays only. A value can be checked against a schema, and the schema
can be published as a document itself.

**Reflection.** The schema of a document is not written down, it is worked out from the type of the
document: a record asks for the names of its fields and for nothing else, a list is an array, and
the tags of a field give its name and further keywords. A record may extend what its fields give.
-/

namespace FilterQuery

/-- A schema, as its keywords. -/
structure Schema where
  /-- The schema of every element of an array. -/
  items : Option Schema := none
  /-- The schemas of members of an object. -/
  properties : List (Bytes × Schema) := []
  /-- Whether an object may have members other than those. -/
  additionalProperties : Option Bool := none
  type : Option Bytes := none
  maxItems : Option Nat := none
  minItems : Option Nat := none
  /-- The keys that an object must have. -/
  required : List Bytes := []
deriving Repr

/-- A way in which a part of a value violates a schema. -/
inductive Problem where
  | missing (key : Bytes)
  | additional (key : Bytes)
  | wrongType (expected given : Bytes)
  | tooFew (least : Nat)
  | tooMany (most : Nat)
deriving Repr, DecidableEq

/-- A part of a value, by the path that leads to it, and what is wrong with it. -/
structure Violation where
  path : List Bytes
  problem : Problem
deriving Repr, DecidableEq

namespace Violation

/-- The problem in words. -/
def problemText : Problem → Bytes
  | .missing key => key ++ ascii " is required"
  | .additional key => ascii "Additional property " ++ key ++ ascii " is not allowed"
  | .wrongType expected given =>
    ascii "Invalid type. Expected: " ++ expected ++ ascii ", given: " ++ given
  | .tooFew least => ascii "Array must have at least " ++ Bytes.ofNat least ++ ascii " items"
  | .tooMany most => ascii "Array must have at most " ++ Bytes.ofNat most ++ ascii " items"

/-- The part as messages name it. -/
def pathText (path : List Bytes) : Bytes :=
  if path.isEmpty then ascii "(root)" else Bytes.join (ascii ".") path

/-- The violation in words. -/
def message (v : Violation) : Bytes :=
  pathText v.path ++ ascii ": " ++ problemText v.problem

end Violation

namespace Json

/-- The name of a value's type. -/
def typeName : Json → Bytes
  | null => ascii "null"
  | bool _ => ascii "boolean"
  | number literal =>
    if (Decimal.ofLiteral literal).isIntegral then ascii "integer" else ascii "number"
  | string _ => ascii "string"
  | array _ => ascii "array"
  | object _ => ascii "object"

/-- Whether a value is of the named type. Integers are numbers as well. -/
def hasType (v : Json) (name : Bytes) : Bool :=
  v.typeName = name || (name = ascii "number" && v.typeName = ascii "integer")

end Json

namespace Schema

/-! ## Checking -/

/-- The keyword `type`. -/
def checkType (path : List Bytes) (type : Option Bytes) (v : Json) : List Violation :=
  match type with
  | some name => if v.hasType name then [] else [⟨path, .wrongType name v.typeName⟩]
  | none => []

/-- The keyword `required`. -/
def checkRequired (path : List Bytes) (required : List Bytes) (members : List (Bytes × Json)) :
    List Violation :=
  (required.filter fun key => (Json.find? key members).isNone).map fun key => ⟨path, .missing key⟩

/-- The keyword `additionalProperties`, about the keys that are not among the known ones. -/
def checkAdditional (path : List Bytes) (allowed : Option Bool) (known : List Bytes)
    (members : List (Bytes × Json)) : List Violation :=
  if allowed = some false then
    (((Json.distinct members).map (·.1)).filter (· ∉ known)).map fun key => ⟨path, .additional key⟩
  else []

/-- The keyword `minItems`. -/
def checkMinItems (path : List Bytes) (least : Option Nat) (elements : List Json) :
    List Violation :=
  match least with
  | some n => if elements.length < n then [⟨path, .tooFew n⟩] else []
  | none => []

/-- The keyword `maxItems`. -/
def checkMaxItems (path : List Bytes) (most : Option Nat) (elements : List Json) :
    List Violation :=
  match most with
  | some n => if n < elements.length then [⟨path, .tooMany n⟩] else []
  | none => []

mutual

/-- All violations of a schema by a value at a path. A part of the wrong type is not looked into. -/
def check (path : List Bytes) : Schema → Json → List Violation
  | ⟨items, properties, additional, type, most, least, required⟩, v =>
    match checkType path type v with
    | [] =>
      match v with
      | .object members =>
        checkRequired path required members
          ++ checkAdditional path additional (properties.map (·.1)) members
          ++ checkProperties path properties members
      | .array elements =>
        checkItems path items elements ++ checkMinItems path least elements
          ++ checkMaxItems path most elements
      | _ => []
    | wrong => wrong

/-- The keyword `properties`, about the members that are there. -/
def checkProperties (path : List Bytes) :
    List (Bytes × Schema) → List (Bytes × Json) → List Violation
  | [], _ => []
  | (key, schema) :: properties, members =>
    (match Json.find? key members with
      | some v => schema.check (path ++ [key]) v
      | none => [])
    ++ checkProperties path properties members

/-- The keyword `items`. -/
def checkItems (path : List Bytes) : Option Schema → List Json → List Violation
  | none, _ => []
  | some schema, elements =>
    elements.zipIdx.flatMap fun (element, index) =>
      schema.check (path ++ [Bytes.ofNat index]) element

end

/-! ## Publishing -/

mutual

/-- The members of a schema as a document. -/
def members : Schema → List (Bytes × Json)
  | ⟨items, properties, additional, type, most, least, required⟩ =>
    itemsMember items
      ++ (if properties.isEmpty then []
        else [(ascii "properties", .object (propertyMembers properties))])
      ++ (additional.map fun allowed => (ascii "additionalProperties", .bool allowed)).toList
      ++ (type.map fun name => (ascii "type", .string name)).toList
      ++ (most.map fun n => (ascii "maxItems", .number (Bytes.ofNat n))).toList
      ++ (least.map fun n => (ascii "minItems", .number (Bytes.ofNat n))).toList
      ++ (if required.isEmpty then [] else [(ascii "required", .array (required.map .string))])

/-- The member for the schema of elements. -/
def itemsMember : Option Schema → List (Bytes × Json)
  | none => []
  | some schema => [(ascii "items", .object schema.members)]

/-- The members for the schemas of members. -/
def propertyMembers : List (Bytes × Schema) → List (Bytes × Json)
  | [] => []
  | (key, schema) :: properties => (key, .object schema.members) :: propertyMembers properties

end

/-! ## Reflection -/

/-- The schema with a keyword of a tag, such as `minItems=1`. Only these two are in use. -/
def withKeyword (schema : Schema) (keyword : Bytes) : Schema :=
  match keyword.splitOn 0x3D with
  | [name, value] =>
    if name = ascii "minItems" then { schema with minItems := some (Json.natOfDigits value) }
    else if name = ascii "maxItems" then { schema with maxItems := some (Json.natOfDigits value) }
    else schema
  | _ => schema

/-- The schema with the keywords of a tag; the ones in use are about arrays. -/
def tagged (schema : Schema) (tag : Bytes) : Schema :=
  if schema.type = some (ascii "array") then (tag.splitOn 0x2C).foldl withKeyword schema
  else schema

end Schema

/-- The tags of a field. -/
structure Tags where
  /-- The key of the field in a document, and options behind it. -/
  json : Bytes
  /-- Keywords for the schema of the field. -/
  jsonschema : Bytes := []
deriving Repr, DecidableEq

namespace Tags

/-- The key of the field. -/
def key (tags : Tags) : Bytes :=
  (tags.json.splitOn 0x2C).headD []

/-- Whether documents may leave the field out. -/
def isOptional (tags : Tags) : Bool :=
  (tags.json.splitOn 0x2C).tail.contains (ascii "omitempty")

end Tags

/-- The types that documents are written from. -/
inductive DataType where
  /-- Any value. -/
  | any
  | list (element : DataType)
  /-- Fields, and what the record changes about the schema that they give. -/
  | record (fields : List (Tags × DataType)) (extend : Schema → Schema)

namespace DataType

mutual

/-- The schema of a type. -/
def reflect : DataType → Schema
  | any => {}
  | list element => { type := some (ascii "array"), items := some element.reflect }
  | record fields extend => extend {
      type := some (ascii "object")
      properties := reflectFields fields
      additionalProperties := some false
      required := (fields.filter fun field => !field.1.isOptional).map fun field => field.1.key }

/-- The schemas of fields. -/
def reflectFields : List (Tags × DataType) → List (Bytes × Schema)
  | [] => []
  | (tags, type) :: fields =>
    (tags.key, type.reflect.tagged tags.jsonschema) :: reflectFields fields

end

end DataType

namespace Query

/-! ## The schema of query documents -/

/-- Requires the elements of the filter list to be objects. -/
def extendFiltered (schema : Schema) : Schema :=
  { schema with properties := schema.properties.map fun (key, property) =>
      if key = ascii "filter" then
        (key, { property with items := some { type := some (ascii "object") } })
      else (key, property) }

/-- The record around the filter list, which holds exactly one filter. -/
def filteredType : DataType :=
  .record [(⟨ascii "filter", ascii "minItems=1,maxItems=1"⟩, .list .any)] extendFiltered

/-- The record around that one. -/
def filteredQueryType : DataType :=
  .record [(⟨ascii "filtered", []⟩, filteredType)] id

/-- The type of query documents. -/
def type : DataType :=
  .record [(⟨ascii "query", []⟩, filteredQueryType)] id

/-- The schema of query documents. -/
def schema : Schema :=
  type.reflect

/-- The schema as a document. -/
def schemaDocument : Json :=
  .object (
    [(ascii "$schema", .string (ascii "https://json-schema.org/draft/2020-12/schema")),
      (ascii "$id", .string (ascii "https://github.com/araddon/filtres/schemas/query.json"))]
    ++ schema.members ++
    [(ascii "title", .string (ascii "Filtered Query")),
      (ascii "description",
        .string (ascii "Elasticsearch filtered query with a single root filter"))])

end Query

end FilterQuery
