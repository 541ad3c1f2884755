import FilterQuery.Json.Write
import FilterQuery.Query.Filter
import FilterQuery.Suite

/-!
# The standard suite

A handful of user documents, and expressions over them that use every operator of the language.
-/

namespace FilterQuery.Suite

/-! ## Documents -/

/-- A user document. -/
structure User where
  id : String
  color : String
  firstname : String
  height : Nat
  lastname : String
deriving Repr, DecidableEq

namespace User

/-- The document of a user. -/
def toJson (u : User) : Json :=
  .object [
    (ascii "favorites", .object [(ascii "color", .string (ascii u.color))]),
    (ascii "firstname", .string (ascii u.firstname)),
    (ascii "height", .number (Bytes.ofNat u.height)),
    (ascii "lastname", .string (ascii u.lastname))]

end User

/-- The users, in the order of their names. -/
def users : List User := [
  ⟨"abe", "purple", "abraham", 73, "haskins"⟩,
  ⟨"obie", "blue", "obie", 70, "fernandez"⟩,
  ⟨"sanni", "green", "ome", 100, "sanni"⟩,
  ⟨"tim", "blue", "timothy", 73, "jackson"⟩]

/-! ## Filters -/

/-- A filter on the height of a user. -/
def height (bound : String) (n : Nat) : Filter :=
  .range (ascii "height") (ascii bound) (.number (Bytes.ofNat n))

/-- A filter for one height. -/
def heightIs (n : Nat) : Filter :=
  .term (ascii "height") (.number (Bytes.ofNat n))

/-- A filter for one text in a field. -/
def textIs (field text : String) : Filter :=
  .term (ascii field) (.string (ascii text))

/-- A filter for first names that match a pattern. -/
def firstname (pattern : String) : Filter :=
  .regexp (ascii "firstname") (ascii pattern)

/-- A `bool` filter over a list whose elements stand on lines of their own, indented by one more
tab than its end. -/
def spread (tabs : Nat) (occur : Occur) (items : List Bytes) : Bytes :=
  let line (tabs : Nat) : Bytes := 0x0A :: List.replicate tabs 0x09
  0x7B :: Json.quoteString (ascii "bool") ++ [0x3A, 0x7B] ++ Json.quoteString occur.key
    ++ ascii ":[" ++ line (tabs + 1) ++ Bytes.join (0x2C :: line (tabs + 1)) items
    ++ line tabs ++ [0x5D, 0x7D, 0x7D]

/-! ## The suite -/

/-- An entry of the suite with a filter written on one line. -/
def entry (expression : String) (filter : Filter) (hits : List String) : Spec :=
  ⟨ascii expression, filter.toJson.render, hits.map ascii⟩

/-- The expression that nests all connectives. -/
def nested : Spec where
  expression :=
    ascii "(not (height < 72 and height > 74) and (firstname ~= \"a.raham\" or "
      ++ ascii "firstname == \"timothy\")) or favorites.color == \"green\""
  filter :=
    spread 2 .should [
      spread 3 .must [
        (Filter.all [height "lt" 72, height "gt" 74]).negation.toJson.render,
        (Filter.any [(firstname "a.raham").must, textIs "firstname" "timothy"]).toJson.render],
      (textIs "favorites.color" "green").toJson.render]
  hits := ["tim", "abe", "sanni"].map ascii

/-- The standard suite. -/
def standard : List Spec := [
  entry "height == 73" (heightIs 73) ["abe", "tim"],
  entry "height != 73" (heightIs 73).mustNot ["obie", "sanni"],
  entry "height > 0" (height "gt" 0) ["abe", "obie", "sanni", "tim"],
  entry "height < 0" (height "lt" 0) [],
  entry "height < 73" (height "lt" 73) ["obie"],
  entry "height > 73" (height "gt" 73) ["sanni"],
  entry "height >= 73" (height "gte" 73) ["abe", "tim", "sanni"],
  entry "height <= 73" (height "lte" 73) ["abe", "tim", "obie"],
  entry "height < 73 and height > 99" (.all [height "lt" 73, height "gt" 99]) [],
  entry "height < 73 or height > 99" (.any [height "lt" 73, height "gt" 99]) ["obie", "sanni"],
  entry "firstname ~= \"o.+\"" (firstname "o.+").must ["obie", "sanni"],
  entry "firstname ~!= \"o.+\"" (firstname "o.+").mustNot ["abe", "tim"],
  entry "favorites.color == \"green\"" (textIs "favorites.color" "green") ["sanni"],
  entry "not (favorites.color == \"green\")" (textIs "favorites.color" "green").negation
    ["tim", "obie", "abe"],
  nested]

end FilterQuery.Suite
