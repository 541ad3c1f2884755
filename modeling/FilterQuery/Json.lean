import FilterQuery.Text.Bytes

/-!
# JSON values

Numbers are kept as they are written, so that `73.50` stays `73.50`. The members of an object are
kept in order, repeated keys included; where only one member can count, it is the last.
-/

namespace FilterQuery

/-- A JSON value. -/
inductive Json where
  | null
  | bool (b : Bool)
  /-- A number, as its literal. -/
  | number (literal : Bytes)
  | string (text : Bytes)
  | array (items : List Json)
  | object (members : List (Bytes × Json))
deriving Repr

namespace Json

/-- The value of a key among members: the last one counts. -/
def find? (key : Bytes) : List (Bytes × Json) → Option Json
  | [] => none
  | (k, v) :: members =>
    match find? key members with
    | some found => some found
    | none => if k = key then some v else none

/-- The value of a key in an object. -/
def get? (v : Json) (key : Bytes) : Option Json :=
  match v with
  | object members => find? key members
  | _ => none

/-- The members that count: the last of each key, at the place of the first. -/
def distinct (members : List (Bytes × Json)) : List (Bytes × Json) :=
  members.foldl (fun kept (key, value) =>
    if kept.any (·.1 == key) then
      kept.map fun member => if member.1 == key then (key, value) else member
    else kept ++ [(key, value)]) []

/-- An object with the given members, each key once and in byte order. -/
def sortedObject (members : List (Bytes × Json)) : Json :=
  object ((distinct members).mergeSort fun a b => Bytes.le a.1 b.1)

end Json

end FilterQuery
