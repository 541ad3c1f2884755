import FilterQuery.Json.Decimal
import FilterQuery.Number.Binary64

/-!
# Equal documents

Two documents are equal if they hold the same data: objects are compared without regard to the
order of their members, and numbers as 64-bit floating point numbers. A number too large for one
cannot be compared at all.
-/

namespace FilterQuery.Json

/-- The magnitude of a number literal, unless it is too large. -/
def magnitude? (literal : Bytes) : Option Binary64 :=
  let d := Decimal.ofLiteral literal
  Binary64.ofDecimal (natOfDigits d.digits) d.scale

/-- Whether two number literals are equal as floating point numbers; zero has no sign. -/
def sameNumber (a b : Bytes) : Bool :=
  match magnitude? a, magnitude? b with
  | some x, some y =>
    x == y && (x.mantissa == 0 || (a.head? == some 0x2D) == (b.head? == some 0x2D))
  | _, _ => false

mutual

/-- Whether every number in a value fits a floating point number. -/
def isFinite : Json → Bool
  | number literal => (magnitude? literal).isSome
  | array items => isFiniteItems items
  | object members => isFiniteMembers members
  | _ => true

/-- Whether every number in a list of values fits a floating point number. -/
def isFiniteItems : List Json → Bool
  | [] => true
  | item :: items => item.isFinite && isFiniteItems items

/-- Whether every number in a list of members fits a floating point number. -/
def isFiniteMembers : List (Bytes × Json) → Bool
  | [] => true
  | (_, value) :: members => value.isFinite && isFiniteMembers members

end

/-- Whether a key occurs among members. -/
def hasKey (key : Bytes) (members : List (Bytes × Json)) : Bool :=
  members.any (·.1 == key)

mutual

/-- Whether two values hold the same data. -/
def same : Json → Json → Bool
  | null, null => true
  | bool a, bool b => a == b
  | number a, number b => sameNumber a b
  | string a, string b => a == b
  | array xs, array ys => sameItems xs ys
  | object xs, object ys => sameMembers xs ys && ys.all fun (key, _) => hasKey key xs
  | _, _ => false

/-- Whether two lists hold the same data in the same order. -/
def sameItems : List Json → List Json → Bool
  | [], [] => true
  | x :: xs, y :: ys => x.same y && sameItems xs ys
  | _, _ => false

/-- Whether the members that count in a list, the last of each key, are among other members. -/
def sameMembers : List (Bytes × Json) → List (Bytes × Json) → Bool
  | [], _ => true
  | (key, value) :: members, others =>
    (hasKey key members ||
      (match find? key others with
        | some other => value.same other
        | none => false))
    && sameMembers members others

end

end FilterQuery.Json
