import FilterQuery.Number.Binary64
import FilterQuery.Settings.Flags
import FilterQuery.Settings.Timestamp

/-!
# Setting values

The values that settings have in a file. Each kind of value but a timestamp can stand for a switch
or a text: a number is on unless it is zero, and a switch is written `1` or `0`.
-/

namespace FilterQuery

/-- A plain value. -/
inductive Scalar where
  | null
  | bool (b : Bool)
  | text (text : Bytes)
  | integer (n : Int)
  | float (negative : Bool) (magnitude : Binary64)
  | infinity (negative : Bool)
  | notANumber
  | time (t : Timestamp)
deriving Repr, DecidableEq

/-- Why a value does not fit a setting. -/
inductive BadValue where
  /-- The text spells no switch. -/
  | notSwitch (text : Bytes)
  /-- A timestamp fits no setting. -/
  | time (t : Timestamp)
deriving Repr, DecidableEq

namespace Scalar

/-- The value as a switch. -/
def toSwitch : Scalar → Except BadValue Bool
  | null => .ok false
  | bool b => .ok b
  | text [] => .ok false
  | text t =>
    match readSwitch? t with
    | some b => .ok b
    | none => .error (.notSwitch t)
  | integer n => .ok (n != 0)
  | float _ x => .ok (x.mantissa != 0)
  | infinity _ => .ok true
  | notANumber => .ok true
  | time t => .error (.time t)

/-- The value as a text. -/
def toText : Scalar → Except BadValue Bytes
  | null => .ok []
  | bool b => .ok (if b then ascii "1" else ascii "0")
  | text t => .ok t
  | integer n => .ok (Bytes.ofInt n)
  | float negative x => .ok ((if negative then ascii "-" else []) ++ x.render)
  | infinity negative => .ok (ascii (if negative then "-Inf" else "+Inf"))
  | notANumber => .ok (ascii "NaN")
  | time t => .error (.time t)

end Scalar

end FilterQuery
