import FilterQuery.Json.Equal
import FilterQuery.Json.Read
import FilterQuery.Settings.Yaml

/-!
# Settings files

A settings file is a flat list of settings: a file of lines or, if its name says so, one JSON
object. Keys are not case-sensitive.
-/

namespace FilterQuery

/-- What is wrong with the text of a settings file. -/
inductive FileError where
  | notYaml (error : Yaml.Error)
  | notJson (error : Json.ReadError)
  /-- A value in place of an object. -/
  | notObject (type : Bytes)
  /-- A number that is too large for any floating point number. -/
  | hugeNumber (literal : Bytes)
deriving Repr, DecidableEq

namespace FileError

/-- The text of the error. -/
def message : FileError → Bytes
  | notYaml error => error.message
  | notJson .empty => ascii "unexpected end of JSON input"
  | notJson .truncated => ascii "unexpected end of JSON input"
  | notJson error => error.message
  | notObject type =>
    ascii "json: cannot unmarshal " ++ type
      ++ ascii " into Go value of type map[string]interface \x7b\x7d"
  | hugeNumber literal =>
    ascii "json: cannot unmarshal number " ++ literal ++ ascii " into Go value of type float64"

end FileError

namespace SettingsFile

/-! ## Lines -/

/-- Reads a file of lines. -/
def readYaml (text : Bytes) : Except FileError (List (Bytes × Scalar)) :=
  (Yaml.read text).mapError .notYaml

/-! ## JSON -/

/-- The plain value of a JSON value, if it has one. All numbers are floating point numbers. -/
def ofJson? : Json → Except FileError (Option Scalar)
  | .null => .ok (some .null)
  | .bool b => .ok (some (.bool b))
  | .number literal =>
    match Json.magnitude? literal with
    | some x => .ok (some (.float (literal.head? == some 0x2D) x))
    | none => .error (.hugeNumber literal)
  | .string text => .ok (some (.text text))
  | _ => .ok none

/-- The settings of the members of an object. -/
def ofMembers (members : List (Bytes × Json)) : Except FileError (List (Bytes × Scalar)) := do
  let values ← members.mapM fun (key, value) => do
    return (← ofJson? value).map (key, ·)
  return values.filterMap id

/-- The type of a value, as messages about a whole file name it. -/
def typeName : Json → Bytes
  | .null => ascii "null"
  | .bool _ => ascii "bool"
  | .number _ => ascii "number"
  | .string _ => ascii "string"
  | .array _ => ascii "array"
  | .object _ => ascii "object"

/-- Reads a JSON file. -/
def readJson (text : Bytes) : Except FileError (List (Bytes × Scalar)) :=
  match Json.read text with
  | .ok (.object members) => ofMembers members
  | .ok .null => .ok []
  | .ok value => .error (.notObject (typeName value))
  | .error e => .error (.notJson e)

/-! ## Names -/

/-- The known types of settings files, by which such files are also looked for, in this order. -/
def types : List Bytes :=
  ["json", "toml", "yaml", "yml", "properties", "props", "prop", "hcl", "tfvars", "dotenv", "env",
    "ini"].map ascii

/-- The type of a file: what follows the last dot of its name. -/
def typeOf (path : Bytes) : Bytes :=
  let name := path.reverse.takeWhile (· != 0x2F)
  if name.contains 0x2E then (name.takeWhile (· != 0x2E)).reverse else []

/-- Lower case, as far as names of settings are concerned: the dotted capital `I` is the only
character beyond ASCII whose lower case occurs in one. -/
def lower : Bytes → Bytes
  | 0xC4 :: 0xB0 :: rest => 0x69 :: lower rest
  | b :: rest => (if 0x41 ≤ b && b ≤ 0x5A then b + 0x20 else b) :: lower rest
  | [] => []

/-- The entry of a setting in a file. A spelling with capital letters counts before the plain one,
and among equal spellings the last one counts. -/
def entry? (settings : List (Bytes × Scalar)) (key : Key) : Option (Bytes × Scalar) :=
  let found := settings.reverse.filter fun (name, _) => lower name = key.name
  (found.find? (·.1 != key.name)).or found.head?

/-- The value of a setting in a file; null counts as none. -/
def value? (settings : List (Bytes × Scalar)) (key : Key) : Option Scalar :=
  match entry? settings key with
  | some (_, .null) => none
  | some (_, value) => some value
  | none => none

end SettingsFile

end FilterQuery
