import FilterQuery.Text.Bytes

/-!
# Setting names

Each setting can be given as a flag, as an environment variable or in a settings file. Flags may
be spelled with `-` or `_`; the name of a setting has `_`.
-/

namespace FilterQuery

/-- The settings of the command. -/
inductive Key where
  | pretty
  | ast
  | schema
  | logLevel
  | config
deriving Repr, DecidableEq

namespace Key

/-- All settings, in the order of their fields. -/
def all : List Key := [pretty, ast, schema, logLevel, config]

/-- The name of a setting. -/
def name : Key → Bytes
  | pretty => ascii "pretty"
  | ast => ascii "ast"
  | schema => ascii "schema"
  | logLevel => ascii "log_level"
  | config => ascii "config"

/-- The environment variable of a setting. -/
def envName : Key → Bytes
  | pretty => ascii "FILTRES_PRETTY"
  | ast => ascii "FILTRES_AST"
  | schema => ascii "FILTRES_SCHEMA"
  | logLevel => ascii "FILTRES_LOG_LEVEL"
  | config => ascii "FILTRES_CONFIG"

/-- Whether a setting is switched on and off. -/
def isSwitch : Key → Bool
  | pretty => true
  | ast => true
  | schema => true
  | _ => false

/-- The setting with a name, in which `-` counts as `_`. -/
def ofFlag? (flag : Bytes) : Option Key :=
  let name := flag.map fun b => if b = 0x2D then 0x5F else b
  all.find? (·.name = name)

end Key

end FilterQuery
