import FilterQuery.Settings.File
import FilterQuery.Settings.Path

/-!
# Plain settings

An implementation of the libraries for settings files that are flat lists of settings. A flag is
taken before an environment variable that is not empty, and that before the file. Values that do
not fit are all listed.
-/

namespace FilterQuery

/-- What the command finds around it. -/
structure Surroundings where
  environment : List (Bytes × Bytes)
  files : List (Bytes × Bytes)
deriving Repr, DecidableEq

namespace Surroundings

/-- The value of an environment variable; an empty one counts as none. -/
def setVariable? (s : Surroundings) (name : Bytes) : Option Bytes :=
  match s.environment.find? (·.1 = name) with
  | some (_, []) => none
  | some (_, value) => some value
  | none => none

/-- The text of the file to which a path leads. -/
def file (s : Surroundings) (path : Bytes) : Except OpenError Bytes :=
  Path.read s.files path

end Surroundings

/-- The settings of a file, in order. -/
abbrev PlainFile := List (Bytes × Scalar)

namespace Plain

/-! ## Files -/

/-- The names under which a settings file is looked for, in this order. -/
def standardFiles : List Bytes :=
  SettingsFile.types.map (ascii "filtres." ++ ·) ++ [ascii "filtres"]

/-- The files that may be read, if the given one is asked for; empty stands for none. -/
def wantedFiles : Bytes → List Bytes
  | [] => standardFiles
  | path => [path]

/-- Reads a text as a settings file. -/
def readText (read : Bytes → Except FileError PlainFile) (text : Bytes) : Except Bytes PlainFile :=
  (read text).mapError fun error => ascii "While parsing config: " ++ error.message

/-- Reads a file that is asked for. Its type is looked at before the file. -/
def readNamed (s : Surroundings) (path : Bytes) : Except Bytes PlainFile :=
  if !SettingsFile.types.contains (SettingsFile.typeOf path) then
    .error (ascii "Unsupported Config Type " ++ Quoted.quote (SettingsFile.typeOf path))
  else match s.file path with
    | .error e => .error (e.message path)
    | .ok text =>
      if SettingsFile.typeOf path = ascii "json" then readText SettingsFile.readJson text
      else readText SettingsFile.readYaml text

/-- Reads the first file of a standard name. -/
def readStandard (s : Surroundings) : Except Bytes (Option PlainFile) :=
  match standardFiles.findSome? fun name => (s.file name).toOption with
  | none => .ok none
  | some text => (readText SettingsFile.readYaml text).map some

/-! ## Values -/

/-- The value of a setting from the uppermost layer that has one. -/
def layered (flags : Flags) (s : Surroundings) (file : Option PlainFile) (key : Key) :
    Option Scalar :=
  match flags.value? key with
  | some value => some (.text value)
  | none =>
    match s.setVariable? key.envName with
    | some value => some (.text value)
    | none => file.bind (SettingsFile.value? · key)

/-- The value of a switch, or its default. -/
def switchOr (value : Key → Option Scalar) (key : Key) (default : Bool) : Except BadValue Bool :=
  match value key with
  | some v => v.toSwitch
  | none => .ok default

/-- The text of a setting, or its default. -/
def textOr (value : Key → Option Scalar) (key : Key) (default : Bytes) : Except BadValue Bytes :=
  match value key with
  | some v => v.toText
  | none => .ok default

/-- The text of a setting that no file is asked for. -/
def text (s : Surroundings) (default : Bytes) (flags : Flags) (key : Key) : Bytes :=
  ((textOr (layered flags s none) key default).toOption).getD []

/-- What does not fit about the value of a setting. -/
def badValue? (value : Key → Option Scalar) (key : Key) : Option BadValue :=
  if key.isSwitch then
    match switchOr value key false with
    | .ok _ => none
    | .error bad => some bad
  else
    match textOr value key [] with
    | .ok _ => none
    | .error bad => some bad

/-- The complaint about a value that does not fit. -/
def badValueText (key : Key) : BadValue → Bytes
  | .notSwitch text =>
    ascii "* cannot parse '" ++ key.name ++ ascii "' as bool: " ++ badSwitchText text
  | .time t =>
    ascii "* '" ++ key.name ++ ascii "' expected type '"
      ++ ascii (if key.isSwitch then "bool" else "string")
      ++ ascii "', got unconvertible type 'time.Time', value: '" ++ t.render ++ ascii "'"

/-- The complaints about all values that do not fit. -/
def badValuesText (value : Key → Option Scalar) : Bytes :=
  let found := Key.all.filterMap fun key => (badValue? value key).map (badValueText key)
  Bytes.ofNat found.length ++ ascii " error(s) decoding:\n\n"
    ++ Bytes.join (ascii "\n") (found.mergeSort Bytes.le)

/-- The settings that values amount to. -/
def decode (defaults : Settings) (value : Key → Option Scalar) : Except Bytes Settings :=
  match switchOr value .pretty defaults.pretty, switchOr value .ast defaults.ast,
      switchOr value .schema defaults.schema, textOr value .logLevel defaults.logLevel,
      textOr value .config defaults.config with
  | .ok pretty, .ok ast, .ok schema, .ok logLevel, .ok config =>
    .ok { pretty, ast, schema, logLevel, config }
  | _, _, _, _, _ => .error (badValuesText value)

end Plain

namespace Libraries

/-- Libraries for plain settings. -/
def plain (s : Surroundings) : Libraries PlainFile where
  parseFlags args := (Flags.read args).mapError fun
    | .help => .help Flags.usage
    | e => .refused e.message
  environment key := s.setVariable? key.envName
  fileSets file key := (SettingsFile.value? file key).isSome
  text := Plain.text s
  readNamed := Plain.readNamed s
  readStandard := Plain.readStandard s
  decode defaults flags file := Plain.decode defaults (Plain.layered flags s file)

end Libraries

end FilterQuery
