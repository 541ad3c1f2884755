import FilterQuery.Settings.Key

/-!
# Settings

Settings are layered: a flag counts before an environment variable, that before the settings file,
and that before the default. The settings file is the one named by the `config` setting; if none is
named, a file of a standard name is used if there is one.

**Libraries.** Flags are parsed, files read and values decoded by libraries. What these do is a
parameter here, in the surroundings of one run (`Libraries`): `Settings.load` only says what is
asked of them, in which order, and what becomes of their errors.
-/

namespace FilterQuery

/-- The settings of the command. -/
structure Settings where
  pretty : Bool
  ast : Bool
  schema : Bool
  logLevel : Bytes
  config : Bytes
deriving Repr, DecidableEq

/-- What the arguments say: settings, the last of each counting, and expressions. -/
structure Flags where
  given : List (Key × Bytes)
  expressions : List Bytes
deriving Repr, DecidableEq

namespace Flags

/-- The last value given for a setting. -/
def value? (flags : Flags) (key : Key) : Option Bytes :=
  (flags.given.reverse.find? (·.1 = key)).map (·.2)

end Flags

/-- Why arguments are not read to their end. -/
inductive FlagFailure where
  /-- Help is asked for, and has been written. -/
  | help (written : Bytes)
  | refused (message : Bytes)
deriving Repr, DecidableEq

/-- The libraries that settings are read with, in the surroundings of one run. -/
structure Libraries (File : Type) where
  /-- Parses arguments. -/
  parseFlags : List Bytes → Except FlagFailure Flags
  /-- The environment variable of a setting, if there is one. -/
  environment : Key → Option Bytes
  /-- Whether a settings file has a value for a setting. -/
  fileSets : File → Key → Bool
  /-- The text of a setting before a file is read. -/
  text : (default : Bytes) → Flags → Key → Bytes
  /-- Reads the settings file at a path, or says why not. -/
  readNamed : (path : Bytes) → Except Bytes File
  /-- Looks for a settings file of a standard name and reads it. -/
  readStandard : Except Bytes (Option File)
  /-- The settings that all layers amount to. -/
  decode : (defaults : Settings) → Flags → Option File → Except Bytes Settings

/-- Why no settings come out. -/
inductive SettingsError where
  | flags (failure : FlagFailure)
  | namedFile (path message : Bytes)
  | standardFile (message : Bytes)
  | decoding (message : Bytes)
deriving Repr, DecidableEq

namespace SettingsError

/-- The text of the error. -/
def message : SettingsError → Bytes
  | flags (.help _) => ascii "pflag: help requested"
  | flags (.refused message) => message
  | namedFile path message => ascii "reading config " ++ path ++ ascii ": " ++ message
  | standardFile message => ascii "reading config: " ++ message
  | decoding message => ascii "unable to decode config: " ++ message

end SettingsError

namespace Settings

/-- The settings when nothing is set. -/
def defaults : Settings where
  pretty := false
  ast := false
  schema := false
  logLevel := ascii "error"
  config := []

variable {File : Type}

/-- Reads the settings file, if there is one. A file that is named has to be there. -/
def readFile (libraries : Libraries File) (flags : Flags) : Except SettingsError (Option File) :=
  match libraries.text defaults.config flags .config with
  | [] => libraries.readStandard.mapError .standardFile
  | path => (libraries.readNamed path).map some |>.mapError (.namedFile path)

/-- The settings, and the expressions among the arguments. -/
def load (libraries : Libraries File) (args : List Bytes) :
    Except SettingsError (Settings × List Bytes) :=
  match libraries.parseFlags args with
  | .error failure => .error (.flags failure)
  | .ok flags =>
    match readFile libraries flags with
    | .error e => .error e
    | .ok file =>
      match libraries.decode defaults flags file with
      | .error message => .error (.decoding message)
      | .ok settings => .ok (settings, flags.expressions)

end Settings

end FilterQuery
