import FilterQuery.Settings
import FilterQuery.Text.Quoted

/-!
# Command line flags

Flags and expressions may be mixed; `--` ends the flags, and a lone `-` is an expression. A switch
needs no value, any other flag takes the next argument unless its value stands behind `=`. Flags
of one letter are not known, but `-h` asks for help like `--help`. Flags that start with `-test.`
belong to a test run of the command and are passed over.
-/

namespace FilterQuery

/-- What is wrong with the arguments. Asking for help ends their reading as well. -/
inductive FlagError where
  | help
  | badFlag (arg : Bytes)
  | unknownFlag (name : Bytes)
  | unknownLetter (letter : UInt8) (letters : Bytes)
  | noValue (arg : Bytes)
  | badSwitch (key : Key) (value : Bytes)
deriving Repr, DecidableEq

/-- The truth value that a text spells. -/
def readSwitch? (text : Bytes) : Option Bool :=
  if ["1", "t", "T", "TRUE", "true", "True"].any (ascii · = text) then some true
  else if ["0", "f", "F", "FALSE", "false", "False"].any (ascii · = text) then some false
  else none

/-- The complaint about a text that spells no truth value. -/
def badSwitchText (value : Bytes) : Bytes :=
  ascii "strconv.ParseBool: parsing " ++ Quoted.quote value ++ ascii ": invalid syntax"

namespace FlagError

/-- The text of the error; asking for help is none. -/
def message : FlagError → Bytes
  | help => []
  | badFlag arg => ascii "bad flag syntax: " ++ arg
  | unknownFlag name => ascii "unknown flag: --" ++ name
  | unknownLetter letter letters =>
    ascii "unknown shorthand flag: " ++ Quoted.quoteByte letter ++ ascii " in -" ++ letters
  | noValue arg => ascii "flag needs an argument: " ++ arg
  | badSwitch key value =>
    ascii "invalid argument " ++ Quoted.quote value ++ ascii " for "
      ++ Quoted.quote (ascii "--" ++ key.name) ++ ascii " flag: " ++ badSwitchText value

end FlagError

namespace Flags

/-- The flags with one more expression in front. -/
def withExpression (e : Bytes) (flags : Flags) : Flags :=
  { flags with expressions := e :: flags.expressions }

/-- The flags with one more setting in front. -/
def withValue (key : Key) (value : Bytes) (flags : Flags) : Flags :=
  { flags with given := (key, value) :: flags.given }

/-- Checks the value of a setting. -/
def checkValue (key : Key) (value : Bytes) : Except FlagError Unit :=
  if key.isSwitch && (readSwitch? value).isNone then .error (.badSwitch key value) else .ok ()

/-- One argument as it is understood before its value is known. -/
inductive Arg where
  | expression
  | endOfFlags
  /-- Nothing that concerns the command. -/
  | passedOver
  | flag (key : Key) (value : Option Bytes)
  | error (e : FlagError)
deriving Repr, DecidableEq

/-- A long flag: what stands behind its two dashes. -/
def readLong (arg body : Bytes) : Arg :=
  let name := body.takeWhile (· != 0x3D)
  match body with
  | [] => .endOfFlags
  | b :: _ =>
    if b = 0x2D || b = 0x3D then .error (.badFlag arg)
    else match Key.ofFlag? name with
      | none => .error (if name = ascii "help" then .help else .unknownFlag name)
      | some key =>
        match body.dropWhile (· != 0x3D) with
        | _ :: value => .flag key (some value)
        | [] => .flag key (if key.isSwitch then some (ascii "true") else none)

/-- A flag of one dash: the letters that stand behind it. -/
def readShort (letter : UInt8) (letters : Bytes) : Arg :=
  if (Bytes.after? (ascii "test.") (letter :: letters)).isSome then .passedOver
  else if letter = 0x68 then .error .help
  else .error (.unknownLetter letter (letter :: letters))

/-- An argument by itself. -/
def readArg (arg : Bytes) : Arg :=
  match arg with
  | 0x2D :: 0x2D :: body => readLong arg body
  | 0x2D :: letter :: letters => readShort letter letters
  | _ => .expression

/-- Reads the arguments from left to right, up to the first error. -/
def read : List Bytes → Except FlagError Flags
  | [] => .ok ⟨[], []⟩
  | arg :: args =>
    match readArg arg with
    | .expression => (read args).map (withExpression arg)
    | .endOfFlags => .ok ⟨[], args⟩
    | .passedOver => read args
    | .error e => .error e
    | .flag key (some value) =>
      match checkValue key value with
      | .error e => .error e
      | .ok () => (read args).map (withValue key value)
    | .flag key none =>
      match args with
      | [] => .error (.noValue arg)
      | value :: args => (read args).map (withValue key value)

/-- The help text. -/
def usage : Bytes :=
  (([
    "Usage of filtres:",
    "      --ast                Print the parsed expression instead of the query",
    "      --config string      Path to the configuration file",
    "      --log_level string   Log level: debug, info, warn, error (default \"error\")",
    "      --pretty             Indent the json output",
    "      --schema             Print the json schema of the query document and exit"]
    : List String).map fun line => ascii line ++ [0x0A]).flatten

end Flags

end FilterQuery
