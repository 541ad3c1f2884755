import FilterQuery.Text.Quoted

/-!
# Errors in settings files

What can be wrong with a settings file that is written in lines. A trouble has two lines: the one
it is found on, and the one where the value or mapping around it starts. The message names the
second one, or the first one if the second is the first line of the file. Troubles with characters
count lines from one; troubles with the structure count them from zero, and say nothing of a line
zero.
-/

namespace FilterQuery.Yaml

/-- What is wrong at a character. -/
inductive Trouble where
  /-- A colon behind a value. -/
  | mappingValue
  /-- A dash in place of a value. -/
  | blockEntry
  /-- A question mark in place of a value. -/
  | mappingKey
  /-- A character that starts nothing. -/
  | unknownStart
  /-- A key without a colon. -/
  | missingColon
  /-- A tab in front of a continued value. -/
  | tab
  /-- A quote that is not closed. -/
  | openQuote
  /-- A document mark inside quotes. -/
  | documentMark
  | unknownEscape
  | badHexEscape
  /-- An escape for a number that is no character. -/
  | badCharacter
  /-- Nothing that could be a value. -/
  | missingNode
  /-- Something that is no key. -/
  | missingKey
  /-- Neither a comma nor a closing brace. -/
  | missingComma
deriving Repr, DecidableEq

namespace Trouble

/-- The trouble in words. -/
def text : Trouble → Bytes
  | mappingValue => ascii "mapping values are not allowed in this context"
  | blockEntry => ascii "block sequence entries are not allowed in this context"
  | mappingKey => ascii "mapping keys are not allowed in this context"
  | unknownStart => ascii "found character that cannot start any token"
  | missingColon => ascii "could not find expected ':'"
  | tab => ascii "found a tab character that violates indentation"
  | openQuote => ascii "found unexpected end of stream"
  | documentMark => ascii "found unexpected document indicator"
  | unknownEscape => ascii "found unknown escape character"
  | badHexEscape => ascii "did not find expected hexdecimal number"
  | badCharacter => ascii "found invalid Unicode character escape code"
  | missingNode => ascii "did not find expected node content"
  | missingKey => ascii "did not find expected key"
  | missingComma => ascii "did not find expected ',' or '\x7d'"

/-- Whether the trouble is one with the structure. -/
def isStructural : Trouble → Bool
  | missingNode | missingKey | missingComma => true
  | _ => false

end Trouble

/-- A key that was there before; lines count from one. -/
structure Repeat where
  key : Bytes
  line : Nat
  first : Nat
deriving Repr, DecidableEq

/-- What is wrong with a file. -/
inductive Error where
  /-- A character that is not allowed. -/
  | control
  | trouble (trouble : Trouble) (around place : Nat)
  | repeated (repeats : List Repeat)
  /-- A plain value in place of a mapping that is to be merged. -/
  | merge
  /-- A single value in place of settings. -/
  | notSettings (type value : Bytes) (line : Nat)
deriving Repr, DecidableEq

namespace Error

/-- The mention of a line in front of a trouble. -/
def lineNote (trouble : Trouble) (around place : Nat) : Bytes :=
  match if around = 0 then place else around with
  | 0 => []
  | line + 1 =>
    ascii "line " ++ Bytes.ofNat (if trouble.isStructural then line + 1 else line + 2) ++ ascii ": "

/-- A list of errors. -/
def listing (errors : List Bytes) : Bytes :=
  ascii "unmarshal errors:" ++ errors.flatMap (ascii "\n  " ++ ·)

/-- The complaint about a repeated key. -/
def repeatText (r : Repeat) : Bytes :=
  ascii "line " ++ Bytes.ofNat r.line ++ ascii ": mapping key " ++ Quoted.quote r.key
    ++ ascii " already defined at line " ++ Bytes.ofNat r.first

/-- The text of the error. -/
def message : Error → Bytes
  | control => ascii "yaml: control characters are not allowed"
  | .trouble t around place => ascii "yaml: " ++ lineNote t around place ++ t.text
  | repeated repeats => ascii "yaml: " ++ listing (repeats.map repeatText)
  | merge => ascii "yaml: map merge requires map or sequence of maps as the value"
  | notSettings type value line =>
    ascii "yaml: " ++ listing [ascii "line " ++ Bytes.ofNat line ++ ascii ": cannot unmarshal "
      ++ type ++ value ++ ascii " into map[string]interface \x7b\x7d"]

end Error

end FilterQuery.Yaml
