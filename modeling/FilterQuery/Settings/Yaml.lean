import FilterQuery.Settings.Word
import FilterQuery.Settings.Yaml.Text

/-!
# Settings in lines

A settings file holds one flat mapping: either lines of the form `key: value`, all of which start
in the same column, or members of that form between braces, with commas between them. Keys and
values are plain or quoted texts, and a plain value has its value by its form. A key may stand
without a value.

**Where a mapping in lines ends.** It ends at the end of the file, at a document mark and at a line
that starts further to the left. What follows is not looked at.

**Order of errors.** The file is read from left to right, and the first trouble counts. Only a file
without trouble is searched for repeated keys, and then for the sign of a merge, which no plain
value satisfies.
-/

namespace FilterQuery.Yaml

/-- A setting with the line of its key, counted from zero. -/
structure Entry where
  line : Nat
  key : Bytes
  value : Scalar
  /-- Whether the key is the sign for a mapping that is to be merged into this one. -/
  merges : Bool
deriving Repr, DecidableEq

/-! ## Single texts -/

/-- How a text starts. -/
inductive Start where
  | plain
  | single
  | double
  /-- A bracket, a brace or another sign that opens a value other than a text. -/
  | opening
  | nothing (trouble : Trouble)
deriving Repr, DecidableEq

/-- How the text at some place starts. -/
def startOf (text : Text) : Start :=
  let c := (current text).code
  let gapBehind := isGap (current (text.drop 1)).code
  if c = 0x22 then .double
  else if c = 0x27 then .single
  else if c = 0x2D && gapBehind then .nothing .blockEntry
  else if c = 0x3F && gapBehind then .nothing .mappingKey
  else if c = 0x3A && gapBehind then .nothing .mappingValue
  else if [0x09, 0x25, 0x40, 0x60].contains c then .nothing .unknownStart
  else if [0x00, 0x2C, 0x5D, 0x7D].contains c then .nothing .missingNode
  else if [0x21, 0x26, 0x2A, 0x3E, 0x5B, 0x7B, 0x7C].contains c then .opening
  else .plain

/-- A text that has been read. -/
structure Lexeme where
  /-- Its first character. -/
  start : Placed
  quoted : Bool
  text : Bytes
  /-- Where a walk over the blanks and comments behind it starts. -/
  behind : Filler
deriving Repr, DecidableEq

namespace Lexeme

/-- The line on which a text starts. -/
def line (l : Lexeme) : Nat := l.start.line

/-- The value of a text. -/
def value (l : Lexeme) : Scalar :=
  if l.quoted then .text l.text else Word.value l.text

/-- The setting with a text as its key. -/
def entry (key : Lexeme) (value : Scalar) : Entry :=
  ⟨key.line, key.text, value, !key.quoted && key.text = ascii "<<"⟩

end Lexeme

/-- Reads the text at some place, and what follows it. -/
def readText (braces : Bool) (indent : Nat) (text : Text) : Except Error (Lexeme × Text) :=
  let start := current text
  match startOf text with
  | .double => do
    let (codes, rest) ← readDouble start.line [] .none .none (text.drop 1)
    return (⟨start, true, toBytes codes, .onLine⟩, rest)
  | .single => do
    let (codes, rest) ← readSingle start.line [] .none false (text.drop 1)
    return (⟨start, true, toBytes codes, .onLine⟩, rest)
  | .plain => do
    let (codes, gap, rest) ← readPlain braces indent start.line [] .none text
    return (⟨start, false, toBytes codes, if gap.isBroken then .atStart else .onLine⟩, rest)
  | .opening =>
    match skipSpace true .onLine (text.drop 1) with
    | [last] => .error (.trouble .missingNode (endLine [last]) (endLine [last]))
    | _ => .error (.trouble .missingNode start.line start.line)
  | .nothing .missingNode =>
    let line := if start.code = 0 then endLine text else start.line
    .error (.trouble .missingNode line line)
  | .nothing trouble => .error (.trouble trouble start.line start.line)

/-- How far behind the start of a key its colon may stand. -/
def keyReach : Nat := 1024

/-- Whether a character is on the line of a key and within its reach. -/
def Lexeme.reaches (key : Lexeme) (c : Placed) : Bool :=
  c.line == key.line && c.column ≤ key.start.column + keyReach

/-- What follows the colon behind a key. -/
def afterColon? (braces : Bool) (key : Lexeme) (text : Text) : Option Text :=
  match skipBlanks text with
  | [] => none
  | c :: rest =>
    if c.code = 0x3A && key.reaches c && (braces || isGap (current rest).code) then some rest
    else none

/-! ## Mappings in lines -/

/-- What follows a value in a mapping that starts on a given line: nothing else may stand on the
line of its end. -/
def endValue (start : Nat) (lexeme : Lexeme) (text : Text) : Except Error Text :=
  let text := if lexeme.quoted then skipBlanks text else text
  let c := current text
  if c.code = 0x3A && isGap (current (text.drop 1)).code then
    .error (.trouble .mappingValue c.line c.line)
  else if lexeme.quoted && !isGap c.code && c.code != 0x23 then
    match startOf text with
    | .nothing .unknownStart => .error (.trouble .unknownStart c.line c.line)
    | _ => .error (.trouble .missingKey start c.line)
  else .ok text

/-- Reads what stands behind the colon of a key on a given line, in a mapping with a given column
and first line, and the blanks and comments behind it. -/
def readLineValue (column start line : Nat) (text : Text) : Except Error (Scalar × Text) :=
  let text := skipSpace false .onLine text
  let c := current text
  if c.code = 0 || isDocumentMark text || (c.line != line && c.column ≤ column) then
    .ok (.null, text)
  else do
    let (lexeme, rest) ← readText false (column + 1) text
    let rest ← endValue start lexeme rest
    return (lexeme.value, skipSpace false lexeme.behind rest)

/-- Reads the lines of a mapping with a given column and first line, from a character that is
neither blank nor in a comment. Each line takes at least a character, which bounds their number. -/
def readLines (column start : Nat) : (bound : Nat) → Text → Except Error (List Entry)
  | 0, _ => .ok []
  | bound + 1, text =>
    let c := current text
    if c.code = 0 || isDocumentMark text || (c.code != 0x09 && c.column < column) then .ok []
    else match startOf text with
      | .nothing .unknownStart => .error (.trouble .unknownStart c.line c.line)
      | .nothing _ => .error (.trouble .missingKey start c.line)
      | .opening => .error (.trouble .missingKey start c.line)
      | _ =>
        if c.column != column then .error (.trouble .missingKey start c.line)
        else do
          let (key, rest) ← readText false (column + 1) text
          match afterColon? false key rest with
          | none => .error (.trouble .missingColon key.line key.line)
          | some rest =>
            let (value, rest) ← readLineValue column start key.line rest
            let entries ← readLines column start bound rest
            return key.entry value :: entries

/-! ## Mappings between braces -/

/-- Reads what stands behind a key between braces. -/
def readMemberValue (key : Lexeme) (text : Text) : Except Error (Scalar × Text) :=
  match afterColon? true key text with
  | none => .ok (.null, text)
  | some rest =>
    let rest := skipSpace true .onLine rest
    if [0x2C, 0x7D].contains (current rest).code then .ok (.null, rest)
    else do
      let (lexeme, rest) ← readText true 0 rest
      return (lexeme.value, rest)

/-- Reads the members of a mapping whose opening brace stands on a given line. Each member takes at
least a character, which bounds their number. -/
def readMembers (start : Nat) : (bound : Nat) → Text → Except Error (List Entry)
  | 0, _ => .ok []
  | bound + 1, text =>
    let text := skipSpace true .onLine text
    if (current text).code = 0x7D then .ok []
    else do
      let (key, rest) ← readText true 0 text
      let (value, rest) ← readMemberValue key rest
      let rest := skipSpace true .onLine rest
      let c := current rest
      if c.code = 0x7D then return [key.entry value]
      else if c.code = 0x2C then return key.entry value :: (← readMembers start bound (rest.drop 1))
      else
        let line := if c.code = 0 then endLine rest else c.line
        .error (.trouble .missingComma start line)

/-! ## Whole files -/

/-- The type of a value, as messages about a whole file name it. -/
def typeName : Scalar → Bytes
  | .null => ascii "!!null"
  | .bool _ => ascii "!!bool"
  | .text _ => ascii "!!str"
  | .integer _ => ascii "!!int"
  | .float _ _ => ascii "!!float"
  | .infinity _ => ascii "!!float"
  | .notANumber => ascii "!!float"
  | .time _ => ascii "!!timestamp"

/-- A value, as messages about a whole file show it: at most its first bytes. -/
def excerpt (text : Bytes) : Bytes :=
  ascii " \x60" ++ (if 10 < text.length then text.take 7 ++ ascii "..." else text) ++ ascii "\x60"

/-- A file that holds a single text. Nothing at all stands for no settings. -/
def ofLexeme (lexeme : Lexeme) : Except Error (List Entry) :=
  match lexeme.value with
  | .null => .ok []
  | value => .error (.notSettings (typeName value) (excerpt lexeme.text) (lexeme.line + 1))

/-- Reads a file from its first character that is neither blank nor in a comment. A mapping in lines
cannot start on the line of a document mark. -/
def readRoot (afterMark : Bool) (text : Text) : Except Error (List Entry) :=
  let c := current text
  if c.code = 0 then .ok []
  else if c.code = 0x7B then readMembers c.line text.length (text.drop 1)
  else if c.code = 0x2D && isGap (current (text.drop 1)).code then
    .error (.notSettings (ascii "!!seq") [] (c.line + 1))
  else do
    let (lexeme, rest) ← readText false 0 text
    let next := skipBlanks rest
    if (current next).code = 0x3A && isGap (current (next.drop 1)).code then
      if afterMark || !lexeme.reaches (current next) then
        .error (.trouble .mappingValue (current next).line (current next).line)
      else readLines c.column c.line text.length text
    else ofLexeme lexeme

/-- Reads a file. A document mark may stand in front of the settings. -/
def readEntries (text : Text) : Except Error (List Entry) :=
  let text := skipSpace false .atStart text
  if isDocumentMark text then
    if (current text).code = 0x2E then
      .error (.trouble .missingNode (current text).line (current text).line)
    else
      let rest := skipSpace false .onLine (text.drop 3)
      if isDocumentMark rest then .ok []
      else readRoot ((current rest).line == (current text).line) rest
  else readRoot false text

/-- The keys that occur again behind an entry. -/
def repeatsOf (entry : Entry) (later : List Entry) : List Repeat :=
  (later.filter (·.key = entry.key)).map fun again => ⟨entry.key, again.line + 1, entry.line + 1⟩

/-- All keys that were there before. -/
def repeats : List Entry → List Repeat
  | [] => []
  | entry :: entries => repeatsOf entry entries ++ repeats entries

/-- The settings of a file. -/
def read (bytes : Bytes) : Except Error (List (Bytes × Scalar)) := do
  let entries ← readEntries (← ofBytes bytes)
  match repeats entries with
  | [] =>
    if entries.any (·.merges) then .error .merge
    else return entries.map fun entry => (entry.key, entry.value)
  | found => .error (.repeated found)

end FilterQuery.Yaml
