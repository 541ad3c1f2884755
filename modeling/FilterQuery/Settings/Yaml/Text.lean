import FilterQuery.Settings.Yaml.Error
import FilterQuery.Text.Utf8

/-!
# Texts in settings files

A settings file is a row of characters, each with its line and column. Texts stand in it plain, in
single quotes or in double quotes, and may go over several lines: a line end then counts as one
blank, and lines that are left empty count as line ends.

The row of characters of a file ends with the character zero, which is not allowed anywhere else.
-/

namespace FilterQuery.Yaml

/-- A character with its line and column, both counted from zero. -/
structure Placed where
  code : Nat
  line : Nat
  column : Nat
deriving Repr, DecidableEq

/-- What follows some place of a file. -/
abbrev Text := List Placed

/-! ## Characters -/

/-- The characters that a file may hold. -/
def isAllowed (n : Nat) : Bool :=
  n == 0x09 || n == 0x0A || n == 0x0D || (0x20 ≤ n && n ≤ 0x7E) || n == 0x85
    || (0xA0 ≤ n && n ≤ 0xD7FF) || (0xE000 ≤ n && n ≤ 0xFFFD) || (0x10000 ≤ n && n ≤ 0x10FFFF)

/-- A blank inside a line. -/
def isBlank (n : Nat) : Bool :=
  n == 0x20 || n == 0x09

/-- A line end. -/
def isBreak (n : Nat) : Bool :=
  n == 0x0A || n == 0x85 || n == 0x2028 || n == 0x2029

/-- A blank, a line end or the end of the file. -/
def isGap (n : Nat) : Bool :=
  isBlank n || isBreak n || n == 0

/-- The characters with one line feed in place of every carriage return, with or without a line
feed behind it. -/
def unifyBreaks : List Nat → List Nat
  | [] => []
  | 0x0D :: 0x0A :: rest => 0x0A :: unifyBreaks rest
  | n :: rest => (if n = 0x0D then 0x0A else n) :: unifyBreaks rest

/-- Characters with their places, and a zero behind the last one. -/
def place (line column : Nat) : List Nat → Text
  | [] => [⟨0, line, column⟩]
  | n :: rest =>
    ⟨n, line, column⟩ :: (if isBreak n then place (line + 1) 0 rest else place line (column + 1) rest)

/-- The characters of a file. A byte order mark at its beginning does not count. -/
def ofBytes (bytes : Bytes) : Except Error Text :=
  let codes := (Utf8.chunks bytes).map fun chunk => chunk.code.getD Utf8.replacement
  if codes.all isAllowed then
    let codes := if codes.head? = some 0xFEFF then codes.drop 1 else codes
    .ok (place 0 0 (unifyBreaks codes))
  else .error .control

/-- The UTF-8 form of characters. -/
def toBytes (codes : List Nat) : Bytes :=
  codes.flatMap Utf8.encode

/-- The character at a place. -/
def current (text : Text) : Placed :=
  text.headD ⟨0, 0, 0⟩

/-- The line on which the end of a file counts: one that is not ended by a line end is ended by the
end of the file. -/
def endLine (text : Text) : Nat :=
  match text.getLast? with
  | some last => if last.column = 0 then last.line else last.line + 1
  | none => 0

/-- Whether three dashes or three points stand alone at the beginning of a line. -/
def isDocumentMark : Text → Bool
  | a :: b :: c :: rest =>
    a.column == 0 && (a.code == 0x2D || a.code == 0x2E) && b.code == a.code && c.code == a.code
      && isGap (current rest).code
  | _ => false

/-! ## Blanks and comments -/

/-- What follows blanks. -/
def skipBlanks (text : Text) : Text :=
  text.dropWhile fun c => isBlank c.code

/-- How far behind a comment the next one is looked for. -/
def commentReach : Nat := 511

/-- Whether the next comment stands within reach, with only blanks and empty lines in front of
it. -/
def leadsToComment (text : Text) : Bool :=
  let next := (text.take commentReach).dropWhile fun c => isBlank c.code || c.code == 0x0A
  (current next).code == 0x23

/-- Where a walk over blanks, comments and line ends is. -/
inductive Filler where
  /-- Outside of comments. `tabs` says whether tabs count as blanks, and `fresh` whether a line end
  has been passed since the last text or sign. -/
  | blank (tabs fresh : Bool)
  /-- In a comment, which has its lines for itself if it is `fresh`. -/
  | comment (fresh : Bool)
deriving Repr, DecidableEq

namespace Filler

/-- At the beginning of a file. -/
def atStart : Filler := blank false true

/-- Behind a text or sign, on its line. -/
def onLine : Filler := blank true false

/-- The walk behind a line end. Tabs at the beginning of a line count as blanks only between braces
and on the way from a comment with lines for itself to the next comment. -/
def lineEnd (braces : Bool) (code : Nat) (rest : Text) : Filler → Filler
  | blank tabs fresh => blank (braces || (tabs && fresh)) true
  | comment fresh => blank (braces || (fresh && code == 0x0A && leadsToComment rest)) true

end Filler

/-- What follows blanks, comments and line ends. A byte order mark at the beginning of a line does
not count. -/
def skipSpace (braces : Bool) : Filler → Text → Text
  | _, [] => []
  | filler, c :: rest =>
    if isBreak c.code then skipSpace braces (filler.lineEnd braces c.code rest) rest
    else if c.code = 0 then c :: rest
    else match filler with
      | .comment _ => skipSpace braces filler rest
      | .blank tabs fresh =>
        if c.code = 0x20 || (tabs && c.code == 0x09) || (c.code == 0xFEFF && c.column == 0) then
          skipSpace braces filler rest
        else if c.code = 0x23 then skipSpace braces (.comment fresh) rest
        else c :: rest

/-! ## Gaps in texts -/

/-- What stands between two words of a text. -/
inductive Gap where
  | none
  /-- Blanks, the last one first. -/
  | blanks (codes : List Nat)
  /-- A line end, and more line ends, the last one first. -/
  | broken (first : Nat) (more : List Nat)
  /-- A line end that does not count, and more line ends, the last one first. -/
  | joined (more : List Nat)
deriving Repr, DecidableEq

namespace Gap

/-- A gap with one more blank. Blanks around line ends do not count. -/
def blank (code : Nat) : Gap → Gap
  | none => blanks [code]
  | blanks codes => blanks (code :: codes)
  | gap => gap

/-- A gap with one more line end. The next-line character counts as a line feed. -/
def lineEnd (code : Nat) (gap : Gap) : Gap :=
  let code := if code = 0x85 then 0x0A else code
  match gap with
  | broken first more => broken first (code :: more)
  | joined more => joined (code :: more)
  | _ => broken code []

/-- Whether a gap goes over a line end. -/
def isBroken : Gap → Bool
  | broken _ _ => true
  | joined _ => true
  | _ => false

/-- What the gap stands for, in reverse. -/
def codes : Gap → List Nat
  | none => []
  | blanks codes => codes
  | broken first more =>
    if first = 0x0A then (if more.isEmpty then [0x20] else more) else more ++ [first]
  | joined more => more

end Gap

/-! ## Plain texts -/

/-- Whether a plain text ends in front of a character that is no blank: at a character to the left
of its indentation, a document mark, a comment, a colon with a gap behind it or, between braces, a
character that has a meaning there. -/
def endsPlain (braces : Bool) (indent : Nat) (gap : Gap) (c : Placed) (rest : Text) : Bool :=
  (!braces && gap.isBroken && c.column < indent)
    || isDocumentMark (c :: rest)
    || (gap != .none && c.code == 0x23)
    || (c.code == 0x3A && isGap (current rest).code)
    || (braces && [0x2C, 0x3F, 0x5B, 0x5D, 0x7B, 0x7D].contains c.code)

/-- Reads a plain text that starts on a given line, the gap behind it, and what follows both. The
characters `found` so far are in reverse. -/
def readPlain (braces : Bool) (indent start : Nat) :
    (found : List Nat) → Gap → Text → Except Error (List Nat × Gap × Text)
  | found, gap, [] => .ok (found.reverse, gap, [])
  | found, gap, c :: rest =>
    if c.code = 0 then .ok (found.reverse, gap, c :: rest)
    else if isBlank c.code then
      if gap.isBroken && c.column < indent && c.code == 0x09 then
        .error (.trouble .tab start c.line)
      else readPlain braces indent start found (gap.blank c.code) rest
    else if isBreak c.code then readPlain braces indent start found (gap.lineEnd c.code) rest
    else if endsPlain braces indent gap c rest then .ok (found.reverse, gap, c :: rest)
    else readPlain braces indent start (c.code :: gap.codes ++ found) .none rest

/-! ## Quoted texts -/

/-- Reads a text in single quotes, the first of which has been read and stands on a given line. Two
quotes stand for one: `quote` says whether one has just been read. -/
def readSingle (start : Nat) :
    (found : List Nat) → Gap → (quote : Bool) → Text → Except Error (List Nat × Text)
  | _, _, _, [] => .error (.trouble .openQuote start start)
  | found, gap, true, c :: rest =>
    if c.code = 0x27 then readSingle start (0x27 :: found) gap false rest
    else .ok (found.reverse, c :: rest)
  | found, gap, false, c :: rest =>
    if isDocumentMark (c :: rest) then .error (.trouble .documentMark start c.line)
    else if c.code = 0 then .error (.trouble .openQuote start c.line)
    else if isBlank c.code then readSingle start found (gap.blank c.code) false rest
    else if isBreak c.code then readSingle start found (gap.lineEnd c.code) false rest
    else if c.code = 0x27 then readSingle start (gap.codes ++ found) .none true rest
    else readSingle start (c.code :: gap.codes ++ found) .none false rest

/-- What has been read of an escape. -/
inductive Escape where
  | none
  | backslash
  /-- Hexadecimal digits: how many are left, and the number so far. -/
  | hex (left value : Nat)
deriving Repr, DecidableEq

/-- The characters that escapes of one letter stand for. -/
def escapes : List (Nat × Nat) := [
  (0x30, 0x00), (0x61, 0x07), (0x62, 0x08), (0x74, 0x09), (0x09, 0x09), (0x6E, 0x0A),
  (0x76, 0x0B), (0x66, 0x0C), (0x72, 0x0D), (0x65, 0x1B), (0x20, 0x20), (0x22, 0x22),
  (0x27, 0x27), (0x2F, 0x2F), (0x5C, 0x5C), (0x4E, 0x85), (0x5F, 0xA0), (0x4C, 0x2028),
  (0x50, 0x2029)]

/-- How many hexadecimal digits an escape has. -/
def hexDigits? (code : Nat) : Option Nat :=
  if code = 0x78 then some 2 else if code = 0x75 then some 4 else if code = 0x55 then some 8
  else none

/-- The value of a hexadecimal digit. -/
def hexValue? (code : Nat) : Option Nat :=
  if 0x30 ≤ code && code ≤ 0x39 then some (code - 0x30)
  else if 0x61 ≤ code && code ≤ 0x66 then some (code - 0x57)
  else if 0x41 ≤ code && code ≤ 0x46 then some (code - 0x37)
  else none

/-- Whether a number is a character. -/
def isCharacter (n : Nat) : Bool :=
  n ≤ 0x10FFFF && !(0xD800 ≤ n && n ≤ 0xDFFF)

/-- Reads a text in double quotes, the first of which has been read and stands on a given line. -/
def readDouble (start : Nat) :
    (found : List Nat) → Gap → Escape → Text → Except Error (List Nat × Text)
  | _, _, _, [] => .error (.trouble .openQuote start start)
  | found, gap, .none, c :: rest =>
    if isDocumentMark (c :: rest) then .error (.trouble .documentMark start c.line)
    else if c.code = 0 then .error (.trouble .openQuote start c.line)
    else if isBlank c.code then readDouble start found (gap.blank c.code) .none rest
    else if isBreak c.code then readDouble start found (gap.lineEnd c.code) .none rest
    else if c.code = 0x22 then .ok ((gap.codes ++ found).reverse, rest)
    else if c.code = 0x5C then readDouble start (gap.codes ++ found) .none .backslash rest
    else readDouble start (c.code :: gap.codes ++ found) .none .none rest
  | found, gap, .backslash, c :: rest =>
    if isBreak c.code then readDouble start found (.joined []) .none rest
    else match hexDigits? c.code, escapes.lookup c.code with
      | some left, _ => readDouble start found gap (.hex left 0) rest
      | none, some code => readDouble start (code :: found) gap .none rest
      | none, none => .error (.trouble .unknownEscape start c.line)
  | found, gap, .hex left value, c :: rest =>
    match hexValue? c.code with
    | none => .error (.trouble .badHexEscape start c.line)
    | some digit =>
      let value := value * 16 + digit
      if 1 < left then readDouble start found gap (.hex (left - 1) value) rest
      else if isCharacter value then readDouble start (value :: found) gap .none rest
      else .error (.trouble .badCharacter start c.line)

end FilterQuery.Yaml
