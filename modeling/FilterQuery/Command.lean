import FilterQuery.Compile
import FilterQuery.Settings
import FilterQuery.Text.Blank

/-!
# The command

The command compiles the expressions among its arguments or, without any, those on the lines of its
input, one query document per line. Expressions are independent of each other: one that is rejected
is reported, and the others are compiled all the same.
-/

namespace FilterQuery

/-- What a run of the command leaves behind. -/
structure Outcome where
  status : Nat
  stdout : Bytes
  stderr : Bytes
deriving Repr, DecidableEq

namespace Outcome

/-- Nothing said, nothing wrong. -/
def silent : Outcome := ⟨0, [], []⟩

/-- One text on the standard output. -/
def printed (text : Bytes) : Outcome := ⟨0, text ++ [0x0A], []⟩

/-- One complaint, and a status. -/
def complaint (status : Nat) (text : Bytes) : Outcome :=
  ⟨status, [], ascii "filtres: " ++ text ++ [0x0A]⟩

/-- One run after the other: the later status counts unless it is good. -/
def andThen (a b : Outcome) : Outcome :=
  ⟨if b.status = 0 then a.status else b.status, a.stdout ++ b.stdout, a.stderr ++ b.stderr⟩

end Outcome

namespace Command

/-! ## Lines of input -/

/-- The length at which a line is too long to be read. -/
def lineLimit : Nat := 65536

/-- Whether some line of a text is too long. -/
def hasLongLine (input : Bytes) : Bool :=
  (Bytes.lines input).any fun line => lineLimit ≤ line.length

/-- The expressions on the lines of a text: blank lines hold none. -/
def expressionsOf (input : Bytes) : List Bytes :=
  ((Bytes.lines input).map Blank.trim).filter (!·.isEmpty)

/-! ## Expressions -/

/-- The complaint about a rejected expression. -/
def rejected (expression message : Bytes) : Outcome :=
  .complaint 1 (ascii "rejected " ++ Quoted.quote expression ++ ascii ": " ++ message)

/-- A document on one line, or over several. -/
def layOut (pretty : Bool) (document : Json) : Bytes :=
  if pretty then document.renderIndented else document.render

/-- Prints an expression as it was parsed. -/
def printExpression (limits : Limits) (expression : Bytes) : Outcome :=
  match parse limits.expression expression with
  | .ok e => .printed e.render
  | .error e => rejected expression e.message

/-- Prints the query document of an expression. -/
def printQuery (limits : Limits) (pretty : Bool) (expression : Bytes) : Outcome :=
  match compile limits expression with
  | .ok c => .printed (if pretty then c.query.toJson.renderIndented else c.document)
  | .error e => rejected expression e.message

/-- Handles one expression. -/
def handle (limits : Limits) (settings : Settings) (expression : Bytes) : Outcome :=
  if settings.ast then printExpression limits expression
  else printQuery limits settings.pretty expression

/-- Handles expressions one after the other. -/
def handleAll (limits : Limits) (settings : Settings) (expressions : List Bytes) : Outcome :=
  (expressions.map (handle limits settings)).foldl Outcome.andThen .silent

/-! ## Runs -/

/-- What is left to do once arguments and settings are known. -/
inductive Task where
  | done (outcome : Outcome)
  | expressions (settings : Settings) (expressions : List Bytes)
  /-- Expressions are on the lines of the input. -/
  | lines (settings : Settings)
deriving Repr, DecidableEq

variable {File : Type}

/-- Reads arguments and settings. -/
def start (libraries : Libraries File) (args : List Bytes) : Task :=
  match Settings.load libraries args with
  | .error (.flags (.help written)) => .done ⟨0, [], written⟩
  | .error e => .done (.complaint 2 e.message)
  | .ok (settings, expressions) =>
    if settings.schema then .done (.printed (layOut settings.pretty Query.schemaDocument))
    else if expressions.isEmpty then .lines settings
    else .expressions settings expressions

/-- Does what is left to do. -/
def finish (limits : Limits) (input : Bytes) : Task → Outcome
  | .done outcome => outcome
  | .expressions settings expressions => handleAll limits settings expressions
  | .lines settings =>
    if hasLongLine input then
      .complaint 2 (ascii "reading stdin: bufio.Scanner: token too long")
    else handleAll limits settings (expressionsOf input)

/-- A whole run of the command. -/
def run (libraries : Libraries File) (limits : Limits) (args : List Bytes) (input : Bytes) :
    Outcome :=
  finish limits input (start libraries args)

end Command

end FilterQuery
