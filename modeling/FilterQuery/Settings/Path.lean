import FilterQuery.Text.Bytes

/-!
# Paths

A path leads from the current folder over the parts between its slashes to a file. An empty part
and `.` stay where they are, and `..` goes back. Files are known by their own paths, and a folder
is known by the files in it.

**Order of errors.** The path as a whole is looked at first. Then its parts are followed from left
to right, and the first part that leads nowhere decides.
-/

namespace FilterQuery

/-- Why a file cannot be opened or read. -/
inductive OpenError where
  | missing
  /-- A file in place of a folder. -/
  | notFolder
  /-- A folder in place of a file. -/
  | isFolder
  | nameTooLong
  /-- A zero byte, which no path holds. -/
  | zeroByte
deriving Repr, DecidableEq

/-- The text of the error for a given path. -/
def OpenError.message (path : Bytes) : OpenError → Bytes
  | missing => ascii "open " ++ path ++ ascii ": no such file or directory"
  | notFolder => ascii "open " ++ path ++ ascii ": not a directory"
  | isFolder => ascii "read " ++ path ++ ascii ": is a directory"
  | nameTooLong => ascii "open " ++ path ++ ascii ": file name too long"
  | zeroByte => ascii "open " ++ path ++ ascii ": invalid argument"

namespace Path

/-- The length from which a path is too long. -/
def pathLimit : Nat := 4096

/-- The greatest length of a part. -/
def partLimit : Nat := 255

/-- A byte in front of parts: a slash ends an empty part, any other byte joins the first part. -/
def consPart (b : UInt8) (parts : List Bytes) : List Bytes :=
  if b = 0x2F then [] :: parts
  else match parts with
    | [] => [[b]]
    | part :: parts => (b :: part) :: parts

/-- The parts of a path. -/
def parts (path : Bytes) : List Bytes :=
  path.foldr consPart [[]]

/-- Whether a part stays where it is. -/
def stays (part : Bytes) : Bool :=
  part = [] || part = ascii "."

/-- The parts of a file's own path that go somewhere. -/
def place (path : Bytes) : List Bytes :=
  (parts path).filter (!stays ·)

/-- The text of the file at a place. -/
def fileAt? (files : List (Bytes × Bytes)) (here : List Bytes) : Option Bytes :=
  (files.find? fun file => place file.1 = here).map (·.2)

/-- Whether there is a folder at a place: the current one, or one that holds a file. -/
def isFolder (files : List (Bytes × Bytes)) (here : List Bytes) : Bool :=
  here.isEmpty || files.any fun file => here.isPrefixOf (place file.1) && here != place file.1

/-- Follows parts from a place. Nothing is known beyond the current folder. -/
def follow (files : List (Bytes × Bytes)) :
    (here : List Bytes) → List Bytes → Except OpenError (List Bytes)
  | here, [] => .ok here
  | here, part :: rest =>
    if (fileAt? files here).isSome then .error .notFolder
    else if !isFolder files here then .error .missing
    else if stays part then follow files here rest
    else if part = ascii ".." then
      if here.isEmpty then .error .missing else follow files here.dropLast rest
    else if partLimit < part.length then .error .nameTooLong
    else follow files (here ++ [part]) rest

/-- The text of the file to which a path leads. -/
def read (files : List (Bytes × Bytes)) (path : Bytes) : Except OpenError Bytes :=
  if path.contains 0 then .error .zeroByte
  else if pathLimit ≤ path.length then .error .nameTooLong
  else match files.find? (·.1 = path) with
    | some (_, text) => .ok text
    | none => do
      let files := if path.head? = some 0x2F then [] else files
      let target ← follow files [] (parts path)
      match fileAt? files target with
      | some text => return text
      | none => .error (if isFolder files target then .isFolder else .missing)

end Path

end FilterQuery
