import FilterQuery.Command
import FilterQuery.Settings.Plain

/-!
# The command line program

Reads what the command asks for, runs it, and hands out what it leaves behind.
-/

namespace FilterQuery

/-- The environment variables that are set. -/
def readVariables : IO (List (Bytes × Bytes)) := do
  let values ← Key.all.mapM fun key => do
    let name := String.fromUTF8? (ByteArray.mk key.envName.toArray)
    let value ← IO.getEnv (name.getD "")
    return value.map fun text => (key.envName, text.toUTF8.toList)
  return values.filterMap id

/-- The files among the wanted ones that can be read. -/
def readFiles (paths : List Bytes) : IO (List (Bytes × Bytes)) := do
  let files ← paths.mapM fun path => do
    try
      let text ← IO.FS.readBinFile ((String.fromUTF8? (ByteArray.mk path.toArray)).getD "")
      return some (path, text.toList)
    catch _ => return none
  return files.filterMap id

/-- Everything on the standard input. -/
partial def readInput (stream : IO.FS.Stream) (before : ByteArray) : IO ByteArray := do
  let chunk ← stream.read 65536
  if chunk.isEmpty then return before else readInput stream (before ++ chunk)

end FilterQuery

open FilterQuery in
/-- Runs the command. -/
def main (args : List String) : IO UInt32 := do
  let args := args.map (·.toUTF8.toList)
  let environment ← readVariables
  let files ← match Flags.read args with
    | .ok flags =>
      let path := Plain.text ⟨environment, []⟩ Settings.defaults.config flags .config
      readFiles (Plain.wantedFiles path)
    | .error _ => pure []
  let task := Command.start (.plain ⟨environment, files⟩) args
  let input ← match task with
    | .lines _ => readInput (← IO.getStdin) .empty
    | _ => pure .empty
  let outcome := Command.finish {} input.toList task
  (← IO.getStdout).write (ByteArray.mk outcome.stdout.toArray)
  (← IO.getStderr).write (ByteArray.mk outcome.stderr.toArray)
  return outcome.status.toUInt32
