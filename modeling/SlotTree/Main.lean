import Mathlib.Tactic.DeprecateTo
import SlotTree.Cli.Commands

/-!
# The command line

Runs a command on real files, by the clock of the system.  What reads that clock, `Std.Time`, comes
with Mathlib's `deprecate to`.

## Main definitions

* `main` — run what the arguments ask for.
-/

namespace SlotTree.Cli

/-- An error of the system as an error of a file.  Its code may come with either sign. -/
def fileError : IO.Error → FileError
  | .noFileOrDirectory _ _ _ => .notFound
  | .inappropriateType file code details =>
    if code = 21 ∨ code = 0 - 21 then .isDirectory
    else if code = 20 ∨ code = 0 - 20 then .notADirectory
    else .other (toString (IO.Error.inappropriateType file code details))
  | .invalidArgument file code details =>
    if code = 36 ∨ code = 0 - 36 then .nameTooLong
    else .other (toString (IO.Error.invalidArgument file code details))
  | e => .other (toString e)

/-- Try something with the file at a path, unless no file can be there. -/
def tryFile {α : Type} (path : String) (action : IO α) : IO (Except FileError α) := do
  if let some cause := pathFault? path then return .error cause
  if ← (System.mkFilePath [path]).isDir then return .error .isDirectory
  try
    return .ok (← action)
  catch e =>
    return .error (fileError e)

/-- Commands on real files, from a working directory. -/
def realHost (directory : String) : Host IO where
  directory := directory
  isPresent path := (System.mkFilePath [path]).pathExists
  read path := tryFile path (IO.FS.readFile (System.mkFilePath [path]))
  write path text := tryFile path (IO.FS.writeFile (System.mkFilePath [path]) text)
  print := IO.print
  now := return ⟨(← Std.Time.Timestamp.now).toNanosecondsSinceUnixEpoch.val⟩

end SlotTree.Cli

open SlotTree.Cli in
/-- Run what the arguments ask for. -/
def main (arguments : List String) : IO UInt32 := do
  let directory ← IO.currentDir
  let ending ← runArguments (realHost directory.toString) arguments
  match ending with
  | .done => return 0
  | .failed failure =>
    IO.eprintln ("\nError: " ++ failure.message ++ "\n")
    return 1
  | .misused =>
    IO.eprintln programUsage
    return 2
